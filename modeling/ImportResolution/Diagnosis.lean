import ImportResolution.External
import ImportResolution.Reason
import ImportResolution.Settings.Basic

/-! Why a specifier stays unresolved. Noise comes first, then paths that leave the root, the word of
the build context, importers that are fixtures, and an empty purse. -/
namespace ImportResolution

/-- Specifiers that no one wrote as an import. -/
structure NoiseFilter where
  heads : List String
  ignored : List String
  deriving DecidableEq, Repr

namespace NoiseFilter

def cleaned (xs : List String) : List String :=
  (xs.map fun s => Text.lowerAscii (Text.trim s)).filter (· ≠ "")

def of (s : ResolverSettings) : NoiseFilter := ⟨cleaned s.noiseHeads,cleaned s.noiseIgnore⟩

end NoiseFilter

namespace Diagnosis

/-- The path in lower case behind a slash, so that segments at the top are met too. -/
def anchored (rel : String) : String := "/" ++ Text.lowerAscii rel

def expectedOutputSegment : String := "/tests/expected_output/"
def fixtureSegments : List String := ["/fixtures/","/__fixtures__/","/testdata/"]

def isNoiseChar (c : Char) : Bool :=
  c = '<' || c = '>' || c = '|' || c = '^' || Text.isBlank c

end Diagnosis

/-- Whether the specifier is an artifact of parsing, or noise by the settings. -/
def NoiseFilter.isNoise (f : NoiseFilter) (spec rawSpec : String) (importer : Importer) : Bool :=
  let trimmed := Text.trim spec
  let lower := Text.lowerAscii trimmed
  trimmed == "" || trimmed == "." || trimmed == ".."
    || f.heads.any (Text.startsWith · lower)
    || Text.contains Diagnosis.expectedOutputSegment (Diagnosis.anchored importer.rel)
    || trimmed.toList.any Diagnosis.isNoiseChar
    || (External.isSystemPath trimmed && (importer.has .shell || importer.has .pathLike))
    || f.ignored.contains lower
    || f.ignored.contains (Text.lowerAscii (Text.trim rawSpec))

namespace Diagnosis

def isFixture (importerRel : String) : Bool :=
  fixtureSegments.any (Text.contains · (anchored importerRel))

/-- A relative specifier that climbs above the root. -/
def escapes (spec : String) (importer : Importer) : Bool :=
  Specifier.kind spec == .relative && Path.escapesRoot (Path.join importer.dir spec)

end Diagnosis

/-- What is known of an unresolved specifier. -/
structure Diagnosis where
  spec : String
  importer : Importer
  noise : Bool
  /-- The reason that the build context gives. -/
  plugin : Option ReasonCode
  budgetExhausted : Bool

def Diagnosis.reason (d : Diagnosis) : ReasonCode :=
  if d.noise then .parserNoiseSuppressed
  else if escapes d.spec d.importer then .pathNormalization
  else
    match d.plugin with
    | some code => code
    | none =>
      if isFixture d.importer.rel then .fixtureReference
      else if d.budgetExhausted then .resolverBudgetExhausted
      else if Specifier.isPathBased d.spec then .missingFileRelative
      else .unknown

end ImportResolution
