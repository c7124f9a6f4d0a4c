import ImportResolution.FileSet
import ImportResolution.TsConfig.Options
import ImportResolution.TsConfig.PathRule

/-! The configuration that governs a directory, as bare specifiers and emitted files see it. Among
the hits of all path rules the most specific rule wins, then the shorter and then the lesser path. -/
namespace ImportResolution.TsConfig

structure Profile where
  tsconfigRel : String
  /-- An explicit base, relative to the root. -/
  baseUrl : Option String
  /-- Directory that the targets of the rules are joined onto. -/
  pathsBase : String
  rules : List PathRule
  outDir : Option String
  rootDir : Option String
  declarationDir : Option String
  fingerprint : String
  deriving DecidableEq, Repr

namespace Profile

def version : String := "tsconfig-profile-v1"

/-- A directory relative to the root; one outside keeps its full text. -/
def dirText (root dir : String) : String :=
  if Location.same dir root then "" else (Location.within? root dir).getD dir

def fingerprintParts (p : Profile) (paths : Table (List String)) : List String :=
  ["tsconfig:" ++ p.tsconfigRel,"baseUrl:" ++ p.baseUrl.getD "","pathsBase:" ++ p.pathsBase]
    ++ paths.entries.map (fun e => "path:" ++ e.1 ++ "=>" ++ ",".intercalate e.2)
    ++ ["outDir:" ++ p.outDir.getD "","rootDir:" ++ p.rootDir.getD "",
        "declarationDir:" ++ p.declarationDir.getD ""]

/-- The profile of a configuration inside the root. -/
def of? (root config : String) (merged : MergedOptions) : Option Profile :=
  (Location.within? root config).map fun rel =>
    let baseUrl := merged.baseUrl.map (dirText root)
    let p : Profile :=
      { tsconfigRel := rel
        baseUrl
        pathsBase :=
          (baseUrl.or (merged.pathsBase.map (dirText root))).getD (Path.parent rel)
        rules := merged.paths.entries.filterMap fun e => PathRule.of? e.1 e.2
        outDir := merged.outDir.map (dirText root)
        rootDir := merged.rootDir.map (dirText root)
        declarationDir := merged.declarationDir.map (dirText root)
        fingerprint := "" }
    { p with fingerprint := Digest.ofParts version (p.fingerprintParts merged.paths) }

def hasPaths (p : Profile) : Bool := !p.rules.isEmpty

end Profile

/-- A file found through a rule, or through the base where there is no pattern. -/
structure PathHit where
  path : String
  pattern : Option String
  tsconfigRel : String
  deriving DecidableEq, Repr

/-- A hit of a rule, with what it is ranked by. -/
structure RankedHit where
  exact : Bool
  headLength : Nat
  path : String
  pattern : String
  deriving DecidableEq, Repr

/-- Whether `a` beats `b`. -/
def RankedHit.beats (a b : RankedHit) : Bool :=
  if a.exact ≠ b.exact then a.exact
  else if a.headLength ≠ b.headLength then b.headLength < a.headLength
  else if a.path.utf8ByteSize ≠ b.path.utf8ByteSize then
    a.path.utf8ByteSize < b.path.utf8ByteSize
  else a.path < b.path

namespace Profile

/-- All hits of the rules, in the order of rules and targets. -/
def rankedHits (p : Profile) (i : FileIndex) (spec : String) : List RankedHit :=
  p.rules.flatMap fun rule =>
    ((rule.substitute? spec).getD []).filterMap fun target =>
      (i.candidate? (Path.join p.pathsBase target)).map fun path =>
        ⟨rule.isExact,rule.headLength,path,rule.pattern⟩

/-- The first hit that no other beats. -/
def best? (hits : List RankedHit) : Option RankedHit :=
  hits.foldl
    (fun best h =>
      match best with
      | none => some h
      | some b => if h.beats b then some h else some b)
    none

def resolve? (p : Profile) (i : FileIndex) (spec : String) : Option PathHit :=
  match best? (p.rankedHits i spec) with
  | some h => some ⟨h.path,some h.pattern,p.tsconfigRel⟩
  | none =>
    (p.baseUrl.bind fun base => i.candidate? (Path.join base spec)).map fun path =>
      ⟨path,none,p.tsconfigRel⟩

end Profile
end ImportResolution.TsConfig
