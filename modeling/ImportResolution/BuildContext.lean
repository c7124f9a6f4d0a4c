import ImportResolution.Artifact
import ImportResolution.Language.Label
import ImportResolution.Importer
import ImportResolution.Reason
import ImportResolution.TsConfig.Profile

/-! What build systems say about a specifier that no resolver found: a label or flake is a gap of the
resolver, a compiler's or generator's output is expected to be missing. -/
namespace ImportResolution

namespace Emit

/-- Emitted suffixes, the longer ones first, and the suffixes of the sources they come from. -/
def sources : List (String × List String) :=
  [(".d.mts",[".mts"]),(".d.cts",[".cts"]),(".d.ts",[".ts",".tsx"]),(".mjs",[".mts",".mjs"]),
   (".cjs",[".cts",".cjs"]),(".jsx",[".tsx",".jsx"]),(".js",[".ts",".tsx",".js",".jsx"])]

/-- The row of an emitted path and its stem. -/
def row? (emitted : String) : Option (String × List String) :=
  sources.findSome? fun row => (Artifact.beforeTailFolded? row.1 emitted).map fun stem => (stem,row.2)

/-- The source below `rootDir` that compiles to `emitted`. -/
def source? (i : FileIndex) (rootDir emitted : String) : Option String :=
  match row? emitted with
  | some (stem,exts) =>
    if stem = "" then none
    else exts.findSome? fun ext => i.spelled? (Path.join rootDir (stem ++ ext))
  | none =>
    if Path.hasExtension emitted then none else i.candidate? (Path.join rootDir emitted)

/-- The path relative to a directory that it lies in. -/
def below? (dir path : String) : Option String :=
  if dir = "" then some path else (Text.afterHead? dir path).bind (Text.afterHead? "/")

/-- Where a path-based specifier points, if that is inside the root. -/
def target? (spec : String) (importer : Importer) : Option String :=
  let target :=
    match Text.afterHead? "/" spec with
    | some rest => Path.normalize rest
    | none => if Text.startsWith "." spec then Path.join importer.dir spec else ""
  if target = "" ∨ Text.startsWith ".." target then none else some target

def rootDirOf (p : TsConfig.Profile) : String := p.rootDir.getD (Path.parent p.tsconfigRel)

/-- Directories that the compiler writes to, other than that of the sources. -/
def outputDirs (p : TsConfig.Profile) : List String :=
  (p.outDir.toList ++ p.declarationDir.toList).filter fun dir =>
    !Path.isRooted dir && dir != rootDirOf p

def match? (i : FileIndex) (p : TsConfig.Profile) (spec : String) (importer : Importer) :
    Option Artifact.Match :=
  (target? spec importer).bind fun target =>
    ((outputDirs p).findSome? fun dir => (below? dir target).bind (source? i (rootDirOf p))).map
      (.counterpart target)

end Emit

namespace Flake

def schemes : List String :=
  ["github:","gitlab:","sourcehut:","flake:","path:","git+","hg+","tarball+","file+","https://",
   "http://"]

def isReference (spec : String) : Bool :=
  let s := Text.lowerAscii spec
  schemes.any (Text.startsWith · s) || s == "nixpkgs" || Text.startsWith "nixpkgs/" s
    || Text.startsWith "nixpkgs#" s

end Flake

/-- Those who classify, in the order in which they are asked. -/
inductive Classifier
  | label
  | flake
  | emit
  | artifact
  deriving DecidableEq, Repr

namespace Classifier

def id : Classifier → String
  | label => "bazel-label"
  | flake => "nix-flake"
  | emit => "typescript-emit"
  | artifact => "generated-artifacts"

/-- The lower is asked first. -/
def priority : Classifier → Nat
  | label => 10
  | flake => 15
  | emit => 18
  | artifact => 20

def all : List Classifier := [label,flake,emit,artifact]

end Classifier

/-- One unresolved specifier with what surrounds it. -/
structure Unresolved where
  importer : Importer
  spec : String
  rawSpec : String
  profile : Option TsConfig.Profile

structure Classification where
  reason : ReasonCode
  classifier : Classifier
  artifact : Option Artifact.Match := none
  deriving DecidableEq, Repr

structure BuildContext where
  classifiers : List Classifier
  expected : Artifact.Expected

namespace BuildContext

def version : String := "build-context-v1"

def of (files : List String) (enabled : Bool) : BuildContext :=
  ⟨if enabled then Classifier.all else [],Artifact.Expected.of files⟩

def fingerprint (b : BuildContext) : String :=
  Digest.ofParts version (b.classifiers.map fun c => c.id ++ ":" ++ toString c.priority)

def isEnabled (b : BuildContext) : Bool := !b.classifiers.isEmpty

/-- Labels name rules and outputs, not files; outside build files only those with a repository or
a target do. -/
def isLabelGap (u : Unresolved) : Bool :=
  let source := u.importer.has .bazelSource
  let labelled := Text.startsWith "//" u.spec
    || (Text.startsWith "@" u.spec && Text.contains "//" u.spec)
  (labelled || (source && Text.startsWith ":" u.spec))
    && (Label.parse? u.spec u.importer.dir).any fun l =>
      source || l.repo.isSome || Text.hasChar ':' u.spec

def classifyBy (b : BuildContext) (i : FileIndex) (u : Unresolved) :
    Classifier → Option Classification
  | .label => if isLabelGap u then some ⟨.resolverGap,.label,none⟩ else none
  | .flake =>
    if u.importer.ecosystem == .nix
        && (Flake.isReference u.spec || Flake.isReference (Text.trim u.rawSpec)) then
      some ⟨.resolverGap,.flake,none⟩
    else none
  | .emit =>
    if u.importer.ecosystem == .javaScript then
      (u.profile.bind fun p => Emit.match? i p u.spec u.importer).map fun m =>
        ⟨.generatedExpectedMissing,.emit,some m⟩
    else none
  | .artifact =>
    (b.expected.match? u.importer.rel (if u.spec = "" then u.rawSpec else u.spec)).map fun m =>
      ⟨.generatedExpectedMissing,.artifact,some m⟩

/-- The first classification in the order of priority. -/
def classify? (b : BuildContext) (i : FileIndex) (u : Unresolved) : Option Classification :=
  b.classifiers.findSome? (b.classifyBy i u)

end BuildContext
end ImportResolution
