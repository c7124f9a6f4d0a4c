import ImportResolution.Language.Include
import ImportResolution.Language.Python

/-! Relative and rooted specifiers by the rules of the importer's ecosystem. JavaScript has no rule
here, since the general search guesses its extensions. -/
namespace ImportResolution.Relative

/-- Where a path-based specifier points, before any extension is guessed. -/
def base (spec : String) (importer : Importer) : String :=
  match Text.afterHead? "/" spec with
  | some rest => Path.normalize rest
  | none => Path.join importer.dir spec

/-- Extensions and entry files of the ecosystems that search by these alone. -/
def table : Ecosystem → Option (List String × List String)
  | .python => some (Search.pythonExtensions,Search.pythonEntries)
  | .ruby => some (Search.rubyExtensions,Search.rubyEntries)
  | .lua => some ([".lua"],["init.lua"])
  | .php => some ([".php"],["index.php"])
  | .perl => some ([".pm",".pl"],[])
  | .rust => some ([".rs"],["mod.rs"])
  | .go => some ([".go"],[])
  | .java => some ([".java",".kt"],[])
  | .kotlin => some ([".kt",".kts",".java"],[])
  | .scala => some ([".scala",".sc"],[])
  | .groovy => some ([".groovy",".gradle"],[])
  | .cSharp => some ([".cs"],[])
  | .swift => some ([".swift"],[])
  | .julia => some ([".jl"],[])
  | .shell => some ([".sh",".bash"],[])
  | _ => none

def byTable? (i : FileIndex) (base : String) (ecosystem : Ecosystem) : Option String :=
  (table ecosystem).bind fun row => Search.withExtensions? i base row.1 row.2

/-- Dots in front that no slash follows name a module, not a path. -/
def isDotted (spec : String) : Bool :=
  Text.startsWith "." spec && !Text.startsWith "./" spec && !Text.startsWith "../" spec

def resolve? (i : FileIndex) (spec base : String) (importer : Importer) : Option String :=
  match importer.ecosystem with
  | .python =>
    if isDotted spec then Python.relativeDotted? i spec importer else byTable? i base .python
  | .go => (byTable? i base .go).or (i.filesIn base (some ".go")).head?
  | .dart => Dart.resolve? i spec importer none
  | .cLike | .bazel | .nix | .cMake | .toml | .pathLike => PathLike.resolve? i spec importer
  | .javaScript | .other => none
  | ecosystem => byTable? i base ecosystem

end ImportResolution.Relative
