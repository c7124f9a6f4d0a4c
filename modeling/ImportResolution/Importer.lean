import ImportResolution.Text.Case
import ImportResolution.Path

/-! The file that imports: its ecosystem, told from its name and extension, and the traits that cut
across ecosystems. -/
namespace ImportResolution

inductive Ecosystem
  | javaScript | python | ruby | go | rust | java | kotlin | scala | groovy | cSharp | swift | dart
  | php | lua | perl | shell | julia | cLike | bazel | nix | cMake | toml | pathLike | other
  deriving DecidableEq, Repr

inductive Trait
  /-- Includes follow the search roots of C. -/
  | cLike
  /-- Specifiers are plain paths or labels. -/
  | pathLike
  | shell
  | html
  | bazelSource
  | cMake
  | nix
  | toml
  deriving DecidableEq, Repr

namespace Ecosystem

def cLikeExtensions : List String :=
  [".c",".cc",".cpp",".cxx",".cppm",".h",".hh",".hpp",".hxx",".def",".ixx",".ipp",".inl",
   ".modulemap",".inc",".tpp",".m",".mm"]

def pathLikeExtensions : List String :=
  cLikeExtensions ++
    [".cmake",".mk",".mak",".nix",".proto",".graphql",".gql",".hbs",".mustache",".jinja",".jinja2",
     ".j2",".bzl",".star",".dart",".toml",".bazel",".html",".htm"]

/-- File names that decide before any extension does. -/
def byName : List (String × Ecosystem) :=
  [("cmakelists.txt",cMake),("build",bazel),("build.bazel",bazel),("workspace",bazel),
   ("workspace.bazel",bazel),("module.bazel",bazel),("gemfile",ruby),("rakefile",ruby),
   ("pipfile",toml)]

def byExtension : List (List String × Ecosystem) :=
  [([".js",".jsx",".ts",".tsx",".mjs",".cjs",".mts",".cts",".vue",".svelte",".astro"],javaScript),
   ([".py",".pyi"],python),
   ([".rb",".rake",".ru",".gemspec"],ruby),
   ([".go"],go),
   ([".rs"],rust),
   ([".java"],java),
   ([".kt",".kts"],kotlin),
   ([".scala",".sc"],scala),
   ([".groovy",".gradle"],groovy),
   ([".cs"],cSharp),
   ([".swift"],swift),
   ([".dart"],dart),
   ([".php"],php),
   ([".lua"],lua),
   ([".pl",".pm"],perl),
   ([".sh",".bash",".zsh",".ksh"],shell),
   ([".jl"],julia),
   ([".bzl",".star",".bazel"],bazel),
   ([".nix"],nix),
   ([".cmake"],cMake),
   ([".toml"],toml),
   (cLikeExtensions,cLike),
   (pathLikeExtensions,pathLike)]

def of (ext name : String) : Ecosystem :=
  match byName.lookup name with
  | some e => e
  | none => ((byExtension.find? fun row => row.1.contains ext).map Prod.snd).getD other

end Ecosystem

structure Importer where
  rel : String
  dir : String
  /-- Extension with its dot, in lower case. -/
  ext : String
  /-- File name, in lower case. -/
  name : String
  ecosystem : Ecosystem
  traits : List Trait
  deriving DecidableEq, Repr

namespace Importer

def hasTrait (ext : String) (ecosystem : Ecosystem) : Trait → Bool
  | .cLike => Ecosystem.cLikeExtensions.contains ext
  | .pathLike => Ecosystem.pathLikeExtensions.contains ext
      || ecosystem == .bazel || ecosystem == .cMake || ecosystem == .toml
  | .shell => ecosystem == .shell
  | .html => ext == ".html" || ext == ".htm"
  | .bazelSource => [".bzl",".star",".bazel"].contains ext
  | .cMake => ecosystem == .cMake
  | .nix => ecosystem == .nix
  | .toml => ecosystem == .toml

def allTraits : List Trait := [.cLike,.pathLike,.shell,.html,.bazelSource,.cMake,.nix,.toml]

def of (rel : String) : Importer :=
  let ext := Text.lower (Path.extension rel)
  let name := Text.lower (Path.baseName rel)
  let ecosystem := Ecosystem.of ext name
  ⟨rel,Path.parent rel,ext,name,ecosystem,allTraits.filter (hasTrait ext ecosystem)⟩

def has (i : Importer) (t : Trait) : Bool := i.traits.contains t

/-- Whether an absolute specifier of this importer may name a place of the system. -/
def allowsAbsoluteExternal (i : Importer) : Bool := i.has .shell || i.has .pathLike || i.has .cLike

@[simp] theorem rel_of (rel : String) : (of rel).rel = rel := rfl
@[simp] theorem dir_of (rel : String) : (of rel).dir = Path.parent rel := rfl

end Importer
end ImportResolution
