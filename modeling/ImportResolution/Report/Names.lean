import ImportResolution.Importer
import ImportResolution.Specifier

/-! Names of kinds in reports. -/
namespace ImportResolution

def Ecosystem.name : Ecosystem → String
  | javaScript => "JsTs"
  | python => "Python"
  | ruby => "Ruby"
  | go => "Go"
  | rust => "Rust"
  | java => "Java"
  | kotlin => "Kotlin"
  | scala => "Scala"
  | groovy => "Groovy"
  | cSharp => "CSharp"
  | swift => "Swift"
  | dart => "Dart"
  | php => "Php"
  | lua => "Lua"
  | perl => "Perl"
  | shell => "Shell"
  | julia => "Julia"
  | cLike => "CLike"
  | bazel => "Bazel"
  | nix => "Nix"
  | cMake => "CMake"
  | toml => "Toml"
  | pathLike => "PathLike"
  | other => "Other"

def Trait.name : Trait → String
  | cLike => "CLIKE"
  | pathLike => "PATH_LIKE"
  | shell => "SHELL"
  | html => "HTML"
  | bazelSource => "BAZEL_SOURCE"
  | cMake => "CMAKE"
  | nix => "NIX"
  | toml => "TOML"

def Specifier.Kind.name : Specifier.Kind → String
  | .relative => "Relative"
  | .rooted => "Rooted"
  | .bare => "NonRelative"

end ImportResolution
