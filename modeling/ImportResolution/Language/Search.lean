import ImportResolution.FileSet
import ImportResolution.Importer

/-! Searches that several ecosystems share: a base with extensions and entry files, and the guess
that a bare specifier is a path. -/
namespace ImportResolution.Search

def pythonExtensions : List String := [".py",".pyi"]
def pythonEntries : List String := ["__init__.py","__init__.pyi"]
def rubyExtensions : List String := [".rb",".rake",".ru",".gemspec"]
def rubyEntries : List String := ["index.rb","index.rake","index.ru"]

/-- The base, the base with each extension, and each entry file below it. -/
def spellings (base : String) (extensions entries : List String) : List String :=
  base :: (extensions.map (base ++ ·) ++ entries.map (base ++ "/" ++ ·))

def withExtensions? (i : FileIndex) (base : String) (extensions entries : List String) :
    Option String :=
  let base := Path.normalize base
  if base = "" ∨ Path.isRooted base then none
  else i.first? (spellings base extensions entries)

def fromBases? (i : FileIndex) (bases extensions entries : List String) : Option String :=
  bases.findSome? fun base => withExtensions? i base extensions entries

/-- The specifier itself, then below `lib`. -/
def rubyLoadPath? (i : FileIndex) (spec : String) : Option String :=
  let spec := Path.normalize spec
  if spec = "" ∨ Path.isRooted spec then none
  else
    (withExtensions? i spec rubyExtensions rubyEntries).or
      (withExtensions? i ("lib/" ++ spec) rubyExtensions rubyEntries)

/-- Extensions that mark a bare specifier as a path. -/
def pathExtensions : List String :=
  [".c",".cc",".cpp",".cxx",".cppm",".h",".hh",".hpp",".hxx",".ixx",".ipp",".inl",".modulemap",
   ".tpp",".inc",".cmake",".mk",".nix",".proto",".graphql",".gql",".hbs",".mustache",".jinja",
   ".jinja2",".j2",".bzl",".json",".yaml",".yml",".toml",".ini",".cfg",".conf",".xml",".md",
   ".txt",".css",".scss",".js",".ts",".rb",".py",".php",".pm",".lua",".sh"]

def looksLikePath (spec : String) : Bool :=
  spec != "" && (Text.startsWith ":" spec || Text.hasChar '/' spec || Text.hasChar '\\' spec
    || pathExtensions.contains (Text.lower (Path.extension spec)))

end ImportResolution.Search
