import ImportResolution.Language.Dotted
import ImportResolution.Language.Search

/-! Python modules: dotted names from the roots, and names with leading dots from the importer. -/
namespace ImportResolution.Python

/-- The directory reached by climbing from `dir`; the top is its own parent. -/
def climb : Nat → String → String
  | 0, dir => dir
  | n+1, dir => climb n (Path.parent dir)

/-- One dot is the importer's package, and each further dot climbs one directory. -/
def relativeDotted? (i : FileIndex) (spec : String) (importer : Importer) : Option String :=
  let dots := (spec.toList.takeWhile (· = '.')).length
  if dots = 0 then none
  else
    let anchor := climb (dots - 1) importer.dir
    let rest := String.ofList (spec.toList.dropWhile (· = '.'))
    let module := Path.normalize (Text.replaceChar '.' '/' rest)
    let base := if module = "" then anchor else Path.join anchor module
    if base = "" then i.first? Search.pythonEntries
    else Search.withExtensions? i base Search.pythonExtensions Search.pythonEntries

def candidates (spec : String) (importer : Importer) : List String :=
  let module := Text.replaceChar '.' '/' spec
  ["",importer.dir,"src","lib"].flatMap fun root =>
    let base := Path.join root module
    [base ++ ".py",base ++ ".pyi",base ++ "/__init__.py",base ++ "/__init__.pyi"]

def resolve? (i : FileIndex) (spec : String) (importer : Importer) : Option String :=
  if Dotted.isIdentifier spec then i.first? (candidates spec importer) else none

end ImportResolution.Python
