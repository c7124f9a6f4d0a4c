import ImportResolution.Failure
import ImportResolution.Json.Fields
import ImportResolution.Json.Reader
import ImportResolution.Path

/-! What is asked and what is answered by importer: the specifiers of each, and the files and external
names that they lead to. -/
namespace ImportResolution

/-- All lists rise and hold nothing twice. -/
structure FileRelations where
  imports : List String := []
  /-- Files of the repository. -/
  importLinks : List String := []
  /-- Specifiers, as written, of what lies outside. -/
  externalImports : List String := []
  deriving DecidableEq, Repr

namespace FileRelations

/-- Takes over what a run found; imports that are known already stay. -/
def refresh (known found : FileRelations) : FileRelations where
  imports := if known.imports.isEmpty then found.imports else known.imports
  importLinks := found.importLinks
  externalImports := found.externalImports

/-- Brings the relations of known importers up to date. -/
def refreshAll (known found : Table FileRelations) : Table FileRelations :=
  known.mapWithKey fun importer r => ((found.find? importer).map r.refresh).getD r

end FileRelations

namespace Imports

def notAMap : Failure := .input "imports document is not an importer -> specifiers map"
def notRelative (importer : String) : Failure :=
  .input ("importer '" ++ importer ++ "' is not a repository-relative path")

/-- Reads specifiers by importer; the first importer that is no path of the repository is an error. -/
def parse (content : String) : Except Failure (Table (List String)) :=
  match (Json.Written.parse? content).bind (Json.Written.table? Json.Written.texts?) with
  | none => .error notAMap
  | some t =>
    match t.keys.find? fun importer => !Path.isInside (Path.normalize importer) with
    | some importer => .error (notRelative importer)
    | none => .ok t

end Imports
end ImportResolution
