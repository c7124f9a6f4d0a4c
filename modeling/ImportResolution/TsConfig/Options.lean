import ImportResolution.Location
import ImportResolution.Table

/-! Compiler options as one configuration file declares them, and as they stand when a file is merged
over those that it extends. -/
namespace ImportResolution.TsConfig

/-- The options of one file; directories are relative to it. -/
structure CompilerOptions where
  baseUrl : Option String := none
  paths : Table (List String) := Table.empty
  outDir : Option String := none
  rootDir : Option String := none
  declarationDir : Option String := none
  deriving DecidableEq

/-- What a file extends and what it sets. -/
structure ConfigFile where
  /-- One name, or a list of them where `Sum.inr`. -/
  extendsSpec : Option (String ⊕ List String) := none
  options : CompilerOptions := {}
  deriving DecidableEq

def ConfigFile.parents (c : ConfigFile) : List String :=
  match c.extendsSpec with
  | none => []
  | some (.inl s) => [s]
  | some (.inr xs) => xs

/-- Options whose directories are places on disk. -/
structure MergedOptions where
  baseUrl : Option String := none
  paths : Table (List String) := Table.empty
  /-- Directory of the file that declared the paths. -/
  pathsBase : Option String := none
  outDir : Option String := none
  rootDir : Option String := none
  declarationDir : Option String := none
  deriving DecidableEq

namespace MergedOptions

def ofConfig (config : ConfigFile) (dir : String) : MergedOptions :=
  let o := config.options
  { baseUrl := o.baseUrl.map (Location.joinCollapsed dir)
    paths := o.paths
    pathsBase := if o.paths.isEmpty then none else some dir
    outDir := o.outDir.map (Location.joinCollapsed dir)
    rootDir := o.rootDir.map (Location.joinCollapsed dir)
    declarationDir := o.declarationDir.map (Location.joinCollapsed dir) }

/-- The child's options win; paths and their directory go together. -/
def merge (parent child : MergedOptions) : MergedOptions :=
  { baseUrl := child.baseUrl.or parent.baseUrl
    paths := if child.pathsBase.isSome then child.paths else parent.paths
    pathsBase := if child.pathsBase.isSome then child.pathsBase else parent.pathsBase
    outDir := child.outDir.or parent.outDir
    rootDir := child.rootDir.or parent.rootDir
    declarationDir := child.declarationDir.or parent.declarationDir }

end MergedOptions
end ImportResolution.TsConfig
