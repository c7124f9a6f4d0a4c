import ImportResolution.Cache.Entry
import ImportResolution.FileSet

/-! The cache that outlives a run. It belongs to one version, package manifest, file set and set of
rules, and holds for each importer the outcomes of its specifiers as of one content. -/
namespace ImportResolution.Cache

structure FileEntry where
  hash : String
  configFingerprint : Option String := none
  specs : Table Entry := Table.empty
  deriving DecidableEq

structure Persisted where
  version : String
  packageFingerprint : Option String := none
  fileSetFingerprint : Option String := none
  cacheKey : Option String := none
  files : Table FileEntry := Table.empty
  lookup : Option Snapshot := none
  deriving DecidableEq

namespace Persisted

def currentVersion : String := "import-resolution-cache-v3"

def new : Persisted := { version := currentVersion }

instance : Inhabited Persisted := ⟨new⟩

def isCompatible (c : Persisted) : Bool := c.version == currentVersion

/-- The outcomes of an importer whose content and configuration are as they were. -/
def fileEntry? (c : Persisted) (importer hash : String) (configFingerprint : Option String) :
    Option FileEntry :=
  (c.files.find? importer).filter fun f =>
    f.hash == hash && f.configFingerprint == configFingerprint

def specCount (c : Persisted) : Nat := (c.files.values.map fun f => f.specs.size).foldr (· + ·) 0

end Persisted
end ImportResolution.Cache
