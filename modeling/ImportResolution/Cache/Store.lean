import ImportResolution.Cache.Codec
import ImportResolution.Disk
import ImportResolution.Failure

/-! The cache file. It is written beside its place and then moved there; a file that cannot be read or
bears another version counts as none. -/
namespace ImportResolution.Cache.Store

def fileName : String := "import_resolution.json"
def place (dir : String) : String := Location.join dir fileName
def draftPlace (dir : String) : String := Location.join dir "import_resolution.json.tmp"

def incompatible (version : String) : Failure :=
  .cacheInvalid ("Incompatible cache version: expected " ++ Persisted.currentVersion ++ ", got "
    ++ version)

def access {α : Type} (place : String) (r : Except DiskError α) : Except Failure α :=
  r.mapError fun e => .cacheAccess place e.message

/-- The cache of a directory; none if there is no file yet. -/
def load (disk : Disk) (dir : String) : Except Failure (Option Persisted) :=
  if !disk.exists? (place dir) then .ok none
  else do
    let content ← access (place dir) (disk.readText (place dir))
    match Persisted.parse? content with
    | none => .error (.cacheInvalid "Failed to parse resolution cache")
    | some c => if c.isCompatible then .ok (some c) else .error (incompatible c.version)

def loadOrDiscard (disk : Disk) (dir : String) : Option Persisted :=
  match load disk dir with
  | .ok c => c
  | .error _ => none

/-- The disk after each step, also of a save that fails. -/
def save (disk : Disk) (dir : String) (c : Persisted) : Except Failure Unit × Disk :=
  match disk.makeDirs dir with
  | .error e => (.error (.cacheAccess dir e.message),disk)
  | .ok made =>
    match made.write (draftPlace dir) c.text.toUTF8 with
    | .error e => (.error (.cacheAccess (draftPlace dir) e.message),made)
    | .ok written =>
      match written.renameFile (draftPlace dir) (place dir) with
      | .error e => (.error (.cacheAccess (place dir) e.message),written)
      | .ok moved => (.ok (),moved)

def clear (disk : Disk) (dir : String) : Except Failure Disk :=
  if disk.exists? (place dir) then access (place dir) (disk.removeFile (place dir)) else .ok disk

end ImportResolution.Cache.Store
