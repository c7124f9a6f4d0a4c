import ImportResolution.Disk.View
import ImportResolution.FileSet
import ImportResolution.Json.Reader
import ImportResolution.Manifest
import ImportResolution.Table

/-! The file that a directory stands for, as its package manifest says, or else as is the custom while
a package is being written. -/
namespace ImportResolution

namespace PackageEntry

/-- Conditions in the order of their weight. -/
def conditions : List String := ["import","require","default","node","module","browser"]

/-- From the targets of an object's members to its own: those of the root if it names one, none if it
names only other places, else those of the known conditions, else all by key. -/
def select (members : List (String × List String)) : List String :=
  let t := Table.ofList members
  match t.find? "." with
  | some targets => targets
  | none =>
    if t.keys.any (Text.startsWith ".") then []
    else
      match conditions.filterMap t.find? with
      | [] => t.values.flatten
      | found => found.flatten

mutual

def exportTargets : Json → List String
  | .str s => [s]
  | .arr xs => exportTargetsAll xs
  | .obj ms => select (exportTargetsOf ms)
  | _ => []

def exportTargetsAll : List Json → List String
  | [] => []
  | x :: r => exportTargets x ++ exportTargetsAll r

def exportTargetsOf : List (String × Json) → List (String × List String)
  | [] => []
  | m :: r => (m.1,exportTargets m.2) :: exportTargetsOf r

end

def entryFields : List String := ["main","module","source"]

/-- Declared entries: exports, then the single fields. -/
def candidates (manifest : Json) : List String :=
  let exported := ((manifest.member? "exports").map exportTargets).getD []
  let single := entryFields.filterMap fun f => (manifest.member? f).bind Json.str?
  Text.distinct ((exported ++ single).filter fun s => !Text.isAllBlank s)

def customary : List String := ["src/index","src/main","lib/index","source/index"]

def manifestOf (dir : String) : String := Path.join dir Manifest.packageName

/-- The manifest of a directory, if it can be read. -/
def manifest? (v : DiskView) (root dir : String) : Option Json :=
  (v.readText? (Location.ofRelative root (manifestOf dir))).bind Json.parse?

def declared? (i : FileIndex) (manifest : Json) (dir : String) : Option String :=
  (((candidates manifest).map (Path.join dir)).filter fun c => !Text.startsWith ".." c).findSome?
    i.candidate?

/-- The entry of a directory that has a manifest, in the index or on the disk. -/
def entry? (i : FileIndex) (v : DiskView) (root dir : String) : Option String :=
  if i.contains (manifestOf dir) || v.isFile (Location.ofRelative root (manifestOf dir)) then
    ((manifest? v root dir).bind fun m => declared? i m dir).or
      (customary.findSome? fun base => i.candidate? (Path.join dir base))
  else none

/-- Whether a directory has a manifest whose text is no JSON. -/
def isMalformed (i : FileIndex) (v : DiskView) (root dir : String) : Bool :=
  let place := Location.ofRelative root (manifestOf dir)
  (i.contains (manifestOf dir) || v.isFile place) &&
    (v.readText? place).any fun text => (Json.parse? text).isNone

/-- What is said of a malformed manifest, up to the words of the parser. -/
def notice (manifest : String) : String := "[imports] ignoring malformed " ++ manifest ++ ": "

/-- Directories that may hold a package: none above the root, none outside. -/
def isAdmitted (dir : String) : Bool := !Path.isRooted dir && !Text.startsWith ".." dir

end PackageEntry

/-- Entries found so far, and the places asked on the disk and the manifests found malformed, the last
first. -/
structure PackageEntries where
  known : Table (Option String) := Table.empty
  checked : List String := []
  malformed : List String := []

def PackageEntries.find (p : PackageEntries) (i : FileIndex) (v : DiskView) (root dir : String) :
    Option String × PackageEntries :=
  let dir := Path.normalize dir
  if !PackageEntry.isAdmitted dir then (none,p)
  else
    match p.known.find? dir with
    | some e => (e,p)
    | none =>
      let e := PackageEntry.entry? i v root dir
      let manifest := PackageEntry.manifestOf dir
      (e,{ known := p.known.insert dir e
           checked := Location.ofRelative root manifest :: p.checked
           malformed :=
            if PackageEntry.isMalformed i v root dir then manifest :: p.malformed
            else p.malformed })

end ImportResolution
