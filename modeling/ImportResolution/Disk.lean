import ImportResolution.Location

/-! A disk of directories and regular files. A place is walked part by part, as a system does it: each
part needs a directory to stand in, and two dots go back to the one that holds it. -/
namespace ImportResolution

inductive DiskEntry
  | dir
  | file (content : ByteArray)

instance : DecidableEq DiskEntry
  | .dir, .dir => isTrue rfl
  | .dir, .file _ => isFalse nofun
  | .file _, .dir => isFalse nofun
  | .file a, .file b =>
    match ByteArray.instDecidableEq a b with
    | isTrue h => isTrue (congrArg DiskEntry.file h)
    | isFalse h => isFalse fun e => h (DiskEntry.file.inj e)

/-- What stands under each path; a path is its list of names, and the empty one is the root. -/
structure Disk where
  entries : List (List String × DiskEntry) := []
  deriving DecidableEq

inductive DiskError
  | notFound
  | alreadyExists
  | notDirectory
  | isDirectory
  | nameTooLong
  | nulByte
  | invalidText
  deriving DecidableEq, Repr

def DiskError.message : DiskError → String
  | notFound => "No such file or directory (os error 2)"
  | alreadyExists => "File exists (os error 17)"
  | notDirectory => "Not a directory (os error 20)"
  | isDirectory => "Is a directory (os error 21)"
  | nameTooLong => "File name too long (os error 36)"
  | nulByte => "file name contained an unexpected NUL byte"
  | invalidText => "stream did not contain valid UTF-8"

/-- Where a walk ends. -/
inductive Spot
  | taken (path : List String) (entry : DiskEntry)
  /-- Nothing stands here, but its directory does. -/
  | free (path : List String)
  deriving DecidableEq

/-- What is known of a place without opening it. -/
inductive Stat
  | file (size : Nat)
  | dir
  | missing
  /-- The walk failed for another reason than absence. -/
  | unknown
  deriving DecidableEq, Repr

def Stat.isFile : Stat → Bool
  | .file _ => true
  | _ => false

namespace Disk

def at? (d : Disk) : List String → Option DiskEntry
  | [] => some .dir
  | path => d.entries.lookup path

@[simp] theorem at?_nil (d : Disk) : d.at? [] = some .dir := rfl

/-- Every entry stands in a directory. -/
def Closed (d : Disk) : Prop := ∀ path, d.at? path ≠ none → d.at? path.dropLast = some .dir

def maxName : Nat := 255
def maxPlace : Nat := 4095

/-- One part further; a dot stays, but needs a directory to stay in. -/
def goOn (d : Disk) : Spot → String → Except DiskError Spot
  | .free _, _ => .error .notFound
  | .taken _ (.file _), _ => .error .notDirectory
  | .taken path .dir, name =>
    if name = "." then .ok (.taken path .dir)
    else if name = ".." then .ok (.taken path.dropLast .dir)
    else if name.utf8ByteSize > maxName then .error .nameTooLong
    else
      match d.at? (path ++ [name]) with
      | some e => .ok (.taken (path ++ [name]) e)
      | none => .ok (.free (path ++ [name]))

def walkFrom (d : Disk) (spot : Spot) (names : List String) : Except DiskError Spot :=
  names.foldlM d.goOn spot

/-- A slash at the end asks for a directory. -/
def asksDirectory (place : String) : Bool := Text.endsWith "/" place

/-- Where the parts of a place lead, whatever it asks for. -/
def reach (d : Disk) (place : String) : Except DiskError Spot :=
  if Text.hasChar (Char.ofNat 0) place then .error .nulByte
  else if place = "" then .error .notFound
  else if place.utf8ByteSize > maxPlace then .error .nameTooLong
  else d.walkFrom (.taken [] .dir) ((Path.segments place).filter (· ≠ ""))

def locate (d : Disk) (place : String) : Except DiskError Spot :=
  match d.reach place with
  | .ok (.taken path (.file content)) =>
    if asksDirectory place then .error .notDirectory else .ok (.taken path (.file content))
  | r => r

def stat (d : Disk) (place : String) : Stat :=
  match d.locate place with
  | .ok (.taken _ (.file content)) => .file content.size
  | .ok (.taken _ .dir) => .dir
  | .ok (.free _) => .missing
  | .error .notFound => .missing
  | .error _ => .unknown

def isFile (d : Disk) (place : String) : Bool := (d.stat place).isFile
def isDir (d : Disk) (place : String) : Bool := d.stat place == .dir
def exists? (d : Disk) (place : String) : Bool := d.isFile place || d.isDir place

def read (d : Disk) (place : String) : Except DiskError ByteArray :=
  match d.locate place with
  | .ok (.taken _ (.file content)) => .ok content
  | .ok (.taken _ .dir) => .error .isDirectory
  | .ok (.free _) => .error .notFound
  | .error e => .error e

def readText (d : Disk) (place : String) : Except DiskError String :=
  match d.read place with
  | .ok content =>
    match String.fromUTF8? content with
    | some text => .ok text
    | none => .error .invalidText
  | .error e => .error e

/-! Changes. -/

def put (d : Disk) (path : List String) (entry : DiskEntry) : Disk :=
  ⟨(path,entry) :: d.entries.filter fun e => e.1 != path⟩

theorem lookup_filter_ne {α β : Type} [BEq α] [LawfulBEq α] {p q : α} (h : q ≠ p)
    (xs : List (α × β)) : (xs.filter fun e => e.1 != p).lookup q = xs.lookup q := by
  induction xs with
  | nil => rfl
  | cons e r ih =>
    obtain ⟨k,v⟩ := e
    by_cases he : k = p
    · subst he
      have hb : (q == k) = false := by simpa using h
      simp [List.lookup_cons,ih,hb]
    · simp [he,List.lookup_cons,ih]

theorem at?_put (d : Disk) {p : List String} (hp : p ≠ []) (e : DiskEntry) (q : List String) :
    (d.put p e).at? q = if q = p then some e else d.at? q := by
  cases q with
  | nil => simp [at?,Ne.symm hp]
  | cons s r =>
    by_cases h : s :: r = p
    · subst h; simp [at?,put]
    · have hb : (s :: r == p) = false := by simpa using h
      simp only [at?,put,List.lookup_cons,hb,if_neg h]
      exact lookup_filter_ne h d.entries

/-- Writes a file, a new one if need be; a place that asks for a directory is none for a file. -/
def write (d : Disk) (place : String) (content : ByteArray) : Except DiskError Disk :=
  match d.reach place with
  | .ok (.taken _ .dir) => .error .isDirectory
  | .ok (.taken path (.file _)) | .ok (.free path) =>
    if asksDirectory place then .error .isDirectory else .ok (d.put path (.file content))
  | .error e => .error e

def makeDir (d : Disk) (place : String) : Except DiskError Disk :=
  match d.reach place with
  | .ok (.taken _ _) => .error .alreadyExists
  | .ok (.free path) => .ok (d.put path .dir)
  | .error e => .error e

/-- Makes a directory unless it is there. -/
def ensureDir (d : Disk) (place : String) : Except DiskError Disk :=
  match d.makeDir place with
  | .ok made => .ok made
  | .error e => if d.isDir place then .ok d else .error e

/-- Makes a directory after those above it, as far as they are missing. -/
def makeDirsFuel : Nat → Disk → String → Except DiskError Disk
  | 0, _, _ => .error .notFound
  | fuel+1, d, place =>
    if place = "" then .ok d
    else
      match d.ensureDir place with
      | .error .notFound =>
        match Location.parent? place with
        | none => .error .notFound
        | some above =>
          match makeDirsFuel fuel d above with
          | .ok d => d.ensureDir place
          | .error e => .error e
      | r => r

/-- Each step up drops a segment, so their number bounds the climb. -/
def makeDirs (d : Disk) (place : String) : Except DiskError Disk :=
  makeDirsFuel ((Path.segments place).length + 1) d place

def removeFile (d : Disk) (place : String) : Except DiskError Disk :=
  match d.locate place with
  | .ok (.taken path (.file _)) => .ok ⟨d.entries.filter fun e => e.1 != path⟩
  | .ok (.taken _ .dir) => .error .isDirectory
  | .ok (.free _) => .error .notFound
  | .error e => .error e

/-- Removes a file or a directory with all that is below it. -/
def removeTree (d : Disk) (place : String) : Disk :=
  match d.locate place with
  | .ok (.taken path _) => ⟨d.entries.filter fun e => !path.isPrefixOf e.1⟩
  | _ => d

/-- Puts a file into the place of another. -/
def renameFile (d : Disk) (source target : String) : Except DiskError Disk := do
  let content ← d.read source
  let d ← d.write target content
  d.removeFile source

/-! What a directory holds. -/

/-- The entries strictly below a directory, by their paths from there. -/
def below (d : Disk) (place : String) : List (List String × DiskEntry) :=
  match d.locate place with
  | .ok (.taken path .dir) =>
    d.entries.filterMap fun e => match path.isPrefixOf? e.1 with
      | some [] => none
      | some rest => some (rest,e.2)
      | none => none
  | _ => []

/-- The paths of the regular files below a directory. -/
def filesBelow (d : Disk) (place : String) : List (List String) :=
  (d.below place).filterMap fun e => match e.2 with
    | .file _ => some e.1
    | .dir => none

end Disk
end ImportResolution
