import ImportResolution.Path

/-! Absolute places on a disk, written as text. Two texts name one place when they have the same
parts; repeated slashes and inner dots are not parts. -/
namespace ImportResolution.Location

inductive Part
  | root
  | here
  | up
  | name (s : String)
  deriving DecidableEq, Repr

def innerPart? (segment : String) : Option Part :=
  if segment = "" ∨ segment = "." then none
  else if segment = ".." then some .up
  else some (.name segment)

/-- The parts of a place; a dot counts only where it starts a relative text. -/
def parts (s : String) : List Part :=
  match Path.segments s with
  | [] => []
  | first :: rest =>
    let head : List Part :=
      if Path.isRooted s then [.root]
      else if first = "." then [.here]
      else (innerPart? first).toList
    head ++ rest.filterMap innerPart?

def same (s t : String) : Bool := parts s == parts t
def isAbsolute (s : String) : Bool := Path.isRooted s

/-- Goes on from `base`; an absolute `value` starts afresh. -/
def join (base value : String) : String :=
  if isAbsolute value then value
  else if base = "" ∨ Text.endsWith "/" base then base ++ value
  else base ++ "/" ++ value

/-- Rank among the kinds of parts, and the name where there is one. -/
def Part.rank : Part → Nat × String
  | .root => (0,"")
  | .here => (1,"")
  | .up => (2,"")
  | .name s => (3,s)

def Part.precedes (a b : Part) : Bool :=
  a.rank.1 < b.rank.1 || (a.rank.1 == b.rank.1 && a.rank.2 < b.rank.2)

/-- The order of places part by part, a place before all below it. -/
def isSortedPair : List Part → List Part → Bool
  | [], _ => true
  | _ :: _, [] => false
  | a :: r, b :: t => if a = b then isSortedPair r t else a.precedes b

def sort (places : List String) : List String :=
  places.mergeSort fun a b => isSortedPair (parts a) (parts b)

def Part.name? : Part → Option String
  | .name s => some s
  | _ => none

/-- The path of `abs` relative to `root`, when it lies strictly below it and takes no step up. -/
def within? (root abs : String) : Option String :=
  match (parts root).isPrefixOf? (parts abs) with
  | none => none
  | some rest =>
    let below := rest.filter (· ≠ Part.here)
    if below.isEmpty ∨ !below.all (fun p => p.name?.isSome) then none
    else some (Path.ofSegments (below.filterMap Part.name?))

/-- The place of a repository path under `root`. -/
def ofRelative (root rel : String) : String :=
  ((Path.segments rel).filter (· ≠ "")).foldl join root

/-- One part of a walk that takes back names on `..`; the stack holds the names, the last first. -/
def collapseStep (stack : List String) : Part → List String
  | .root => []
  | .here => stack
  | .up => stack.tail
  | .name s => s :: stack

/-- The text without dots, each `..` taking back the name before it. -/
def collapse (s : String) : String :=
  let joined := Path.ofSegments ((parts s).foldl collapseStep []).reverse
  if isAbsolute s then "/" ++ joined else joined

def joinCollapsed (base value : String) : String := collapse (join base value)

def isVoid (segment : String) : Bool := segment = "" || segment = "."

/-- Segments, the last one first, without those at the end that are no parts. -/
def dropVoid : List String → List String
  | [] => []
  | [s] => [s]
  | s :: r => if isVoid s then dropVoid r else s :: r

/-- The directory that holds a place; the root of all and the empty text have none. -/
def parent? (s : String) : Option String :=
  if isAbsolute s then
    match ((Path.segments s).tail.reverse.dropWhile isVoid) with
    | [] => none
    | _ :: more => some ("/" ++ Path.ofSegments (more.dropWhile isVoid).reverse)
  else
    match dropVoid (Path.segments s).reverse with
    | [] => none
    | [s] => if s = "" then none else some ""
    | _ :: more => some (Path.ofSegments (dropVoid more).reverse)

end ImportResolution.Location
