import ImportResolution.Toml.Node
import ImportResolution.Toml.Scalar

/-! Reading TOML text: keys, values, lines, and the document that they make up. -/
namespace ImportResolution.Toml

/-- The brackets that may be open at once, and the parts of a dotted key, stay below this. -/
def maxDepth : Nat := 80

def isBareKey (c : Char) : Bool := c.isAlphanum || c = '_' || c = '-'

def readSimpleKey (s : List Char) : Option (String × List Char) :=
  match s with
  | '"' :: r => readBasic [] r
  | '\'' :: r => readLiteral r
  | _ =>
    let name := s.takeWhile isBareKey
    if name.isEmpty then none else some (String.ofList name,s.dropWhile isBareKey)

/-- The parts of a dotted key, with blanks around each. -/
def readKeyParts : Nat → List Char → Option (List String × List Char)
  | 0, _ => none
  | n+1, s => do
    let (part,r) ← readSimpleKey (skipBlank s)
    match skipBlank r with
    | '.' :: r => (readKeyParts n r).map fun p => (part :: p.1,p.2)
    | r => return ([part],r)

def readKey (s : List Char) : Option (List String × List Char) := readKeyParts (maxDepth-1) s

def skipComment (s : List Char) : List Char :=
  match s with
  | '#' :: r => r.dropWhile isPlain
  | _ => s

/-- Skips blanks, comments and line breaks. -/
def skipLines : Nat → List Char → List Char
  | 0, s => s
  | n+1, s =>
    match afterBreak? (skipComment (skipBlank s)) with
    | some r => skipLines n r
    | none => skipBlank s

def skipGap (s : List Char) : List Char := skipLines s.length s

mutual

/-- One value; `depth` is the number of brackets that may still open, and one more. -/
def readValue : Nat → Nat → List Char → Option (Value × List Char)
  | 0, _, _ => none
  | fuel+1, depth, s =>
    match s with
    | '[' :: r =>
      if depth ≤ 1 then none
      else
        match skipGap r with
        | ']' :: r => some (.list [],r)
        | r => (readElements fuel (depth-1) [] r).map fun p => (.list p.1,p.2)
    | '\x7b' :: r =>
      if depth ≤ 1 then none
      else
        match skipBlank r with
        | '\x7d' :: r => some (.table [],r)
        | r => (readMembers fuel (depth-1) .opened r).map fun p => (p.1.toValue,p.2)
    | _ => readScalar s

/-- The elements of an array, which may go over several lines and end in a comma. -/
def readElements : Nat → Nat → List Value → List Char → Option (List Value × List Char)
  | 0, _, _, _ => none
  | fuel+1, depth, done, s => do
    let (v,r) ← readValue fuel depth s
    match skipGap r with
    | ',' :: r =>
      match skipGap r with
      | ']' :: r => return ((v :: done).reverse,r)
      | r => readElements fuel depth (v :: done) r
    | ']' :: r => return ((v :: done).reverse,r)
    | _ => none

/-- The members of a table in braces, which stand on one line. -/
def readMembers : Nat → Nat → Node → List Char → Option (Node × List Char)
  | 0, _, _, _ => none
  | fuel+1, depth, n, s => do
    let (key,r) ← readKey s
    let r ← readMark '=' r
    let (v,r) ← readValue fuel depth (skipBlank r)
    let n ← n.assign key v
    match skipBlank r with
    | ',' :: r => readMembers fuel depth n r
    | '\x7d' :: r => return (n,r)
    | _ => none

end

/-- What follows the end of a line, with perhaps a comment before it. -/
def endLine (s : List Char) : Option (List Char) :=
  match skipComment (skipBlank s) with
  | [] => some []
  | r => afterBreak? r

/-- The document read so far, and the path of the table that its next lines fill. -/
structure Draft where
  root : Node := .opened
  place : List String := []

namespace Draft

def assign (d : Draft) (key : List String) (v : Value) : Option Draft :=
  (Node.reach false (Node.assign key v) d.place d.root).map fun root => { d with root }

def openWith (work : String → Node → Option Node) (d : Draft) (key : List String) : Option Draft := do
  let last ← key.getLast?
  let root ← Node.reach false (work last) key.dropLast d.root
  return ⟨root,key⟩

end Draft

def readHeader (d : Draft) : List Char → Option (Draft × List Char)
  | '[' :: '[' :: r => do
    let (key,r) ← readKey r
    let r ← readMark ']' r
    let r ← readMark ']' r
    return (← d.openWith Node.openElement key,← endLine r)
  | '[' :: r => do
    let (key,r) ← readKey r
    let r ← readMark ']' r
    return (← d.openWith Node.openTable key,← endLine r)
  | _ => none

def readAssignment (d : Draft) (s : List Char) : Option (Draft × List Char) := do
  let (key,r) ← readKey s
  let r ← readMark '=' r
  let (v,r) ← readValue (s.length+1) maxDepth (skipBlank r)
  return (← d.assign key v,← endLine r)

/-- Reads the lines up to the end of the text. -/
def readItems : Nat → Draft → List Char → Option Draft
  | 0, _, _ => none
  | fuel+1, d, s =>
    match skipGap s with
    | [] => some d
    | '#' :: r => if (r.dropWhile isPlain).isEmpty then some d else none
    | '[' :: r => (readHeader d ('[' :: r)).bind fun p => readItems fuel p.1 p.2
    | r => (readAssignment d r).bind fun p => readItems fuel p.1 p.2

/-- The members of the document; a byte order mark at its start does not count. -/
def parse? (s : String) : Option (List (String × Value)) :=
  let chars := match s.toList with
    | c :: r => if c.toNat = 0xFEFF then r else c :: r
    | [] => []
  (readItems (chars.length+1) {} chars).bind fun d =>
    match d.root.toValue with
    | .table ms => some ms
    | _ => none

end ImportResolution.Toml
