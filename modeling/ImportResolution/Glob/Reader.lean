import ImportResolution.Glob

/-! Reading patterns. Braces hold alternatives and may be nested, brackets hold a class of bytes, and a
backslash takes the next character as it stands. -/
namespace ImportResolution.Glob

def bytesOf (c : Char) : List UInt8 := (String.singleton c).toUTF8.toList

/-- The bytes of a range of characters: those of its ends, joined by a range where they meet. -/
def rangeBytes (first last : Char) : List ByteRange :=
  let single (b : UInt8) : ByteRange := (b,b)
  if first = last then (bytesOf first).map single
  else
    let head := bytesOf first
    let tail := bytesOf last
    head.dropLast.map single
      ++ (match head.getLast?, tail.head? with
        | some a, some b => [(a,b)]
        | _, _ => [])
      ++ tail.tail.map single

inductive ClassResult
  /-- The end came before the closing bracket. -/
  | unclosed
  /-- A range runs backwards. -/
  | backwards
  | closed (ranges : List (Char × Char)) (rest : List Char)

/-- The ranges up to the closing bracket, the last one first in `done`; `isOpen` after a dash that may
join two characters. -/
def readRanges (isOpen : Bool) (done : List (Char × Char)) : List Char → ClassResult
  | [] => .unclosed
  | c :: r =>
    if c = ']' && !done.isEmpty then
      .closed ((if isOpen then ('-','-') :: done else done).reverse) r
    else if c = '-' && !done.isEmpty && !isOpen then readRanges true done r
    else
      match isOpen, done with
      | true, (a,_) :: more => if c < a then .backwards else readRanges false ((a,c) :: more) r
      | _, _ => readRanges false ((c,c) :: done) r

/-- A group of alternatives that is open: those finished and the one at hand, the last token first. -/
structure GlobGroup where
  finished : List Glob := []
  current : Glob := []

/-- The groups that are open, the innermost first, and the outermost apart. -/
structure GlobDraft where
  groups : List GlobGroup := []
  outer : Glob := []

namespace GlobDraft

def isGrouped (d : GlobDraft) : Bool := !d.groups.isEmpty

def current (d : GlobDraft) : Glob :=
  match d.groups with
  | g :: _ => g.current
  | [] => d.outer

def setCurrent (d : GlobDraft) (tokens : Glob) : GlobDraft :=
  match d.groups with
  | g :: r => { d with groups := { g with current := tokens } :: r }
  | [] => { d with outer := tokens }

def push (d : GlobDraft) (t : GlobToken) : GlobDraft := d.setCurrent (t :: d.current)
def pushChar (d : GlobDraft) (c : Char) : GlobDraft := (bytesOf c).foldl (fun d b => d.push (.byte b)) d
def openGroup (d : GlobDraft) : GlobDraft := { d with groups := {} :: d.groups }

/-- A comma outside of braces stands for itself. -/
def nextBranch (d : GlobDraft) : GlobDraft :=
  match d.groups with
  | g :: r => { d with groups := ⟨g.finished ++ [g.current.reverse],[]⟩ :: r }
  | [] => d.pushChar ','

def closeGroup? (d : GlobDraft) : Option GlobDraft :=
  match d.groups with
  | g :: r =>
    some (GlobDraft.push { d with groups := r } (.either (g.finished ++ [g.current.reverse])))
  | [] => none

/-- Two stars behind a slash take the place of the slash. -/
def pushMany (d : GlobDraft) (atEnd : Bool) : GlobDraft :=
  match d.current with
  | .leading :: _ => d
  | .trailing :: _ => d
  | _ :: r => d.setCurrent ((if atEnd then .trailing else .between) :: r)
  | [] => d

end GlobDraft

/-- Behind two stars: `before` is the character in front of them. The draft with their meaning, the
character read last, and the rest. -/
def readMany (before : Option Char) (d : GlobDraft) (s : List Char) : GlobDraft × Char × List Char :=
  let plain := ((d.push .run).push .run,'*',s)
  if d.current.isEmpty then
    match s with
    | [] => (d.push .leading,'*',[])
    | '/' :: r => (d.push .leading,'/',r)
    | _ => plain
  else if before != some '/' && !(d.isGrouped && (before == some ',' || before == some '\x7b')) then plain
  else
    match s with
    | [] => (d.pushMany true,'*',[])
    | '/' :: r => (d.pushMany false,'/',r)
    | c :: _ => if d.isGrouped && (c = ',' || c = '\x7d') then (d.pushMany true,'*',s) else plain

/-- Reads the characters behind `before`. With `lenient`, a bracket that is not closed stands for itself,
and so do all behind it. -/
def readFrom (lenient : Bool) : Nat → Bool → Option Char → GlobDraft → List Char → Option GlobDraft
  | 0, _, _, _, _ => none
  | _, _, _, d, [] => some d
  | fuel+1, brackets, before, d, c :: r =>
    let goOn (d : GlobDraft) := readFrom lenient fuel brackets (some c) d r
    if c = '?' then goOn (d.push .any)
    else if c = '*' then
      match r with
      | '*' :: r =>
        let (d,last,r) := readMany before d r
        readFrom lenient fuel brackets (some last) d r
      | _ => goOn (d.push .run)
    else if c = '[' && brackets then
      let (negated,body) := match r with
        | '!' :: r => (true,r)
        | '^' :: r => (true,r)
        | r => (false,r)
      match readRanges false [] body with
      | .closed ranges r =>
        let bytes := ranges.flatMap fun range => rangeBytes range.1 range.2
        readFrom lenient fuel brackets (some ']') (d.push (.oneOf negated bytes)) r
      | .backwards => none
      | .unclosed =>
        if lenient then readFrom lenient fuel false (some c) (d.pushChar '[') r else none
    else if c = '\x7b' then goOn d.openGroup
    else if c = '\x7d' then d.closeGroup?.bind goOn
    else if c = ',' then goOn d.nextBranch
    else if c = '\\' then
      match r with
      | [] => none
      | e :: r => readFrom lenient fuel brackets (some e) (d.pushChar e) r
    else goOn (d.pushChar c)

/-- The pattern that a text writes, unless a group, a class or an escape in it is unfinished. -/
def parse? (lenient : Bool) (s : String) : Option Glob :=
  (readFrom lenient (s.length+1) true none {} s.toList).bind fun d =>
    if d.isGrouped then none else some d.outer.reverse

end ImportResolution.Glob
