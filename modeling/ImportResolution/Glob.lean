import ImportResolution.Text

/-! Patterns over paths. They act on the bytes of a path: a single star or question mark stays within a
segment, a double one goes over many. -/
namespace ImportResolution

/-- Bytes from the first to the second, both among them. -/
abbrev ByteRange := UInt8 × UInt8

inductive GlobToken
  | byte (b : UInt8)
  /-- One byte of a segment. -/
  | any
  /-- Any bytes of a segment. -/
  | run
  /-- No segment, or some with the slash behind them. -/
  | leading
  /-- A slash and all behind it. -/
  | trailing
  /-- A slash, or two with anything between them. -/
  | between
  | oneOf (negated : Bool) (ranges : List ByteRange)
  | either (branches : List (List GlobToken))
  deriving Inhabited

abbrev Glob := List GlobToken

namespace GlobToken

def slash : UInt8 := 47

/-- What may be left behind the bytes of a segment at the front. -/
def segmentRests : List UInt8 → List (List UInt8)
  | [] => [[]]
  | b :: r => if b = slash then [b :: r] else (b :: r) :: segmentRests r

/-- What may be left behind some slash. -/
def slashRests : List UInt8 → List (List UInt8)
  | [] => []
  | b :: r => if b = slash then r :: slashRests r else slashRests r

def allRests : List UInt8 → List (List UInt8)
  | [] => [[]]
  | b :: r => (b :: r) :: allRests r

def inRanges (ranges : List ByteRange) (b : UInt8) : Bool :=
  ranges.any fun range => range.1 ≤ b && b ≤ range.2

/-- Suffixes of one text, each once. -/
def distinctRests (rests : List (List UInt8)) : List (List UInt8) :=
  rests.foldl
    (fun seen s => if seen.any fun t => t.length == s.length then seen else s :: seen) []

mutual

/-- Whether nothing is written in a branch. -/
def isVoid : GlobToken → Bool
  | either branches => areVoid branches
  | _ => false

def areVoid : List (List GlobToken) → Bool
  | [] => true
  | b :: r => isVoidAll b && areVoid r

def isVoidAll : List GlobToken → Bool
  | [] => true
  | t :: r => isVoid t && isVoidAll r

end

mutual

/-- What may be left of a text behind a match at its front. A void branch counts only among its like. -/
def rests : GlobToken → List UInt8 → List (List UInt8)
  | byte b, s => match s with
    | c :: r => if c = b then [r] else []
    | [] => []
  | any, s => match s with
    | c :: r => if c = slash then [] else [r]
    | [] => []
  | run, s => segmentRests s
  | leading, s => s :: slashRests s
  | trailing, s => match s with
    | c :: r => if c = slash then allRests r else []
    | [] => []
  | between, s => match s with
    | c :: r => if c = slash then r :: slashRests r else []
    | [] => []
  | oneOf negated ranges, s => match s with
    | c :: r => if inRanges ranges c == negated then [] else [r]
    | [] => []
  | either branches, s => if areVoid branches then [s] else branchRests branches s

def branchRests : List (List GlobToken) → List UInt8 → List (List UInt8)
  | [], _ => []
  | b :: r, s => (if isVoidAll b then [] else sequenceRests b [s]) ++ branchRests r s

/-- What the tokens leave one after the other, from any of the texts given. -/
def sequenceRests : List GlobToken → List (List UInt8) → List (List UInt8)
  | [], given => given
  | t :: r, given => sequenceRests r (distinctRests (given.flatMap (rests t)))

end

/-- How many elements a token has in its sequence. -/
def elementCount : GlobToken → Nat
  | trailing => 2
  | either branches => if areVoid branches then 0 else 1
  | _ => 1

mutual

/-- How deep the parts of a token are nested. A sequence or a choice of several counts as one level, and
so do a repetition, a class, the union in a class and the bracket around a choice. -/
def nesting : GlobToken → Nat
  | byte _ => 0
  | any => 1
  | run => 2
  | leading => 4
  | trailing => 1
  | between => 4
  | oneOf _ ranges => if ranges.length > 1 then 2 else 1
  | either branches =>
    if areVoid branches then 0
    else branchNesting branches + (if branches.countP (!isVoidAll ·) > 1 then 2 else 1)

/-- The deepest of the branches that are not void. -/
def branchNesting : List (List GlobToken) → Nat
  | [] => 0
  | b :: r =>
    let level := if (b.map elementCount).foldr (· + ·) 0 > 1 then 1 else 0
    max (if isVoidAll b then 0 else sequenceNesting b + level) (branchNesting r)

/-- The deepest token of a sequence. -/
def sequenceNesting : List GlobToken → Nat
  | [] => 0
  | t :: r => max (nesting t) (sequenceNesting r)

end

end GlobToken

namespace Glob

def maxNesting : Nat := 250

/-- A pattern as a whole is one more sequence. -/
def isTooDeep (g : Glob) : Bool := maxNesting ≤ GlobToken.sequenceNesting g

/-- A pattern matches a whole path; two stars alone match every path. -/
def isMatch (g : Glob) (path : String) : Bool :=
  match g with
  | [.leading] => true
  | _ => (GlobToken.sequenceRests g [path.toUTF8.toList]).any List.isEmpty

end Glob
end ImportResolution
