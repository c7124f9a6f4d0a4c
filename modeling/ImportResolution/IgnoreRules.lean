import ImportResolution.Glob.Reader

/-! Rules that leave files out. Each line of an ignore file is a pattern; the last one that matches a
path decides, and an exclamation mark in front turns its verdict around. -/
namespace ImportResolution

inductive Verdict
  | leftOut
  | kept
  deriving DecidableEq, Repr

def Verdict.opposite : Verdict → Verdict
  | leftOut => kept
  | kept => leftOut

structure IgnoreRule where
  pattern : Glob
  verdict : Verdict
  onlyDirs : Bool

/-- The rules of one source, in the order of their lines. -/
abbrev IgnoreRules := List IgnoreRule

namespace IgnoreRule

/-- Blanks at the end do not count, unless a backslash stands before the last one. -/
def trimLine (line : String) : String :=
  if Text.endsWith "\\ " line then line else Text.dropEndWhile Text.isBlank line

/-- Mark of exception and anchor at the front of a line; either may be escaped. -/
def readFront : List Char → Verdict × Bool × List Char
  | '\\' :: '!' :: r => (.leftOut,false,'!' :: r)
  | '\\' :: '#' :: r => (.leftOut,false,'#' :: r)
  | '!' :: '/' :: r => (.kept,true,r)
  | '!' :: r => (.kept,false,r)
  | '/' :: r => (.leftOut,true,r)
  | s => (.leftOut,false,s)

/-- A slash at the end, escaped or not, asks for a directory. -/
def readBack (s : List Char) : Bool × List Char :=
  match s.reverse with
  | '/' :: '\\' :: r => (true,r.reverse)
  | '/' :: r => (true,r.reverse)
  | _ => (false,s)

/-- The pattern against whole paths: one without a slash matches in every directory, and one for all
below a directory does not match the directory. -/
def wholePattern (anchored : Bool) (s : List Char) : String :=
  let text := String.ofList s
  let text := if anchored || s.contains '/' || text = "**" then text else "**/" ++ text
  if Text.endsWith "/**" text then text ++ "/*" else text

/-- The rule of a line; `none` where there is none, and an error where its pattern cannot be read. -/
def ofLine (lenient : Bool) (line : String) : Except Unit (Option IgnoreRule) :=
  let trimmed := trimLine line
  if Text.startsWith "#" line || trimmed = "" then .ok none
  else
    let (verdict,anchored,rest) := readFront trimmed.toList
    let (onlyDirs,rest) := readBack rest
    match Glob.parse? lenient (wholePattern anchored rest) with
    | some pattern => .ok (some ⟨pattern,verdict,onlyDirs⟩)
    | none => .error ()

def isMatch (r : IgnoreRule) (path : String) (isDir : Bool) : Bool :=
  (isDir || !r.onlyDirs) && r.pattern.isMatch path

end IgnoreRule

namespace IgnoreRules

/-- Rules hold together: one pattern that is nested too deep takes the others with it. -/
def admit? (rules : IgnoreRules) : Option IgnoreRules :=
  if rules.any fun r => r.pattern.isTooDeep then none else some rules

/-- Lines that cannot be read are passed over. -/
def ofLines (lines : List String) : IgnoreRules :=
  let rules := lines.filterMap fun line =>
    match IgnoreRule.ofLine true line with
    | .ok rule => rule
    | .error _ => none
  (admit? rules).getD []

def verdict? (rules : IgnoreRules) (path : String) (isDir : Bool) : Option Verdict :=
  (rules.reverse.find? fun r => r.isMatch path isDir).map (·.verdict)

/-- The lines of a file, and whether a line break ends each. -/
def splitBytes : List UInt8 → List (List UInt8 × Bool)
  | [] => []
  | b :: r =>
    if b = 10 then ([],true) :: splitBytes r
    else
      match splitBytes r with
      | [] => [([b],false)]
      | line :: more => (b :: line.1,line.2) :: more

/-- The text of a line; a carriage return belongs to the break behind it. -/
def lineText? (line : List UInt8 × Bool) : Option String :=
  let bytes := if line.2 && line.1.getLast? == some 13 then line.1.dropLast else line.1
  String.fromUTF8? (ByteArray.mk bytes.toArray)

/-- The first line of a file, if it has one that is text. -/
def firstLine? (content : ByteArray) : Option String :=
  (splitBytes content.toList).head?.bind lineText?

/-- The lines of a file up to the first that is no text; a byte order mark does not count. -/
def lines (content : ByteArray) : List String :=
  let texts := ((splitBytes content.toList).map lineText?).takeWhile Option.isSome
  match texts.filterMap id with
  | [] => []
  | first :: r => Text.dropWhile (fun c => c.toNat = 0xFEFF) first :: r

def ofContent (content : ByteArray) : IgnoreRules := ofLines (lines content)

end IgnoreRules
end ImportResolution
