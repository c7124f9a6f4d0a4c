import ImportResolution.FileSet
import ImportResolution.Text.WordTable

/-! Names of the form `a.b.c`. An imported item lands on the longest start of its name that is a
file. -/
namespace ImportResolution.Dotted

def isWordChar (c : Char) : Bool :=
  c.isAlphanum || (c.toNat ≥ 128 && Text.inRanges Text.WordTable.alphanumeric c)

/-- A letter or underscore, then word characters and dots. -/
def isIdentifier (s : String) : Bool :=
  match s.toList with
  | c :: r => (c.isAlpha || c = '_') && r.all fun c => isWordChar c || c = '_' || c = '.'
  | [] => false

def parts (s : String) : List String := (Text.splitOn '.' s).filter (· ≠ "")

/-- The non-empty starts of a list, the longest first. -/
def startsOf {α : Type} (xs : List α) : List (List α) :=
  ((List.range xs.length).reverse).map fun i => xs.take (i+1)

/-- All files that the start `stem` of a name may stand for. -/
def stemCandidates (roots extensions : List String) (stem : String) : List String :=
  roots.flatMap fun root =>
    let base := if root = "" then stem else root ++ "/" ++ stem
    extensions.map (base ++ ·)

def candidates (roots extensions : List String) (spec : String) : List String :=
  (startsOf (parts spec)).flatMap fun start =>
    stemCandidates roots extensions (Path.ofSegments start)

def resolve? (i : FileIndex) (spec : String) (extensions roots : List String) : Option String :=
  if spec = "" ∨ Text.endsWith ".*" spec then none
  else
    let spec := Text.replaceChar '\\' '.' spec
    if isIdentifier spec then i.first? (candidates roots extensions spec) else none

/-- The name without a wildcard or colons at its end. -/
def normalize? (spec : String) : Option String :=
  let value := Text.trim spec
  let value := (Text.beforeTail? ".*" value).getD value
  let value := (Text.beforeTail? "._" value).getD value
  let value := Text.dropEndWhile (· = ':') value
  if isIdentifier value then some value else none

end ImportResolution.Dotted
