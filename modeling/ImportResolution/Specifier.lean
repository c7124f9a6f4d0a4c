import ImportResolution.Path

/-! Import specifiers: their clean text, their three kinds, and the package that a bare one names. -/
namespace ImportResolution

namespace Specifier

inductive Kind
  | relative
  | rooted
  | bare
  deriving DecidableEq, Repr

def kind (spec : String) : Kind :=
  if Text.startsWith "." spec then .relative
  else if Text.startsWith "/" spec then .rooted
  else .bare

/-- Relative and rooted specifiers name places in the file set. -/
def Kind.isPathBased : Kind → Bool
  | .relative | .rooted => true
  | .bare => false

def isPathBased (spec : String) : Bool := (kind spec).isPathBased

def isQuote (c : Char) : Bool := c = '"' || c = '\'' || c.toNat = 96

/-- Removes a query, and a fragment that does not start the specifier. -/
def dropSuffixes (s : List Char) : List Char :=
  let spec := s.takeWhile (· ≠ '?')
  match spec with
  | [] => []
  | c :: r => c :: r.takeWhile (· ≠ '#')

/-- The specifier without outer blanks, quotes, query and fragment, with forward slashes. -/
def normalize (raw : String) : String :=
  let inner := Text.trim (Text.trimWhere isQuote (Text.trim raw))
  Text.trim (String.ofList (dropSuffixes (Path.toPosix inner).toList))

/-- The package of a bare specifier: one segment, or two when the first names a scope. -/
def packageName? (spec : String) : Option String :=
  let spec := Text.trim spec
  if spec = "" ∨ isPathBased spec then none
  else
    match Path.segments ((Text.afterHead? "npm:" spec).getD spec) with
    | first :: rest =>
      if Text.startsWith "@" first then
        match rest with
        | second :: _ => if second = "" then none else some (first ++ "/" ++ second)
        | [] => none
      else if first = "" then none
      else some first
    | [] => none

end Specifier
end ImportResolution
