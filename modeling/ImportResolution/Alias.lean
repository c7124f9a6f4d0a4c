import ImportResolution.Digest.Sha256
import ImportResolution.Path

/-! Configured aliases: a rule sends the specifiers under a head to a directory of the repository.
Rules with a longer head are tried first. -/
namespace ImportResolution

/-- A rule as it is written down. -/
structure AliasSpec where
  head : String
  target : String
  deriving DecidableEq, Repr

inductive AliasForm
  /-- Every specifier that starts with the head. -/
  | headed
  /-- The head itself, and what lies below it. -/
  | whole
  deriving DecidableEq, Repr

structure AliasRule where
  head : String
  target : String
  form : AliasForm
  /-- Head and target without the star of a wildcard. -/
  matchHead : String
  replaceHead : String
  deriving DecidableEq, Repr

namespace AliasRule

def withoutStar (wildcard : Bool) (s : String) : String :=
  if wildcard then String.ofList s.toList.dropLast else s

/-- A rule needs both sides, and a wildcard on both or on neither. -/
def of? (spec : AliasSpec) : Option AliasRule :=
  let head := Path.toPosix (Text.trim spec.head)
  let target := Path.toPosix (Text.trim spec.target)
  let wildcard := Text.endsWith "/*" head
  if head = "" ∨ target = "" ∨ wildcard ≠ Text.endsWith "/*" target then none
  else
    let form := if wildcard || Text.endsWith "/" head then AliasForm.headed else .whole
    some ⟨head,target,form,withoutStar wildcard head,withoutStar wildcard target⟩

/-- The specifier with its head exchanged for the target. -/
def substitute? (r : AliasRule) (spec : String) : Option String :=
  match r.form with
  | .headed => (Text.afterHead? r.matchHead spec).map (r.replaceHead ++ ·)
  | .whole =>
    if spec = r.head then some r.target
    else ((Text.afterHead? r.head spec).bind (Text.afterHead? "/")).map fun rest =>
      Text.dropEndWhile (· = '/') r.target ++ "/" ++ rest

/-- Longer heads first, then heads by their text. -/
def precedes (a b : AliasRule) : Bool :=
  b.matchHead.utf8ByteSize < a.matchHead.utf8ByteSize ||
    (a.matchHead.utf8ByteSize == b.matchHead.utf8ByteSize && a.head ≤ b.head)

def sameText (a b : AliasRule) : Bool := a.head == b.head && a.target == b.target

/-- Drops a rule that repeats the one before it. -/
def dropRepeats : List AliasRule → List AliasRule
  | [] => []
  | a :: r =>
    match dropRepeats r with
    | b :: more => if sameText a b then a :: more else a :: b :: more
    | [] => [a]

end AliasRule

/-- Compiled rules in the order in which they are tried. -/
structure AliasRules where
  rules : List AliasRule
  fingerprint : Option String
  deriving DecidableEq, Repr

namespace AliasRules

def version : String := "alias-rules-v1"

def fingerprintOf (rules : List AliasRule) : Option String :=
  if rules.isEmpty then none
  else
    let texts := rules.map fun r => r.head ++ "->" ++ r.target
    some (Digest.ofParts version (texts.mergeSort fun a b => a ≤ b))

def of (specs : List AliasSpec) : AliasRules :=
  let rules := AliasRule.dropRepeats ((specs.filterMap AliasRule.of?).mergeSort AliasRule.precedes)
  ⟨rules,fingerprintOf rules⟩

def isEmpty (a : AliasRules) : Bool := a.rules.isEmpty

/-- The targets of the matching rules inside the root, in the order of the rules. -/
def candidates (a : AliasRules) (spec : String) : List String :=
  Text.distinct (((a.rules.filterMap (AliasRule.substitute? · spec)).map Path.normalize).filter fun p =>
    p != "" && !Path.isRooted p && !Text.startsWith ".." p)

def resolve? (a : AliasRules) (spec : String) (accept : String → Option String) : Option String :=
  if spec = "" then none else (a.candidates spec).findSome? accept

end AliasRules
end ImportResolution
