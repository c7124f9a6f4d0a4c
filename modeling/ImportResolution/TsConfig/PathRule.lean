import ImportResolution.Text

/-! Path rules of a TypeScript configuration: a pattern with at most one star, and targets in which
the first star takes the text that the star of the pattern stood for. -/
namespace ImportResolution.TsConfig

structure PathRule where
  pattern : String
  targets : List String
  deriving DecidableEq, Repr

namespace PathRule

def starCount (pattern : String) : Nat := pattern.toList.count '*'

def of? (pattern : String) (targets : List String) : Option PathRule :=
  if targets = [] ∨ starCount pattern > 1 then none else some ⟨pattern,targets⟩

/-- Literal text before and behind the star, or none for a pattern that matches itself alone. -/
def wildcard? (r : PathRule) : Option (String × String) := Text.cut? "*" r.pattern

/-- What the star stands for in `spec`; a star spans no line break. -/
def captured? (r : PathRule) (spec : String) : Option String :=
  match r.wildcard? with
  | none => if spec = r.pattern then some "" else none
  | some (head,tail) =>
    ((Text.afterHead? head spec).bind (Text.beforeTail? tail)).filter fun s => !Text.hasChar '\n' s

/-- The targets for a specifier that the pattern matches. -/
def substitute? (r : PathRule) (spec : String) : Option (List String) :=
  (r.captured? spec).map fun c => r.targets.map (Text.replaceFirst '*' c)

def isExact (r : PathRule) : Bool := r.wildcard?.isNone

/-- Bytes of literal text before the star. -/
def headLength (r : PathRule) : Nat :=
  match r.wildcard? with
  | some (head,_) => head.utf8ByteSize
  | none => r.pattern.utf8ByteSize

end PathRule
end ImportResolution.TsConfig
