import ImportResolution.Text

/-! Values of a TOML document. Real numbers keep their literal, and a date stands as a table with the
one member `moment`. -/
namespace ImportResolution.Toml

inductive Value
  | text (s : String)
  | int (n : Int)
  | real (literal : String)
  | flag (b : Bool)
  | list (xs : List Value)
  | table (members : List (String × Value))
  deriving Inhabited, Repr

namespace Value

def moment (literal : String) : Value := .table [("moment",.text literal)]

end Value

/-- Puts a member in the place of the one of that key, or behind all others. -/
def putMember {α : Type} (key : String) (v : α) : List (String × α) → List (String × α)
  | [] => [(key,v)]
  | m :: r => if m.1 == key then (key,v) :: r else m :: putMember key v r

theorem lookup_putMember {α : Type} (key k : String) (v : α) (ms : List (String × α)) :
    (putMember key v ms).lookup k = if k = key then some v else ms.lookup k := by
  have hb (a b : String) : (a == b) = decide (a = b) := rfl
  induction ms with
  | nil =>
    simp only [putMember,List.lookup_cons,List.lookup_nil,hb]
    by_cases hk : k = key <;> simp [hk]
  | cons m r ih =>
    obtain ⟨mk,mv⟩ := m
    simp only [putMember,hb]
    by_cases hm : mk = key
    · subst hm
      by_cases hk : k = mk <;> simp [List.lookup_cons,hb,hk]
    · by_cases hk : k = mk
      · subst hk
        simp [hm]
      · simp only [hm,decide_false,Bool.false_eq_true,if_false,List.lookup_cons,hb,hk]
        exact ih

namespace Value

mutual

/-- Lays the first value above the second: tables are laid above each other member by member, and
anything else gives way. -/
def merge : Value → Value → Value
  | .table ms, .table below => .table (mergeMembers ms below)
  | above, _ => above

def mergeMembers : List (String × Value) → List (String × Value) → List (String × Value)
  | [], below => below
  | (k,v) :: r, below =>
    let merged := match below.lookup k with
      | some old => merge v old
      | none => v
    mergeMembers r (putMember k merged below)

end

end Value
end ImportResolution.Toml
