import ImportResolution.Json.Written

/-! Reading records out of written values. A known member may stand once; unknown members are passed
over, but their keys are read. -/
namespace ImportResolution.Json.Written

abbrev Members := List (String × Written)

/-- The members of a record by their keys. -/
def members? : Written → Option Members
  | members ms => ms.mapM fun m => m.1.map fun key => (key,m.2)
  | _ => none

def valuesOf (ms : Members) (key : String) : List Written :=
  (ms.filter fun m => m.1 == key).map Prod.snd

/-- The value of a member that may be absent, but not twice there. -/
def single? (ms : Members) (key : String) : Option (Option Written) :=
  match valuesOf ms key with
  | [] => some none
  | [v] => some (some v)
  | _ => none

/-- The fields of a record in their order, by name from an object or by place from a list. -/
def record? (names : List String) : Written → Option (List (Option Written))
  | .list xs =>
    if xs.length ≤ names.length then
      some (xs.map some ++ List.replicate (names.length - xs.length) none)
    else none
  | v => v.members?.bind fun ms => names.mapM (single? ms)

/-- A field that may be absent or null. -/
def optional? {α : Type} (read : Written → Option α) : Option Written → Option (Option α)
  | none => some none
  | some .null => some none
  | some v => (read v).map some

/-- A field that may be absent, but is not null. -/
def orDefault? {α : Type} (read : Written → Option α) (default : α) : Option Written → Option α
  | none => some default
  | some v => read v

def texts? (v : Written) : Option (List String) := v.list?.bind fun xs => xs.mapM str?

/-- A map with values of one kind; of repeated keys the last counts. -/
def table? {α : Type} (read : Written → Option α) (v : Written) : Option (Table α) :=
  (v.members?.bind fun ms => ms.mapM fun m => (read m.2).map fun a => (m.1,a)).map Table.ofList

/-- A name, written as a text or as the one key of an object whose value is null. -/
def nameText? : Written → Option String
  | .text s => s
  | .members [(s,.null)] => s
  | _ => none

end ImportResolution.Json.Written
