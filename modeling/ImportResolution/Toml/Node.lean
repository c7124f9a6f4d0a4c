import ImportResolution.Toml.Value

/-! Tables while their text is read. A table that no header and no braces opened, but only a longer
key went through, may still be opened or extended, each in its own way and once. -/
namespace ImportResolution.Toml

inductive Node
  | value (v : Value)
  /-- `implied` by a longer key; `dotted` if that key stood on a line of its own value. -/
  | table (implied dotted : Bool) (members : List (String × Node))
  /-- The tables that were opened under one doubly bracketed header. -/
  | tables (elements : List Node)
  deriving Inhabited

namespace Node

def opened : Node := .table false false []

/-- Works on the table behind a path. Tables that lack on the way are put there; of an array of tables
the last counts. A dotted key does not enter a table that was opened. -/
def reach (dotted : Bool) (work : Node → Option Node) : List String → Node → Option Node
  | [], n => work n
  | k :: path, .table implied isDotted ms =>
    let next := match ms.lookup k with
      | none => reach dotted work path (.table true dotted [])
      | some (.value _) => none
      | some (.table i d below) =>
        if dotted && !i then none else reach dotted work path (.table i d below)
      | some (.tables ts) =>
        match ts.getLast? with
        | some t => (reach dotted work path t).map fun t => .tables (ts.dropLast ++ [t])
        | none => none
    next.map fun n => .table implied isDotted (putMember k n ms)
  | _ :: _, _ => none

/-- Puts a new member into a table. Under a dotted key it must be a table of dotted keys. -/
def add (dotted : Bool) (key : String) (v : Value) : Node → Option Node
  | .table implied isDotted ms =>
    if isDotted != dotted || (ms.lookup key).isSome then none
    else some (.table implied isDotted (putMember key (.value v) ms))
  | _ => none

/-- The line `key = v`, read in the table at hand. -/
def assign (key : List String) (v : Value) (n : Node) : Option Node := do
  let last ← key.getLast?
  let path := key.dropLast
  reach true (add (!path.isEmpty) last v) path n

/-- Opens a table that is new or implied by headers alone. -/
def openTable (key : String) : Node → Option Node
  | .table implied isDotted ms =>
    match ms.lookup key with
    | none => some (.table implied isDotted (putMember key opened ms))
    | some (.table true false below) =>
      some (.table implied isDotted (putMember key (.table false false below) ms))
    | _ => none
  | _ => none

/-- Opens a further table of an array of tables. -/
def openElement (key : String) : Node → Option Node
  | .table implied isDotted ms =>
    match ms.lookup key with
    | none => some (.table implied isDotted (putMember key (.tables [opened]) ms))
    | some (.tables ts) => some (.table implied isDotted (putMember key (.tables (ts ++ [opened])) ms))
    | _ => none
  | _ => none

mutual

def toValue : Node → Value
  | .value v => v
  | .table _ _ ms => .table (membersOf ms)
  | .tables ts => .list (elementsOf ts)

def membersOf : List (String × Node) → List (String × Value)
  | [] => []
  | (k,n) :: r => (k,toValue n) :: membersOf r

def elementsOf : List Node → List Value
  | [] => []
  | n :: r => toValue n :: elementsOf r

end

end Node
end ImportResolution.Toml
