import ImportResolution.Cache.Entry

/-! Outcomes kept during a run, up to a cap. The one that came first leaves first; a new value for a
key keeps its place in the line. -/
namespace ImportResolution.Cache

structure Memory where
  entries : Table Entry := Table.empty
  /-- The keys in the order in which they came. -/
  order : List String := []
  capacity : Nat
  deriving DecidableEq

namespace Memory

/-- At least one entry fits. -/
def ofCapacity (n : Nat) : Memory := { capacity := max n 1 }

def size (m : Memory) : Nat := m.entries.size
def isEmpty (m : Memory) : Bool := m.entries.isEmpty

def remove (m : Memory) (key : String) : Memory :=
  if m.entries.contains key then
    { m with entries := m.entries.erase key, order := m.order.filter (· ≠ key) }
  else m

/-- The live entry under a key; an expired one is dropped. -/
def get (m : Memory) (key : String) (now : Int) : Option Entry × Memory :=
  match m.entries.find? key with
  | none => (none,m)
  | some e => if e.isExpired now then (none,m.remove key) else (some e,m)

/-- Lets the first in line leave until there is room. -/
def makeRoom (capacity : Nat) : List String → Table Entry → List String × Table Entry
  | [], t => ([],t)
  | first :: rest, t =>
    if t.size ≥ capacity then makeRoom capacity rest (t.erase first) else (first :: rest,t)

def insert (m : Memory) (key : String) (e : Entry) : Memory :=
  if m.entries.contains key then { m with entries := m.entries.insert key e }
  else
    let room := makeRoom m.capacity m.order m.entries
    { m with entries := room.2.insert key e, order := room.1 ++ [key] }

/-- Writes the reason into an entry that is there. -/
def record (m : Memory) (key : String) (reason : ReasonCode) (exhausted : List BudgetKind) :
    Memory :=
  match m.entries.find? key with
  | some e => { m with entries := m.entries.insert key { e with reason := some reason, exhausted } }
  | none => m

end Memory
end ImportResolution.Cache
