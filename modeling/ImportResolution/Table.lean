import ImportResolution.Text

/-! Finite maps from strings as lists of entries whose keys rise. Equal maps are equal lists, so the
order in which entries were put in leaves no trace. -/
namespace ImportResolution

/-- Entries with strictly rising keys. -/
structure Table (α : Type) where
  entries : List (String × α)
  ordered : (entries.map Prod.fst).Pairwise (· < ·)
  deriving DecidableEq

namespace Table
variable {α β : Type}

theorem ext {a b : Table α} (h : a.entries = b.entries) : a = b := by
  cases a; cases b; simp_all

def empty : Table α := ⟨[],List.Pairwise.nil⟩

instance : Inhabited (Table α) := ⟨empty⟩
instance : EmptyCollection (Table α) := ⟨empty⟩
instance [BEq α] : BEq (Table α) := ⟨fun a b => a.entries == b.entries⟩

def keys (t : Table α) : List String := t.entries.map Prod.fst
def values (t : Table α) : List α := t.entries.map Prod.snd
def size (t : Table α) : Nat := t.entries.length
def isEmpty (t : Table α) : Bool := t.entries.isEmpty
def find? (t : Table α) (key : String) : Option α := t.entries.lookup key
def contains (t : Table α) (key : String) : Bool := (t.find? key).isSome

/-- Puts an entry in its place; an entry of the same key is replaced. -/
def insertEntry (key : String) (value : α) : List (String × α) → List (String × α)
  | [] => [(key,value)]
  | e :: r =>
    if key < e.1 then (key,value) :: e :: r
    else if key = e.1 then (key,value) :: r
    else e :: insertEntry key value r

theorem mem_keys_insertEntry (key : String) (value : α) (x : String) (xs : List (String × α)) :
    x ∈ (insertEntry key value xs).map Prod.fst ↔ x = key ∨ x ∈ xs.map Prod.fst := by
  induction xs with
  | nil => simp [insertEntry]
  | cons e r ih =>
    simp only [insertEntry]
    split
    · simp
    · split
      · next h => simp [h]
      · simp only [List.map_cons,List.mem_cons,ih]
        constructor
        · rintro (h | h | h) <;> simp [h]
        · rintro (h | h | h) <;> simp [h]

theorem ordered_insertEntry (key : String) (value : α) {xs : List (String × α)}
    (h : (xs.map Prod.fst).Pairwise (· < ·)) :
    ((insertEntry key value xs).map Prod.fst).Pairwise (· < ·) := by
  induction xs with
  | nil => simp [insertEntry]
  | cons e r ih =>
    rw [List.map_cons] at h
    obtain ⟨he,hr⟩ := List.pairwise_cons.mp h
    simp only [insertEntry]
    split
    · next hlt =>
      simp only [List.map_cons]
      refine List.pairwise_cons.mpr ⟨?_,h⟩
      intro x hx
      rcases List.mem_cons.mp hx with rfl | hx
      · exact hlt
      · exact String.lt_trans hlt (he x hx)
    · split
      · next heq =>
        simp only [List.map_cons]
        exact List.pairwise_cons.mpr ⟨heq ▸ he,hr⟩
      · next hlt hne =>
        simp only [List.map_cons]
        refine List.pairwise_cons.mpr ⟨?_,ih hr⟩
        intro x hx
        rcases (mem_keys_insertEntry key value x r).mp hx with rfl | hx
        · exact Classical.byContradiction fun hn =>
            hne (String.le_antisymm (String.not_lt.mp hn) (String.not_lt.mp hlt))
        · exact he x hx

def insert (t : Table α) (key : String) (value : α) : Table α :=
  ⟨insertEntry key value t.entries,ordered_insertEntry key value t.ordered⟩

theorem ordered_filter (keep : String × α → Bool) {xs : List (String × α)}
    (h : (xs.map Prod.fst).Pairwise (· < ·)) :
    ((xs.filter keep).map Prod.fst).Pairwise (· < ·) :=
  h.sublist (List.filter_sublist.map Prod.fst)

def filter (t : Table α) (keep : String → α → Bool) : Table α :=
  ⟨t.entries.filter fun e => keep e.1 e.2,ordered_filter _ t.ordered⟩

def erase (t : Table α) (key : String) : Table α := t.filter fun k _ => k != key

def map (t : Table α) (f : α → β) : Table β :=
  ⟨t.entries.map fun e => (e.1,f e.2),by
    simpa [List.map_map,Function.comp_def] using t.ordered⟩

def mapWithKey (t : Table α) (f : String → α → β) : Table β :=
  ⟨t.entries.map fun e => (e.1,f e.1 e.2),by
    simpa [List.map_map,Function.comp_def] using t.ordered⟩

/-- The later of two entries with one key wins. -/
def ofList (xs : List (String × α)) : Table α := xs.foldl (fun t e => t.insert e.1 e.2) empty

/-- Changes the value under `key`, or puts one there. -/
def alter (t : Table α) (key : String) (f : Option α → α) : Table α := t.insert key (f (t.find? key))

theorem lookup_insertEntry (key : String) (value : α) (k : String) (xs : List (String × α))
    (h : (xs.map Prod.fst).Pairwise (· < ·)) :
    (insertEntry key value xs).lookup k = if k = key then some value else xs.lookup k := by
  induction xs with
  | nil =>
    simp only [insertEntry,List.lookup_cons,List.lookup_nil]
    split <;> simp_all
  | cons e r ih =>
    obtain ⟨ek,ev⟩ := e
    rw [List.map_cons] at h
    have hi := ih (List.pairwise_cons.mp h).2
    have hb (a b : String) : (a == b) = decide (a = b) := rfl
    simp only [insertEntry]
    split
    · by_cases hk : k = key <;> simp [List.lookup_cons,hb,hk]
    · split
      · next heq =>
        by_cases hk : k = key <;> simp_all [List.lookup_cons]
      · next hne =>
        by_cases hk : k = key <;> simp_all [List.lookup_cons]

@[simp] theorem find?_empty (k : String) : (empty : Table α).find? k = none := rfl
@[simp] theorem find?_insert (t : Table α) (key k : String) (value : α) :
    (t.insert key value).find? k = if k = key then some value else t.find? k :=
  lookup_insertEntry key value k t.entries t.ordered

theorem lookup_filter_key (keep : String → Bool) (k : String) (xs : List (String × α)) :
    (xs.filter fun e => keep e.1).lookup k = if keep k then xs.lookup k else none := by
  induction xs with
  | nil => simp
  | cons e r ih =>
    obtain ⟨key,value⟩ := e
    by_cases hk : k = key
    · subst hk
      cases hp : keep k
      · rw [List.filter_cons_of_neg (by simp [hp]),ih]
        simp [hp]
      · rw [List.filter_cons_of_pos (by simp [hp])]
        simp
    · have hb : (k == key) = false := by simpa using hk
      cases hp : keep key
      · rw [List.filter_cons_of_neg (by simp [hp]),ih,List.lookup_cons,hb]
      · rw [List.filter_cons_of_pos (by simp [hp]),List.lookup_cons,List.lookup_cons,hb]
        exact ih

@[simp] theorem find?_erase (t : Table α) (key k : String) :
    (t.erase key).find? k = if k = key then none else t.find? k := by
  have hf := lookup_filter_key (· != key) k t.entries
  by_cases hk : k = key
  · simpa [hk,find?,erase,filter] using hf
  · simpa [hk,find?,erase,filter] using hf

/-- An entry is found under its key, since no other has that key. -/
theorem find?_eq_some_iff {t : Table α} {k : String} {v : α} :
    t.find? k = some v ↔ (k,v) ∈ t.entries := by
  rw [find?,List.lookup_eq_some_iff]
  constructor
  · rintro ⟨front,back,ht,-⟩
    simp [ht]
  · intro hm
    obtain ⟨front,back,ht⟩ := List.append_of_mem hm
    refine ⟨front,back,ht,?_⟩
    intro e he
    have ho := t.ordered
    rw [ht,List.map_append,List.pairwise_append] at ho
    have hl : e.1 < k := ho.2.2 e.1 (List.mem_map_of_mem he) k (by simp)
    simpa using (String.ne_of_lt hl).symm

end Table
end ImportResolution
