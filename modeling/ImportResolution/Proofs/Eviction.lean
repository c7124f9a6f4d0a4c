import Mathlib.Data.List.Induction
import Mathlib.Data.List.Nodup
import Mathlib.Data.Nat.Find
import ImportResolution.Proofs.Upkeep

/-! Memory as a line of bounded length. One law says who leaves and who comes at a call, and what
is found then; from it follows, after any calls whatever, who stands where and until when. -/
namespace ImportResolution.Cache.Memory

-- No text is computed here, and no unifier should try to.
attribute [local irreducible] String.toList

/-- What is asked of memory during a run. -/
inductive Call
  | insert (key : String) (e : Entry)
  | get (key : String) (now : Int)
  | remove (key : String)
  | record (key : String) (reason : ReasonCode) (exhausted : List BudgetKind)

def perform (m : Memory) : Call → Memory
  | .insert key e => m.insert key e
  | .get key now => (m.get key now).2
  | .remove key => m.remove key
  | .record key reason exhausted => m.record key reason exhausted

/-- Memory for `n` outcomes after some calls. -/
def after (n : Nat) (calls : List Call) : Memory := calls.foldl perform (ofCapacity n)

theorem after_append (n : Nat) (calls : List Call) (c : Call) :
    after n (calls ++ [c]) = (after n calls).perform c := by
  rw [after,List.foldl_append]
  rfl

/-! What the calls say of one key. -/

def Call.recorded (key : String) : Call → Option (ReasonCode × List BudgetKind)
  | record k reason exhausted => if k = key then some (reason,exhausted) else none
  | _ => none

/-- An entry with what was recorded last under its key. -/
def noted (key : String) (v : Entry) (later : List Call) : Entry :=
  match (later.filterMap (Call.recorded key)).getLast? with
  | some (reason,exhausted) => { v with reason := some reason, exhausted }
  | none => v

section Noted
variable {key : String} {v : Entry}

theorem noted_append (later : List Call) (c : Call) :
    noted key v (later ++ [c]) = noted key (noted key v later) [c] := by
  cases hc : c.recorded key with
  | none => simp [noted,hc]
  | some r =>
    simp only [noted,List.filterMap_append,List.filterMap_cons,hc,List.filterMap_nil,
      List.getLast?_concat,List.getLast?_singleton]
    split <;> rfl

theorem isExpired_noted (later : List Call) (now : Int) :
    (noted key v later).isExpired now = v.isExpired now := by
  unfold noted
  split <;> rfl

theorem noted_of_recorded_eq_none {c : Call} (h : c.recorded key = none) : noted key v [c] = v := by
  simp [noted,h]

end Noted

/-! One call. -/

/-- All keys of a table, each once. -/
structure Lists (order : List String) (t : Table Entry) : Prop where
  nodup : order.Nodup
  mem_iff : ∀ key, key ∈ order ↔ t.contains key = true

namespace Lists
variable {order rest : List String} {t : Table Entry} {first : String}

theorem perm (h : Lists order t) : order.Perm t.keys := by
  refine (List.perm_ext_iff_of_nodup h.nodup (t.ordered.imp String.ne_of_lt)).mpr fun key => ?_
  rw [h.mem_iff,Table.contains,Option.isSome_iff_exists]
  refine Iff.trans ?_ List.mem_map.symm
  constructor
  · rintro ⟨e,he⟩
    exact ⟨(key,e),Table.find?_eq_some_iff.mp he,rfl⟩
  · rintro ⟨e,he,rfl⟩
    exact ⟨e.2,Table.find?_eq_some_iff.mpr he⟩

theorem size_eq (h : Lists order t) : t.size = order.length := by
  rw [h.perm.length_eq,Table.keys,List.length_map,Table.size]

theorem erase_head (h : Lists (first :: rest) t) : Lists rest (t.erase first) := by
  obtain ⟨hf,hr⟩ := List.nodup_cons.mp h.nodup
  refine ⟨hr,fun key => ?_⟩
  rw [Table.contains,Table.find?_erase]
  by_cases hk : key = first
  · simp [hk,hf]
  · have hm := h.mem_iff key
    rw [List.mem_cons,or_iff_right hk] at hm
    simpa [hk,Table.contains] using hm

/-- Room is made from the front, for one and no more. -/
theorem makeRoom {capacity : Nat} (h : Lists order t) :
    (makeRoom capacity order t).1 = order.drop (order.length + 1 - capacity) ∧
    ∀ key, (Memory.makeRoom capacity order t).2.find? key =
      if key ∈ order.take (order.length + 1 - capacity) then none else t.find? key := by
  induction order generalizing t with
  | nil => simp [Memory.makeRoom]
  | cons first rest ih =>
    have hs : t.size = rest.length + 1 := h.size_eq
    by_cases hfull : t.size ≥ capacity
    · obtain ⟨hd,hf⟩ := ih h.erase_head
      have hn : (first :: rest).length + 1 - capacity = rest.length + 1 - capacity + 1 := by
        rw [List.length_cons]; omega
      rw [Memory.makeRoom,if_pos hfull,hn]
      refine ⟨hd,fun key => ?_⟩
      rw [hf,Table.find?_erase]
      by_cases hk : key = first <;> simp [hk]
    · have hn : (first :: rest).length + 1 - capacity = 0 := by
        rw [List.length_cons]; omega
      rw [Memory.makeRoom,if_neg hfull,hn]
      exact ⟨rfl,fun key => by simp⟩

end Lists

/-- The line of a memory: whose outcomes are there, and no more of them than may be. -/
structure IsLine (m : Memory) : Prop extends Lists m.order m.entries where
  length_le : m.order.length ≤ m.capacity
  pos : 0 < m.capacity

theorem find?_remove (m : Memory) (k key : String) :
    (m.remove k).entries.find? key = if key = k then none else m.entries.find? key := by
  rw [remove]
  split
  · exact Table.find?_erase _ _ _
  · next hc =>
    have hn : m.entries.find? k = none := by simpa [Table.contains] using hc
    split
    · next hk => rw [hk,hn]
    · rfl

theorem get_fst {m : Memory} {key : String} {now : Int} {e : Entry} :
    (m.get key now).1 = some e ↔ m.entries.find? key = some e ∧ e.isExpired now = false := by
  rw [get]
  split
  · next hf => simp [hf]
  · next d hf =>
    by_cases hd : d.isExpired now = true
    · rw [if_pos hd,hf,Option.some_inj]
      exact ⟨nofun,fun ⟨he,hn⟩ => absurd (he ▸ hd) (by simp [hn])⟩
    · rw [if_neg hd,hf]
      exact ⟨fun he => ⟨he,by simpa [Option.some_inj.mp he] using hd⟩,And.left⟩

theorem get_snd (m : Memory) (key : String) (now : Int) : (m.get key now).2 =
    if (m.entries.find? key).any (·.isExpired now) then m.remove key else m := by
  rw [get]
  split
  · next hf => simp [hf]
  · next e hf => rw [hf]; exact apply_ite Prod.snd _ _ _

theorem capacity_remove (m : Memory) (key : String) : (m.remove key).capacity = m.capacity := by
  rw [remove]
  split <;> rfl

theorem capacity_perform (m : Memory) (c : Call) : (m.perform c).capacity = m.capacity := by
  cases c with
  | insert key e => rw [perform,insert]; split <;> rfl
  | get key now => rw [perform,get_snd,apply_ite Memory.capacity,capacity_remove,ite_self]
  | remove key => exact capacity_remove m key
  | record key reason exhausted => rw [perform,record]; split <;> rfl

/-- Who leaves at a call. -/
def leaving (m : Memory) : Call → List String
  | .insert key _ => if key ∈ m.order then [] else m.order.take (m.order.length + 1 - m.capacity)
  | .get key now => if (m.entries.find? key).any (·.isExpired now) then [key] else []
  | .remove key => [key]
  | .record _ _ _ => []

/-- Who joins the end of the line at a call. -/
def joining (m : Memory) : Call → List String
  | .insert key _ => if key ∈ m.order then [] else [key]
  | _ => []

/-- Only who is not there joins, and not together with another. -/
theorem joining_cases (m : Memory) (c : Call) : m.joining c = [] ∨
    ∃ key e, c = .insert key e ∧ key ∉ m.order ∧ m.joining c = [key] := by
  cases c with
  | insert key e =>
    by_cases hk : key ∈ m.order
    · exact .inl (if_pos hk)
    · exact .inr ⟨key,e,rfl,hk,if_neg hk⟩
  | _ => exact .inl rfl

theorem not_mem_joining {m : Memory} {c : Call} {key : String} (hc : ∀ e, c ≠ .insert key e) :
    key ∉ m.joining c := by
  cases c with
  | insert k e =>
    have hne : key ≠ k := fun he => hc e (he ▸ rfl)
    rw [joining]
    split <;> simp [hne]
  | _ => exact List.not_mem_nil

theorem drop_eq_filter {order : List String} (h : order.Nodup) (d : Nat) :
    order.drop d = order.filter fun key => !(order.take d).contains key := by
  have hd := List.disjoint_take_drop h (Nat.le_refl d)
  have hs : (order.take d ++ order.drop d).filter (fun key => !(order.take d).contains key) =
      order.drop d := by
    rw [List.filter_append,List.filter_eq_nil_iff.mpr (by simp),List.nil_append]
    exact List.filter_eq_self.mpr fun key hk => by simpa using fun ht => hd ht hk
  rw [List.take_append_drop] at hs
  exact hs.symm

namespace IsLine
variable {m : Memory} {key : String}

theorem order_remove (h : m.IsLine) (key : String) :
    (m.remove key).order = m.order.filter fun k => !([key].contains k) := by
  rw [remove]
  split
  · simp
  · next hc =>
    refine (List.filter_eq_self.mpr fun k hk => ?_).symm
    have hn : k ≠ key := fun he => hc ((h.mem_iff key).mp (he ▸ hk))
    simpa using hn

/-- The law of the line. -/
theorem order_perform (h : m.IsLine) (c : Call) :
    (m.perform c).order =
      m.order.filter (fun key => !(m.leaving c).contains key) ++ m.joining c := by
  cases c with
  | insert key e =>
    by_cases hk : key ∈ m.order
    · have hc := (h.mem_iff key).mp hk
      simp [perform,Memory.insert,leaving,joining,hk,hc]
    · have hc : ¬m.entries.contains key = true := fun hc => hk ((h.mem_iff key).mpr hc)
      simp only [perform,Memory.insert,leaving,joining,if_neg hk,if_neg hc]
      rw [h.makeRoom.1,drop_eq_filter h.nodup]
  | get key now =>
    simp only [perform,get_snd,leaving,joining,List.append_nil]
    by_cases he : (m.entries.find? key).any (·.isExpired now) = true
    · rw [if_pos he,if_pos he]
      exact h.order_remove key
    · rw [if_neg he,if_neg he]
      simp
  | remove key => simpa [perform,leaving,joining] using h.order_remove key
  | record key reason exhausted =>
    simp only [perform,Memory.record,leaving,joining]
    split <;> simp

/-- The law of what is found. -/
theorem find?_perform (h : m.IsLine) {c : Call} (hc : ∀ e, c ≠ .insert key e) :
    (m.perform c).entries.find? key =
      if key ∈ m.leaving c then none else (m.entries.find? key).map (noted key · [c]) := by
  have hkeep (hr : c.recorded key = none) :
      (m.entries.find? key).map (noted key · [c]) = m.entries.find? key := by
    simp [noted_of_recorded_eq_none hr]
  cases c with
  | insert k e =>
    have hne : key ≠ k := fun he => hc e (he ▸ rfl)
    rw [hkeep rfl]
    by_cases hk : k ∈ m.order
    · have hs := (h.mem_iff k).mp hk
      simp [perform,Memory.insert,leaving,hk,hs,hne]
    · have hs : ¬m.entries.contains k = true := fun hs => hk ((h.mem_iff k).mpr hs)
      simp only [perform,Memory.insert,leaving,if_neg hk,if_neg hs,Table.find?_insert,if_neg hne]
      exact h.makeRoom.2 key
  | get k now =>
    rw [hkeep rfl,perform,get_snd]
    by_cases he : (m.entries.find? k).any (·.isExpired now) = true
    · simp [leaving,he,find?_remove]
    · simp [leaving,he]
  | remove k =>
    rw [hkeep rfl]
    simp [perform,leaving,find?_remove]
  | record k reason exhausted =>
    simp only [leaving,List.not_mem_nil,if_false]
    by_cases hk : k = key
    · subst hk
      cases hf : m.entries.find? k with
      | none => simp [perform,record,hf]
      | some e => simp [perform,find?_record hf,noted,Call.recorded]
    · rw [hkeep (if_neg hk)]
      cases hf : m.entries.find? k with
      | none => simp [perform,record,hf]
      | some e => simp [perform,find?_record hf,Ne.symm hk]

theorem contains_perform (h : m.IsLine) (c : Call) :
    key ∈ (m.perform c).order ↔ (m.perform c).entries.contains key = true := by
  rw [h.order_perform,List.mem_append,List.mem_filter,Table.contains]
  by_cases hc : ∃ e, c = .insert key e
  · obtain ⟨e,rfl⟩ := hc
    rw [perform,find?_insert_self]
    by_cases hk : key ∈ m.order <;> simp [leaving,joining,hk]
  · have hc : ∀ e, c ≠ .insert key e := fun e he => hc ⟨e,he⟩
    rw [h.find?_perform hc,or_iff_left (not_mem_joining hc),h.mem_iff,Table.contains]
    by_cases hl : key ∈ m.leaving c <;> simp [hl]

theorem nodup_perform (h : m.IsLine) (c : Call) : (m.perform c).order.Nodup := by
  rw [h.order_perform]
  rcases joining_cases m c with hj | ⟨key,e,-,hk,hj⟩
  · rw [hj,List.append_nil]
    exact h.nodup.filter _
  · rw [hj]
    refine (h.nodup.filter _).append (List.nodup_singleton key) ?_
    rw [List.disjoint_singleton]
    exact fun hm => hk (List.mem_of_mem_filter hm)

theorem length_perform_le (h : m.IsLine) (c : Call) : (m.perform c).order.length ≤ m.capacity := by
  rw [h.order_perform,List.length_append]
  rcases joining_cases m c with hj | ⟨key,e,rfl,hk,hj⟩
  · rw [hj]
    exact Nat.le_trans (List.length_filter_le _ _) h.length_le
  · -- Whoever joins finds a place made for one.
    have hpos := h.pos
    rw [hj,leaving,if_neg hk,← drop_eq_filter h.nodup,List.length_drop,List.length_singleton]
    omega

theorem perform (h : m.IsLine) (c : Call) : (m.perform c).IsLine where
  nodup := h.nodup_perform c
  mem_iff _ := h.contains_perform c
  length_le := (capacity_perform m c).symm ▸ h.length_perform_le c
  pos := (capacity_perform m c).symm ▸ h.pos

end IsLine

/-! All calls. -/

section Calls
variable {n : Nat} {calls : List Call} {key : String}

theorem isLine_ofCapacity (n : Nat) : (ofCapacity n).IsLine where
  nodup := List.nodup_nil
  mem_iff _ := by simp [ofCapacity,Table.contains]
  length_le := Nat.zero_le _
  pos := Nat.le_max_right n 1

theorem isLine_after (n : Nat) (calls : List Call) : (after n calls).IsLine := by
  induction calls using List.reverseRecOn with
  | nil => exact isLine_ofCapacity n
  | append_singleton calls c ih =>
    rw [after_append]
    exact ih.perform c

theorem capacity_after (n : Nat) (calls : List Call) : (after n calls).capacity = max n 1 := by
  induction calls using List.reverseRecOn with
  | nil => rfl
  | append_singleton calls c ih => rw [after_append,capacity_perform,ih]

/-- How many calls had been made when a key was last not there. -/
def arrival (n : Nat) (calls : List Call) (key : String) : Nat :=
  Nat.findGreatest (fun i => (after n (calls.take i)).entries.contains key = false) calls.length

theorem findGreatest_congr {P Q : Nat → Prop} [DecidablePred P] [DecidablePred Q] {b : Nat}
    (h : ∀ i ≤ b, P i ↔ Q i) : Nat.findGreatest P b = Nat.findGreatest Q b := by
  induction b with
  | zero => rfl
  | succ b ih =>
    rw [Nat.findGreatest_succ,Nat.findGreatest_succ,ih fun i hi => h i (Nat.le_succ_of_le hi)]
    simp only [h (b+1) (Nat.le_refl _)]

theorem arrival_of_not_mem (h : key ∉ (after n calls).order) :
    arrival n calls key = calls.length := by
  refine Nat.findGreatest_eq ?_
  rw [List.take_length]
  simpa [(isLine_after n calls).mem_iff] using h

/-- Who stays keeps the time of its coming. -/
theorem arrival_append {c : Call} (h : key ∈ (after n (calls ++ [c])).order) :
    arrival n (calls ++ [c]) key = arrival n calls key := by
  rw [(isLine_after n _).mem_iff] at h
  have hn : ¬(after n ((calls ++ [c]).take (calls.length + 1))).entries.contains key = false := by
    rw [List.take_of_length_le (by simp),h]
    decide
  rw [arrival,List.length_append,List.length_singleton,Nat.findGreatest_of_not hn]
  refine findGreatest_congr fun i hi => ?_
  rw [List.take_append_of_le_length hi]

theorem contains_take_arrival (n : Nat) (calls : List Call) (key : String) :
    (after n (calls.take (arrival n calls key))).entries.contains key = false :=
  Nat.findGreatest_spec
    (P := fun i => (after n (calls.take i)).entries.contains key = false) (Nat.zero_le _) rfl

theorem arrival_lt (h : key ∈ (after n calls).order) : arrival n calls key < calls.length := by
  refine Nat.lt_of_le_of_ne (Nat.findGreatest_le _) fun he => ?_
  have hc := contains_take_arrival n calls key
  rw [he,List.take_length,← Bool.not_eq_true,← (isLine_after n calls).mem_iff] at hc
  exact hc h

/-- The call at that time was the one that put the key there. -/
theorem getElem?_arrival (h : key ∈ (after n calls).order) :
    ∃ e, calls[arrival n calls key]? = some (.insert key e) := by
  have hl := arrival_lt h
  have hc : key ∈ (after n (calls.take (arrival n calls key + 1))).order := by
    rw [(isLine_after n _).mem_iff,← Bool.not_eq_false]
    exact Nat.findGreatest_is_greatest (Nat.lt_succ_self _) hl
  have ha : key ∉ (after n (calls.take (arrival n calls key))).order := by
    rw [(isLine_after n _).mem_iff,contains_take_arrival]
    decide
  rw [List.take_add_one,List.getElem?_eq_getElem hl,Option.toList_some,after_append,
    (isLine_after n _).order_perform,List.mem_append,List.mem_filter] at hc
  rw [List.getElem?_eq_getElem hl]
  by_contra hn
  have hne (e : Entry) : calls[arrival n calls key] ≠ .insert key e := fun he => hn ⟨e,he ▸ rfl⟩
  exact hc.elim (fun hc => ha hc.1) (not_mem_joining hne)

/-- Nobody passes another in the line. -/
theorem pairwise_arrival (n : Nat) (calls : List Call) :
    (after n calls).order.Pairwise fun a b => arrival n calls a < arrival n calls b := by
  induction calls using List.reverseRecOn with
  | nil => exact List.Pairwise.nil
  | append_singleton calls c ih =>
    have ho := (isLine_after n calls).order_perform c
    rw [← after_append] at ho
    have hkeep {key : String} (hk : key ∈ (after n calls).order.filter
        fun key => !((after n calls).leaving c).contains key) :
        arrival n (calls ++ [c]) key = arrival n calls key :=
      arrival_append (ho ▸ List.mem_append_left _ hk)
    rw [ho,List.pairwise_append]
    refine ⟨(ih.filter _).imp_of_mem fun ha hb hab => ?_,?_,fun a ha b hb => ?_⟩
    · rwa [hkeep ha,hkeep hb]
    · rcases joining_cases (after n calls) c with hj | ⟨key,-,-,-,hj⟩ <;> simp [hj]
    · have hnew : b ∉ (after n calls).order := by
        rcases joining_cases (after n calls) c with hj | ⟨key,-,-,hk,hj⟩
        · simp [hj] at hb
        · rw [hj,List.mem_singleton] at hb
          exact hb ▸ hk
      rw [hkeep ha,arrival_append (ho ▸ List.mem_append_right _ hb),arrival_of_not_mem hnew]
      exact arrival_lt (List.mem_of_mem_filter ha)

/-- Those there who came after a key. -/
def latecomers (n : Nat) (calls : List Call) (key : String) : List String :=
  (after n calls).entries.keys.filter fun other => arrival n calls key < arrival n calls other

/-- What takes a key with its entry away: its removal, a look at it past its time, or one more that
comes when it and those after it are as many as may be. -/
inductive Ousts (n : Nat) (past : List Call) (key : String) (e : Entry) : Call → Prop
  | removed : Ousts n past key e (.remove key)
  | expired {now : Int} (h : e.isExpired now = true) : Ousts n past key e (.get key now)
  | evicted {other : String} {d : Entry} (h : (after n past).entries.contains other = false)
      (hfull : max 1 n ≤ (latecomers n past key).length + 1) : Ousts n past key e (.insert other d)

/-- Those after a key in the line. -/
theorem length_latecomers {front back : List String}
    (h : (after n calls).order = front ++ key :: back) :
    (latecomers n calls key).length = back.length := by
  have hp := (isLine_after n calls).perm.symm.filter
    fun other => decide (arrival n calls key < arrival n calls other)
  have hr := pairwise_arrival n calls
  rw [h,List.pairwise_append,List.pairwise_cons] at hr
  obtain ⟨-,⟨hb,-⟩,hf⟩ := hr
  rw [latecomers,hp.length_eq,h,List.filter_append,List.filter_cons_of_neg (by simp),
    List.filter_eq_nil_iff.mpr,List.nil_append,List.filter_eq_self.mpr]
  · exact fun other ho => by simpa using hb other ho
  · exact fun other ho => by simpa using Nat.le_of_lt (hf other ho key (.head _))

theorem mem_take_of_split {order front back : List String} (hn : order.Nodup)
    (h : order = front ++ key :: back) (d : Nat) : key ∈ order.take d ↔ front.length < d := by
  have hf : key ∉ front := fun hm =>
    (List.nodup_append.mp (h ▸ hn)).2.2 key hm key (.head _) rfl
  rw [h,List.take_append,List.mem_append,or_iff_right fun hm => hf (List.mem_of_mem_take hm)]
  cases hd : d - front.length with
  | zero => simp; omega
  | succ d => simp; omega

/-- The law of the line, as those in it see it. -/
theorem ousts_iff {e : Entry} (he : (after n calls).entries.find? key = some e) (c : Call) :
    Ousts n calls key e c ↔ key ∈ (after n calls).leaving c := by
  have hl := isLine_after n calls
  have hm : key ∈ (after n calls).order := (hl.mem_iff key).mpr (by simp [Table.contains,he])
  cases c with
  | insert other d =>
    obtain ⟨front,back,ho⟩ := List.append_of_mem hm
    have hlen : (after n calls).order.length = front.length + back.length + 1 := by
      rw [ho,List.length_append,List.length_cons]; omega
    by_cases hk : other ∈ (after n calls).order
    · simp only [leaving,if_pos hk,List.not_mem_nil,iff_false]
      intro hx
      cases hx with
      | evicted hc => exact absurd ((hl.mem_iff other).mp hk) (by simp [hc])
    · rw [leaving,if_neg hk,mem_take_of_split hl.nodup ho,hlen,capacity_after]
      have hc : (after n calls).entries.contains other = false := by
        simpa [hl.mem_iff other] using hk
      have hb := length_latecomers ho
      constructor
      · intro hx
        cases hx with
        | evicted _ hfull => omega
      · intro hfull
        exact .evicted hc (by omega)
  | get k now =>
    constructor
    · intro hx
      cases hx with
      | expired hx => simp [leaving,he,hx]
    · intro h
      simp only [leaving] at h
      split at h
      · next hx =>
        obtain rfl := List.mem_singleton.mp h
        exact .expired (by simpa [he] using hx)
      · cases h
  | remove k =>
    constructor
    · intro hx
      cases hx with
      | removed => exact .head _
    · intro h
      obtain rfl := List.mem_singleton.mp h
      exact .removed
  | record k reason exhausted =>
    constructor
    · intro hx
      cases hx
    · exact fun h => absurd h List.not_mem_nil

theorem ousts_noted {v : Entry} {later : List Call} {c : Call} :
    Ousts n calls key (noted key v later) c ↔ Ousts n calls key v c := by
  constructor <;> intro h <;> cases h with
  | removed => exact .removed
  | expired hx => exact .expired (by simpa [isExpired_noted] using hx)
  | evicted hc hfull => exact .evicted hc hfull

/-- The last of a list is the one it is split at, or is the last of those behind. -/
theorem cases_of_append_singleton {α : Type} {xs front back : List α} {x y : α}
    (h : xs ++ [x] = front ++ y :: back) :
    xs = front ∧ x = y ∧ back = [] ∨ ∃ rest, back = rest ++ [x] ∧ xs = front ++ y :: rest := by
  rcases List.eq_nil_or_concat back with rfl | ⟨rest,z,rfl⟩
  · obtain ⟨hf,hx⟩ := List.append_inj' h rfl
    exact .inl ⟨hf,List.head_eq_of_cons_eq hx,rfl⟩
  · have h : xs ++ [x] = (front ++ y :: rest) ++ [z] := by simpa using h
    obtain ⟨hf,hx⟩ := List.append_inj' h rfl
    obtain rfl := List.head_eq_of_cons_eq hx
    exact .inr ⟨rest,List.concat_eq_append,hf⟩

/-- No call of those made later takes a key away. -/
def Spared (n : Nat) (past : List Call) (key : String) (e : Entry) (later : List Call) : Prop :=
  ∀ front c back, later = front ++ c :: back → ¬Ousts n (past ++ front) key e c

theorem spared_append {past later : List Call} {e : Entry} {c : Call} :
    Spared n past key e (later ++ [c]) ↔
      Spared n past key e later ∧ ¬Ousts n (past ++ later) key e c := by
  constructor
  · exact fun h => ⟨fun front d back hl => h front d (back ++ [c]) (by simp [hl]),h later c [] rfl⟩
  · rintro ⟨hs,hc⟩ front d back hl
    rcases cases_of_append_singleton hl with ⟨rfl,rfl,-⟩ | ⟨rest,-,hl⟩
    · exact hc
    · exact hs front d rest hl

/-- The last entry put under a key, with what was recorded last since, was spared up to now. -/
def Kept (n : Nat) (calls : List Call) (key : String) (e : Entry) : Prop :=
  ∃ past v later, calls = past ++ .insert key v :: later ∧ (∀ d, .insert key d ∉ later) ∧
    Spared n (past ++ [.insert key v]) key v later ∧ e = noted key v later

theorem kept_insert {d e : Entry} : Kept n (calls ++ [.insert key d]) key e ↔ e = d := by
  constructor
  · rintro ⟨past,v,later,hs,hl,-,rfl⟩
    rcases cases_of_append_singleton hs with ⟨-,hv,rfl⟩ | ⟨rest,rfl,-⟩
    · cases hv
      rfl
    · exact absurd (by simp) (hl d)
  · rintro rfl
    exact ⟨calls,e,[],rfl,fun _ => List.not_mem_nil,fun front _ _ h => by simp at h,rfl⟩

theorem kept_append {c : Call} {e : Entry} (hc : ∀ d, c ≠ .insert key d) :
    Kept n (calls ++ [c]) key e ↔
      ∃ d, Kept n calls key d ∧ ¬Ousts n calls key d c ∧ e = noted key d [c] := by
  constructor
  · rintro ⟨past,v,later,hs,hl,hp,rfl⟩
    rcases cases_of_append_singleton hs with ⟨-,hv,-⟩ | ⟨rest,rfl,rfl⟩
    · exact absurd hv (hc v)
    · obtain ⟨hp,ho⟩ := spared_append.mp hp
      refine ⟨_,⟨past,v,rest,rfl,fun d hd => hl d (by simp [hd]),hp,rfl⟩,?_,?_⟩
      · rw [ousts_noted]
        simpa using ho
      · rw [noted_append]
  · rintro ⟨-,⟨past,v,later,rfl,hl,hp,rfl⟩,ho,rfl⟩
    refine ⟨past,v,later ++ [c],by simp,fun d hd => ?_,spared_append.mpr ⟨hp,?_⟩,?_⟩
    · rcases List.mem_append.mp hd with hd | hd
      · exact hl d hd
      · exact hc d (List.mem_singleton.mp hd).symm
    · rw [ousts_noted] at ho
      simpa using ho
    · rw [noted_append]

theorem find?_after (n : Nat) (calls : List Call) (key : String) (e : Entry) :
    (after n calls).entries.find? key = some e ↔ Kept n calls key e := by
  induction calls using List.reverseRecOn generalizing e with
  | nil => exact ⟨nofun,fun ⟨past,v,later,h,_⟩ => by simp at h⟩
  | append_singleton calls c ih =>
    rw [after_append]
    by_cases hc : ∃ d, c = .insert key d
    · obtain ⟨d,rfl⟩ := hc
      rw [kept_insert,perform,find?_insert_self,Option.some_inj,eq_comm]
    · have hc : ∀ d, c ≠ .insert key d := fun d hd => hc ⟨d,hd⟩
      rw [kept_append hc,(isLine_after n calls).find?_perform hc]
      constructor
      · intro h
        split at h
        · cases h
        · next hl =>
          obtain ⟨d,hd,rfl⟩ := Option.map_eq_some_iff.mp h
          exact ⟨d,(ih d).mp hd,fun ho => hl ((ousts_iff hd c).mp ho),rfl⟩
      · rintro ⟨d,hd,ho,rfl⟩
        have hf := (ih d).mpr hd
        rw [if_neg fun hl => ho ((ousts_iff hf c).mpr hl),hf]
        rfl

/-- A map for `n` keys, of which the first to come is the first to go. -/
structure IsFifo (n : Nat) (calls : List Call) (m : Memory) : Prop where
  nodup : m.order.Nodup
  mem_iff : ∀ key, key ∈ m.order ↔ m.entries.contains key = true
  pairwise : m.order.Pairwise fun a b => arrival n calls a < arrival n calls b
  arrives : ∀ key ∈ m.order, ∃ e, calls[arrival n calls key]? = some (.insert key e)
  size_le : m.size ≤ max 1 n
  get_iff : ∀ key now e,
    (m.get key now).1 = some e ↔ Kept n calls key e ∧ e.isExpired now = false

theorem isFifo_after (n : Nat) (calls : List Call) : IsFifo n calls (after n calls) :=
  have h := isLine_after n calls
  { nodup := h.nodup
    mem_iff := h.mem_iff
    pairwise := pairwise_arrival n calls
    arrives _ hk := getElem?_arrival hk
    size_le := by
      rw [size,h.size_eq,Nat.max_comm,← capacity_after n calls]
      exact h.length_le
    get_iff key now e := by rw [get_fst,find?_after] }

-- A new value keeps the place of the old one, and is the first to go.
example : (after 2 [.insert "a" {resolvedType := .relative},.insert "b" {resolvedType := .relative},
    .insert "a" {resolvedType := .external},.insert "c" {resolvedType := .relative}]).order =
      ["b","c"] := by
  decide +kernel

end Calls
end ImportResolution.Cache.Memory
