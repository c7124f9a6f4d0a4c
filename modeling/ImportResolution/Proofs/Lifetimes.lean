import Mathlib.Algebra.Group.Int.Defs
import Mathlib.Algebra.Group.Nat.Defs
import ImportResolution.Proofs.Eviction
import ImportResolution.Proofs.FileSetChange
import ImportResolution.Proofs.Reuse

/-! For how long memory serves what a run has found. The clock is a number of 64 bits with a sign,
and a lifetime is one without: it lasts to its last millisecond if the clock can show that one, and
otherwise it is over before it begins. -/
namespace ImportResolution

-- No text is computed here, and no unifier should try to.
attribute [local irreducible] String.toList

/-- The milliseconds for which an outcome is kept; one with a target in the index lives on. -/
def Limits.lifetime? (l : Limits) (e : Cache.Entry) : Option Nat :=
  if e.resolvedType = .unresolved then some l.negativeTtl
  else if e.isEphemeral then some l.ephemeralTtl
  else none

namespace Cache

/-- The reason of an entry does not tell how long it lives. -/
theorem Memory.find?_of_record {m : Memory} {key : String} {e : Entry}
    (h : m.entries.find? key = some e) (k : String) (reason : ReasonCode)
    (exhausted : List BudgetKind) :
    ∃ d, (m.record k reason exhausted).entries.find? key = some d ∧ d.bare = e.bare ∧
      d.expiresAt = e.expiresAt := by
  by_cases hk : k = key
  · subst hk
    refine ⟨{ e with reason := some reason, exhausted },?_,rfl,rfl⟩
    rw [find?_record h,if_pos rfl]
  · refine ⟨e,?_,rfl,rfl⟩
    unfold Memory.record
    split
    · rw [Table.find?_insert,if_neg (Ne.symm hk)]
      exact h
    · exact h

/-- Up to its last millisecond an entry is served, and not after it. -/
theorem Memory.get_fst_of_expiresAt {m : Memory} {key : String} {e : Entry} {last : Int}
    (h : m.entries.find? key = some e) (he : e.expiresAt = some last) (t : Int) :
    (m.get key t).1 = if t ≤ last then some e else none := by
  have hx : e.isExpired t = decide (last < t) := by rw [Entry.isExpired,he,Option.any_some]
  rw [Memory.get,h]
  by_cases ht : t ≤ last
  · simp [hx,ht,Int.not_lt.mpr ht]
  · simp [hx,ht,Int.not_le.mp ht]

end Cache

namespace Run

section Clock
variable {now : Int} {ttl : Nat} (hn : 0 ≤ now) (hc : now < 2 ^ 63) (ht : ttl < 2 ^ 64)
include hn

theorem expiry_of_lt (h : now + ttl < 2 ^ 63) : expiry now ttl = now + ttl := by
  have hm : (now + ttl) % (2 ^ 64 : Nat) = now + ttl := by omega
  rw [expiry,show Nat.pow 2 64 = 2 ^ 64 from rfl,Int.bmod_def,hm,if_pos (by omega)]

include hc ht

/-- Once the sum has left the 64 bits it has gone round to before the clock. -/
theorem expiry_lt_of_le (h : 2 ^ 63 ≤ now + ttl) : expiry now ttl < now := by
  rw [expiry,show Nat.pow 2 64 = 2 ^ 64 from rfl,Int.bmod_def]
  split <;> omega

end Clock

theorem expiresAt_eq (r : Rules) (e : Cache.Entry) :
    expiresAt r e = (r.settings.limits.lifetime? e).map (expiry r.now) := by
  unfold expiresAt Limits.lifetime?
  split
  · rfl
  · split <;> rfl

/-- The entry lives from the moment of the rules on. -/
def IsTimed (r : Rules) (e : Cache.Entry) : Prop :=
  e.expiresAt = (r.settings.limits.lifetime? e).map (expiry r.now)

section Steps
variable {r : Rules} {q : Query}

theorem IsTimed.of_bare {d e : Cache.Entry} (h : IsTimed r e) (hb : d.bare = e.bare)
    (hx : d.expiresAt = e.expiresAt) : IsTimed r d := by
  have ht : d.resolvedType = e.resolvedType := (congrArg Cache.Entry.resolvedType hb :)
  have hi : d.isEphemeral = e.isEphemeral := (congrArg Cache.Entry.isEphemeral hb :)
  rw [IsTimed,hx,h,Limits.lifetime?,Limits.lifetime?,ht,hi]

theorem isTimed_compute (e : Effort) (s : State) : IsTimed r (compute r q e s).1 :=
  expiresAt_eq r _

/-- The place of an outcome in memory. -/
def FileState.slot (f : FileState) (q : Query) : String :=
  Cache.key q.importer.rel q.spec f.configFingerprint

/-- The outcome is neither kept of the importer nor remembered. -/
structure IsNew (r : Rules) (q : Query) (f : FileState) (s : State) : Prop where
  kept : persisted? r q f = none
  remembered : (remembered r (f.slot q) s.memory).1 = none

variable {f : FileState} {s : State}

theorem outcome_of_isNew (h : IsNew r q f s) :
    let found := outcome r q f { purse := Purse.of r.policy } s
    IsTimed r found.1 ∧ found.2.2.2.memory.entries.find? (f.slot q) = some found.1 := by
  have hm : (s.countSpec false).memory = s.memory := rfl
  simp only [outcome,h.kept,fromMemory,hm]
  rw [show Cache.key q.importer.rel q.spec f.configFingerprint = f.slot q from rfl]
  have hr := h.remembered
  generalize remembered r (f.slot q) s.memory = known at hr ⊢
  obtain ⟨entry,memory⟩ := known
  obtain rfl : entry = none := hr
  exact ⟨isTimed_compute _ _,Cache.Memory.find?_insert_self _ _ _⟩

/-- What is found anew is in memory when its specifier is done with, and lives from now on. -/
theorem resolveSpec_of_isNew (h : IsNew r q f s) :
    ∃ e, (resolveSpec r q f s).2.memory.entries.find? (f.slot q) = some e ∧ IsTimed r e := by
  have ho := outcome_of_isNew h
  unfold resolveSpec
  generalize outcome r q f { purse := Purse.of r.policy } s = found at ho ⊢
  obtain ⟨entry,key,e,t⟩ := found
  obtain ⟨ht,hfind⟩ := ho
  obtain ⟨-,-,hc⟩ := settle_counts r q key e t entry f
  rcases hc.memory with hm | ⟨k,code,kinds,hm⟩
  · exact ⟨entry,(congrArg (fun m => m.entries.find? (f.slot q)) hm).trans hfind,ht⟩
  · obtain ⟨d,hd,hb,hx⟩ := Cache.Memory.find?_of_record hfind k code kinds
    exact ⟨d,(congrArg (fun m => m.entries.find? (f.slot q)) hm).trans hd,ht.of_bare hb hx⟩

/-! Memory in the course of a run. -/

/-- All that memory holds lives from the moment of the rules on. -/
def State.IsTimed (r : Rules) (s : State) : Prop := s.memory.Holds fun _ e => Run.IsTimed r e

theorem outcome_isTimed (hs : s.IsTimed r) :
    (outcome r q f { purse := Purse.of r.policy } s).2.2.2.IsTimed r := by
  unfold outcome
  split
  · exact hs
  · have hm : (s.countSpec false).memory = s.memory := rfl
    obtain ⟨-,hr⟩ :=
      remembered_sound (r := r) hs (Cache.key q.importer.rel q.spec f.configFingerprint)
    simp only [fromMemory,hm]
    generalize remembered r _ s.memory = known at hr ⊢
    obtain ⟨entry,memory⟩ := known
    cases entry with
    | some entry => exact hr
    | none =>
      refine Cache.Memory.Holds.insert ?_ (isTimed_compute _ _)
      rw [(compute_searched r q _ _).memory]
      exact hr

theorem resolveSpec_isTimed (hs : s.IsTimed r) : (resolveSpec r q f s).2.IsTimed r := by
  have ho := outcome_isTimed (q := q) (f := f) hs
  unfold resolveSpec
  generalize outcome r q f { purse := Purse.of r.policy } s = found at ho ⊢
  obtain ⟨entry,key,e,t⟩ := found
  obtain ⟨-,-,hc⟩ := settle_counts r q key e t entry f
  rcases hc.memory with hm | ⟨k,code,kinds,hm⟩
  · exact (congrArg (Cache.Memory.Holds · _) hm).mpr ho
  · refine (congrArg (Cache.Memory.Holds · _) hm).mpr (ho.record ?_ k code kinds)
    exact fun _ _ _ _ he => he.of_bare rfl rfl

end Steps

theorem resolveFile_isTimed {r : Rules} (hashes : Table String) {p : Progress}
    (item : String × List String) (hp : p.state.IsTimed r) :
    (resolveFile r hashes p item).state.IsTimed r := by
  have hraws : ∀ (raws : List String) (importer : Importer) (profile : Option TsConfig.Profile)
      (acc : FileState × State), acc.2.IsTimed r →
      (raws.foldl (resolveRaw r importer profile) acc).2.IsTimed r := by
    intro raws importer profile acc ha
    induction raws generalizing acc with
    | nil => exact ha
    | cons raw rest ih =>
      apply ih
      unfold resolveRaw
      dsimp only
      split
      · exact ha
      · exact resolveSpec_isTimed ha
  have henter : (enterFile r hashes p item).2.2.IsTimed r := by
    obtain ⟨configs,hc⟩ := configOf_state r (Importer.of item.1) (specifiersOf item.2)
      { p.state with graph := (p.state.graph.addNode (fileNodeId item.1) .file).2 }
    simp only [enterFile,hc]
    exact hp
  exact hraws _ _ _ _ henter

/-- Memory begins empty, and so it holds nothing of another moment at the end of a run. -/
theorem Request.isTimed_closed (q : Request) : q.closed.state.IsTimed q.ruled := by
  have hrun : ∀ (items : List (String × List String)) (p : Progress), p.state.IsTimed q.ruled →
      (items.foldl (resolveFile q.ruled q.hashes) p).state.IsTimed q.ruled := by
    intro items p hp
    induction items generalizing p with
    | nil => exact hp
    | cons item rest ih => exact ih _ (resolveFile_isTimed q.hashes item hp)
  exact hrun _ _ (Cache.Memory.holds_ofCapacity _)

/-- What is found anew at a moment of the clock is served to its last millisecond, if the clock can
show that one, and else not at all. What has no lifetime is served at all times. -/
theorem served_iff_le {r : Rules} {q : Query} {f : FileState} {s : State} (hn : 0 ≤ r.now) (hc : r.now < 2 ^ 63)
    (h : IsNew r q f s) :
    let m := (resolveSpec r q f s).2.memory
    ∃ e, m.entries.find? (f.slot q) = some e ∧
      (r.settings.limits.lifetime? e = none → ∀ t, (m.get (f.slot q) t).1 = some e) ∧
      ∀ ttl : Nat, r.settings.limits.lifetime? e = some ttl → ttl < 2 ^ 64 →
        (r.now + ttl < 2 ^ 63 → e.expiresAt = some (r.now + ttl) ∧
          ∀ t, (m.get (f.slot q) t).1 = some e ↔ t ≤ r.now + ttl) ∧
        (2 ^ 63 ≤ r.now + ttl → ∃ last < r.now, e.expiresAt = some last ∧
          ∀ t, r.now ≤ t → (m.get (f.slot q) t).1 = none) := by
  intro m
  obtain ⟨e,he,ht⟩ := resolveSpec_of_isNew h
  refine ⟨e,he,?_,?_⟩
  · intro hl t
    rw [IsTimed,hl,Option.map_none] at ht
    exact Cache.Memory.get_fst.mpr ⟨he,by rw [Cache.Entry.isExpired,ht,Option.any_none]⟩
  · intro ttl hl hb
    rw [IsTimed,hl,Option.map_some] at ht
    constructor
    · intro hs
      rw [expiry_of_lt hn hs] at ht
      refine ⟨ht,fun t => ?_⟩
      rw [Cache.Memory.get_fst_of_expiresAt he ht]
      split <;> simp [*]
    · intro hs
      have hx := expiry_lt_of_le hn hc hb hs
      refine ⟨_,hx,ht,fun t hle => ?_⟩
      rw [Cache.Memory.get_fst_of_expiresAt he ht,if_neg (by omega)]

/-- What is looked for in vain before anything else is. -/
def gone : Query := .of (Importer.of "page") none "./gone.txt"

def FileState.blank : FileState := { persisted := none, configFingerprint := none, next := none }

def State.blank : State := { memory := .ofCapacity 1, graph := .of {} }

/-- With the lifetime that the settings have by default, it is missing for a minute. -/
theorem served_iff_le_gone :
    let m := (resolveSpec plainPage.listed gone .blank .blank).2.memory
    IsNew plainPage.listed gone .blank .blank ∧ ∃ e, e.resolvedType = .unresolved ∧
      ∀ t, (m.get (FileState.blank.slot gone) t).1 = some e ↔ t ≤ 60000 := by
  intro m
  have hnew : IsNew plainPage.listed gone .blank .blank := ⟨rfl,rfl⟩
  obtain ⟨e,he,-,hl⟩ := served_iff_le (by decide) (by decide) hnew
  have hu : e.resolvedType = .unresolved := by
    have hm : (m.entries.find? (FileState.blank.slot gone)).map (·.resolvedType) =
        some .unresolved := by decide +kernel
    rw [he] at hm
    exact Option.some.inj hm
  obtain ⟨-,ht⟩ := (hl 60000 (if_pos hu) (by decide)).1 (by decide)
  rw [show plainPage.listed.now + (60000 : Nat) = 60000 from rfl] at ht
  exact ⟨hnew,e,hu,ht⟩

/-- The page under settings by which what is missing is to be so for as long as they can say. -/
def foreverPage : Request :=
  { plainPage with
    settings := { plainPage.settings with limits := { negativeTtl := 2 ^ 64 - 1 } }
    now := 1700000000000 }

/-- It is found missing, and the moment to which it is so is the one before. -/
theorem not_served_foreverPage :
    let m := (resolveSpec foreverPage.listed gone .blank .blank).2.memory
    IsNew foreverPage.listed gone .blank .blank ∧
      (m.entries.find? (FileState.blank.slot gone)).map (fun e => (e.resolvedType,e.expiresAt)) =
        some (.unresolved,some (foreverPage.now - 1)) ∧
      (m.get (FileState.blank.slot gone) foreverPage.now).1 = none :=
  ⟨⟨rfl,rfl⟩,by decide +kernel,by decide +kernel⟩

end Run
end ImportResolution
