import ImportResolution.Proofs.Governing
import ImportResolution.Proofs.Keys
import ImportResolution.Proofs.Meaning
import ImportResolution.Proofs.Trace

/-! What a run remembers is what it would find. Packages, configurations, memory and the cache of an
earlier run may each answer for a specifier; as long as all are sound, every specifier is settled as
it means, and all stay sound. -/
namespace ImportResolution

namespace Cache.Memory

/-- What is said of every entry in memory. -/
def Holds (m : Memory) (P : String → Entry → Prop) : Prop :=
  ∀ key e, m.entries.find? key = some e → P key e

variable {m : Memory} {P : String → Entry → Prop}

theorem holds_ofCapacity (n : Nat) : (ofCapacity n).Holds P := by
  intro key e h
  simp [ofCapacity] at h

theorem Holds.remove (h : m.Holds P) (key : String) : (m.remove key).Holds P := by
  unfold Memory.remove
  split
  · intro k e hk
    rw [Table.find?_erase] at hk
    split at hk
    · cases hk
    · exact h k e hk
  · exact h

theorem Holds.get (h : m.Holds P) (key : String) (now : Int) :
    (∀ e ∈ (m.get key now).1, P key e) ∧ (m.get key now).2.Holds P := by
  unfold Memory.get
  split
  · exact ⟨by simp,h⟩
  · next e he =>
    split
    · exact ⟨by simp,h.remove key⟩
    · refine ⟨?_,h⟩
      intro d hd
      obtain rfl := Option.some.inj hd
      exact h key _ he

theorem find?_of_makeRoom {capacity : Nat} {order : List String} {t : Table Entry} {key : String}
    {e : Entry} (h : (makeRoom capacity order t).2.find? key = some e) : t.find? key = some e := by
  induction order generalizing t with
  | nil => exact h
  | cons first rest ih =>
    rw [makeRoom] at h
    split at h
    · have hf := ih h
      rw [Table.find?_erase] at hf
      split at hf
      · cases hf
      · exact hf
    · exact h

theorem Holds.insert (h : m.Holds P) {key : String} {e : Entry} (he : P key e) :
    (m.insert key e).Holds P := by
  unfold Memory.insert
  split
  · intro k d hd
    rw [Table.find?_insert] at hd
    split at hd
    · next hk => rw [hk,← Option.some.inj hd]; exact he
    · exact h k d hd
  · intro k d hd
    rw [Table.find?_insert] at hd
    split at hd
    · next hk => rw [hk,← Option.some.inj hd]; exact he
    · exact h k d (find?_of_makeRoom hd)

theorem Holds.record (h : m.Holds P)
    (hp : ∀ key e reason exhausted, P key e → P key { e with reason := some reason, exhausted })
    (key : String) (reason : ReasonCode) (exhausted : List BudgetKind) :
    (m.record key reason exhausted).Holds P := by
  unfold Memory.record
  split
  · next e he =>
    intro k d hd
    rw [Table.find?_insert] at hd
    split at hd
    · next hk => rw [hk,← Option.some.inj hd]; exact hp _ _ _ _ (h key e he)
    · exact h k d hd
  · exact h

end Cache.Memory

theorem ResolvedType.unresolved_of_not {t : ResolvedType} (hi : t.isInRepo ≠ true)
    (he : t ≠ .external) : t = .unresolved := by
  cases t <;> simp [ResolvedType.isInRepo] at hi he ⊢

namespace Run

-- No text is computed here, and no unifier should try to.
attribute [local irreducible] String.toList

/-- The profile that specifiers of an importer may fall under. -/
def Governs (r : Rules) (rel : String) (profile : Option TsConfig.Profile) : Prop :=
  profile = none ∨ profile = TsConfig.governing r.site.view r.site.root rel

def stamp (profile : Option TsConfig.Profile) : Option String := profile.map (·.fingerprint)

/-- The stamp of a profile that governs stands apart in a key. -/
theorem Governs.stamp {r : Rules} {rel : String} {profile : Option TsConfig.Profile}
    (h : Governs r rel profile) : profile = none ∨ ∃ p parts, profile = some p ∧
      p.fingerprint = Digest.ofParts TsConfig.Profile.version parts := by
  rcases h with h | h
  · exact .inl h
  · cases hp : profile with
    | none => exact .inl rfl
    | some p =>
      rw [hp] at h
      obtain ⟨parts,hf⟩ := TsConfig.fingerprint_of_governFuel _ _ h.symm
      exact .inr ⟨p,parts,rfl,hf⟩

theorem Governs.nullChar_not_mem {r : Rules} {rel : String} {profile : Option TsConfig.Profile}
    (h : Governs r rel profile) : nullChar ∉ ((Run.stamp profile).getD "none").toList := by
  rcases h.stamp with rfl | ⟨p,parts,rfl,hf⟩
  · exact nullChar_not_mem_none
  · rw [Run.stamp,Option.map_some,Option.getD_some,hf]
    exact Digest.nullChar_not_mem_sha256 _

theorem Governs.eq_of_stamp {r : Rules} {rel : String} {profile other : Option TsConfig.Profile}
    (h : Governs r rel profile) (k : Governs r rel other)
    (he : (Run.stamp profile).getD "none" = (Run.stamp other).getD "none") : profile = other := by
  rcases h.stamp with rfl | ⟨p,parts,rfl,hf⟩ <;> rcases k.stamp with rfl | ⟨o,pieces,rfl,hg⟩
  · rfl
  · exact absurd (he.trans hg).symm (Digest.ofParts_ne_none _ _)
  · exact absurd (hf.symm.trans he) (Digest.ofParts_ne_none _ _)
  · have hp := h.resolve_left (by simp)
    have ho := k.resolve_left (by simp)
    rw [hp,ho]

/-- What a specifier of an importer means, however it is written. -/
def meant (r : Rules) (rel spec : String) (profile : Option TsConfig.Profile) : Cache.Entry :=
  answer r ⟨Importer.of rel,spec,spec,profile⟩

/-- A query that a run over the pairs of importer and specifier may put. -/
structure Asks (r : Rules) (pairs : List (String × String)) (q : Query) : Prop where
  mem : (q.importer.rel,q.spec) ∈ pairs
  importer : q.importer = Importer.of q.importer.rel
  spec : q.spec ≠ ""
  profile : Governs r q.importer.rel q.profile

theorem Asks.answer_eq {r : Rules} {pairs : List (String × String)} {q : Query} (hr : r.IsOrdered)
    (h : Asks r pairs q) : answer r q = meant r q.importer.rel q.spec q.profile := by
  rw [meant,← h.importer]
  exact (answer_raw hr h.spec q.spec).symm

/-- An entry in memory means what its key says. -/
def Kept (r : Rules) (pairs : List (String × String)) (key : String) (e : Cache.Entry) : Prop :=
  ∃ rel spec profile, (rel,spec) ∈ pairs ∧ Governs r rel profile ∧
    key = Cache.key rel spec (stamp profile) ∧ e.bare = meant r rel spec profile

/-- Specifiers of an importer with what they mean. -/
def SpecsSound (r : Rules) (rel : String) (profile : Option TsConfig.Profile)
    (t : Table Cache.Entry) : Prop :=
  ∀ spec e, t.find? spec = some e → e.bare = meant r rel spec profile

structure FileState.IsSound (r : Rules) (rel : String) (profile : Option TsConfig.Profile)
    (f : FileState) : Prop where
  config : f.configFingerprint = stamp profile
  persisted : ∀ p ∈ f.persisted, SpecsSound r rel profile p.specs
  next : ∀ t ∈ f.next, SpecsSound r rel profile t

structure State.IsSound (r : Rules) (pairs : List (String × String)) (s : State) : Prop where
  configs : s.configs.IsTrue r.site.view r.site.root
  packages : s.HasTruePackages r
  memory : s.memory.Holds (Kept r pairs)

section Steps
variable {r : Rules} {pairs : List (String × String)}

theorem remembered_sound {P : String → Cache.Entry → Prop} {m : Cache.Memory} (h : m.Holds P)
    (key : String) :
    (∀ e ∈ (remembered r key m).1, P key e) ∧ (remembered r key m).2.Holds P := by
  obtain ⟨he,hm⟩ := h.get key r.now
  unfold remembered
  split
  · next e n hn =>
    rw [hn] at he hm
    split
    · exact ⟨by simp,hm.remove key⟩
    · exact ⟨he,hm⟩
  · next n hn =>
    rw [hn] at hm
    exact ⟨by simp,hm⟩

variable (hr : r.IsOrdered) (ha : Cache.Apart pairs)
include hr ha

/-- What memory has under the key of a query is what the query means. -/
theorem Kept.bare_eq {q : Query} (hq : Asks r pairs q) {e : Cache.Entry}
    (h : Kept r pairs (Cache.key q.importer.rel q.spec (stamp q.profile)) e) :
    e.bare = answer r q := by
  obtain ⟨rel,spec,profile,hm,hg,hk,he⟩ := h
  obtain ⟨hj,hp⟩ := Cache.key_inj hk hq.profile.nullChar_not_mem hg.nullChar_not_mem
  obtain ⟨hi,hs⟩ := Prod.mk.inj (ha _ hq.mem _ hm hj)
  subst hi hs
  rw [he,hq.answer_eq hr,hq.profile.eq_of_stamp hg hp]

theorem fromMemory_sound {q : Query} (hq : Asks r pairs q) {s : State} (hs : s.IsSound r pairs) :
    let found := fromMemory r q (Cache.key q.importer.rel q.spec (stamp q.profile))
      { purse := Purse.of r.policy } s
    found.1.bare = answer r q ∧ found.2.2.IsSound r pairs := by
  obtain ⟨he,hm⟩ := remembered_sound hs.memory (Cache.key q.importer.rel q.spec (stamp q.profile))
  unfold fromMemory
  generalize remembered r (Cache.key q.importer.rel q.spec (stamp q.profile)) s.memory = known at he hm ⊢
  obtain ⟨entry,memory⟩ := known
  cases entry with
  | some entry =>
    exact ⟨Kept.bare_eq hr ha hq (he entry rfl),hs.configs,hs.packages,hm⟩
  | none =>
    have ht : State.HasTruePackages r { s with memory } := hs.packages
    obtain ⟨hc,hp⟩ := compute_eq ht q
    have hk := compute_searched r q { purse := Purse.of r.policy } { s with memory }
    simp only
    generalize compute r q { purse := Purse.of r.policy } { s with memory } = found at hc hp hk ⊢
    obtain ⟨entry,e,t⟩ := found
    simp only at hc hp hk ⊢
    have hb : entry.bare = answer r q := by
      rw [hc]
      exact answer_bare r q
    refine ⟨hb,?_,hp,?_⟩
    · rw [hk.configs]
      exact hs.configs
    · have hn : t.memory.Holds (Kept r pairs) := by
        rw [hk.memory]
        exact hm
      exact hn.insert ⟨_,_,_,hq.mem,hq.profile,rfl,hb.trans (hq.answer_eq hr)⟩

/-- Wherever an outcome comes from, it is what the specifier means. -/
theorem outcome_sound {q : Query} (hq : Asks r pairs q) {f : FileState}
    (hf : f.IsSound r q.importer.rel q.profile) {s : State} (hs : s.IsSound r pairs) :
    let found := outcome r q f { purse := Purse.of r.policy } s
    found.1.bare = answer r q ∧ found.2.2.2.IsSound r pairs := by
  unfold outcome
  split
  · next entry he =>
    obtain ⟨hb,-⟩ := Option.filter_eq_some_iff.mp he
    obtain ⟨p,hp,hk⟩ := Option.bind_eq_some_iff.mp hb
    exact ⟨(hf.persisted p hp q.spec entry hk).trans (hq.answer_eq hr).symm,
      hs.configs,hs.packages,hs.memory⟩
  · have ht : (s.countSpec false).IsSound r pairs := ⟨hs.configs,hs.packages,hs.memory⟩
    rw [hf.config]
    exact fromMemory_sound hr ha hq ht

end Steps

section Settling
variable {r : Rules} {pairs : List (String × String)}

theorem recordUnresolved_bare (q : Query) (entry : Cache.Entry) (key : Option String) (e : Effort)
    (s : State) : (recordUnresolved r q entry key e s).2.1.bare = entry.bare := by
  simp only [recordUnresolved]
  split <;> rfl

/-- Filing an outcome adds no more than a reason, if it is whole. -/
theorem settle_bare {q : Query} {entry : Cache.Entry} (hw : entry.IsWhole) (key : Option String)
    (e : Effort) (f : FileState) (s : State) :
    (settle r q entry key e f s).1.bare = entry.bare := by
  unfold settle
  split
  · rfl
  · next hn =>
    by_cases hx : entry.resolvedType = .external
    · simp only [hx,if_true]
    · have hi : entry.resolvedType.isInRepo ≠ true := by
        intro hi
        obtain ⟨path,hp⟩ := hw hi
        exact hn path hi hp
      have ht := ResolvedType.unresolved_of_not hi hx
      simp only [ht,if_true]
      exact recordUnresolved_bare q entry key e s

theorem Counts.isSound {x : Settled} {s t : State} (h : Counts x s t)
    (hs : s.IsSound r pairs) : t.IsSound r pairs where
  configs := by
    rw [h.configs]
    exact hs.configs
  packages := by
    rw [State.HasTruePackages,h.packages]
    exact hs.packages
  memory := by
    rcases h.memory with hm | ⟨key,code,kinds,hm⟩ <;> rw [hm]
    · exact hs.memory
    · exact hs.memory.record (fun _ _ _ _ hk => hk) key code kinds

theorem FileState.IsSound.link {rel : String} {profile : Option TsConfig.Profile} {f : FileState}
    (h : f.IsSound r rel profile) (x : Settled) : (x.link f).IsSound r rel profile := by
  unfold Settled.link
  split
  · exact ⟨h.config,h.persisted,h.next⟩
  · exact ⟨h.config,h.persisted,h.next⟩
  · exact h

theorem FileState.IsSound.gather {rel : String} {profile : Option TsConfig.Profile} {f : FileState}
    (h : f.IsSound r rel profile) {x : Settled}
    (hx : x.entry.bare = meant r rel x.query.spec profile) : (x.gather f).IsSound r rel profile := by
  have hl := h.link x
  refine ⟨hl.config,hl.persisted,?_⟩
  intro t ht spec e he
  obtain ⟨old,ho,rfl⟩ := Option.map_eq_some_iff.mp ht
  rw [Table.find?_insert] at he
  split at he
  · next hs => rw [hs,← Option.some.inj he]; exact hx
  · exact hl.next old ho spec e he

/-- A specifier without what depends on the way it was met. -/
def Settled.bare (x : Settled) : Settled := ⟨x.query,x.entry.bare⟩

theorem resolveSpec_sound (hr : r.IsOrdered) (ha : Cache.Apart pairs) {q : Query}
    (hq : Asks r pairs q) {f : FileState} (hf : f.IsSound r q.importer.rel q.profile)
    {s : State} (hs : s.IsSound r pairs) :
    (settled r q f s).entry.bare = answer r q ∧ (resolveSpec r q f s).2.IsSound r pairs := by
  obtain ⟨hb,ht⟩ := outcome_sound hr ha hq hf hs
  unfold settled resolveSpec
  generalize outcome r q f { purse := Purse.of r.policy } s = found at hb ht ⊢
  obtain ⟨entry,key,e,t⟩ := found
  simp only at hb ht ⊢
  have hw : entry.IsWhole := by
    have := answer_isWhole r q
    rw [← hb] at this
    exact this
  obtain ⟨-,-,hc⟩ := settle_counts r q key e t entry f
  exact ⟨(settle_bare hw key e f t).trans hb,hc.isSound ht⟩

/-- The specifiers of an importer with what they mean. -/
def meantRaws (r : Rules) (rel : String) (profile : Option TsConfig.Profile) (raws : List String) :
    List Settled :=
  (raws.filter fun raw => Specifier.normalize raw ≠ "").map fun raw =>
    let q := Query.of (Importer.of rel) profile raw
    ⟨q,answer r q⟩

/-- An importer's specifiers are settled as they mean, one after the other. -/
theorem settledRaws_sound (hr : r.IsOrdered) (ha : Cache.Apart pairs) {rel : String}
    {profile : Option TsConfig.Profile} (hg : Governs r rel profile) {raws : List String}
    (hm : ∀ raw ∈ raws, Specifier.normalize raw ≠ "" → (rel,Specifier.normalize raw) ∈ pairs)
    {acc : FileState × State} (hf : acc.1.IsSound r rel profile) (hs : acc.2.IsSound r pairs) :
    let t := raws.foldl (resolveRaw r (Importer.of rel) profile) acc
    (settledRaws r (Importer.of rel) profile raws acc).map Settled.bare =
        meantRaws r rel profile raws ∧
      t.1.IsSound r rel profile ∧ t.2.IsSound r pairs := by
  induction raws generalizing acc with
  | nil => exact ⟨rfl,hf,hs⟩
  | cons raw rest ih =>
    have ih (f : FileState) (s : State) (hf : f.IsSound r rel profile) (hs : s.IsSound r pairs) :=
      @ih (fun other ho => hm other (.tail _ ho)) (f,s) hf hs
    by_cases hn : Specifier.normalize raw = ""
    · have ht : (acc.2.normalized false).IsSound r pairs := ⟨hs.configs,hs.packages,hs.memory⟩
      have hk := ih acc.1 _ hf ht
      simpa [settledRaws,meantRaws,resolveRaw,hn] using hk
    · have hq : Asks r pairs (Query.of (Importer.of rel) profile raw) :=
        ⟨hm raw (.head _) hn,rfl,hn,hg⟩
      have ht : (acc.2.normalized true).IsSound r pairs := ⟨hs.configs,hs.packages,hs.memory⟩
      obtain ⟨hb,hu⟩ := resolveSpec_sound hr ha hq hf ht
      obtain ⟨hstep,-,-⟩ := resolveSpec_step r (Query.of (Importer.of rel) profile raw) acc.1 acc.2
      have hv := hf.gather (hb.trans (hq.answer_eq hr))
      rw [← hstep] at hv
      obtain ⟨hk,hl⟩ := ih _ _ hv hu
      have hc : settledRaws r (Importer.of rel) profile (raw :: rest) acc =
          settled r (Query.of (Importer.of rel) profile raw) acc.1 (acc.2.normalized true) ::
            settledRaws r (Importer.of rel) profile rest
              (resolveSpec r (Query.of (Importer.of rel) profile raw) acc.1
                (acc.2.normalized true)) := by
        simp [settledRaws,resolveRaw,hn,Query.of]
      have hd : meantRaws r rel profile (raw :: rest) =
          ⟨Query.of (Importer.of rel) profile raw,answer r (Query.of (Importer.of rel) profile raw)⟩
            :: meantRaws r rel profile rest := by
        simp [meantRaws,hn]
      have he : resolveRaw r (Importer.of rel) profile acc raw =
          resolveSpec r (Query.of (Importer.of rel) profile raw) acc.1
            (acc.2.normalized true) := by
        simp [resolveRaw,hn,Query.of]
      rw [hc,hd,List.foldl_cons,he,List.map_cons,hk,Settled.bare,hb]
      exact ⟨rfl,hl⟩

end Settling
section Files
variable {r : Rules} {pairs : List (String × String)}

/-- The profile that the specifiers of an importer do fall under. -/
def profileFor (r : Rules) (rel : String) (raws : List String) : Option TsConfig.Profile :=
  if needsConfig (Importer.of rel) raws then TsConfig.governing r.site.view r.site.root rel else none

theorem governs_profileFor (r : Rules) (rel : String) (raws : List String) :
    Governs r rel (profileFor r rel raws) := by
  unfold profileFor
  split
  · exact .inr rfl
  · exact .inl rfl

/-- What was kept of an importer is what its specifiers mean, under some profile. -/
def Written (r : Rules) (rel : String) (f : Cache.FileEntry) : Prop :=
  ∃ profile, Governs r rel profile ∧ f.configFingerprint = stamp profile ∧
    SpecsSound r rel profile f.specs

/-- What was kept of an importer does no harm: where its stamp fits, it is what specifiers mean. -/
def Usable (r : Rules) (rel : String) (f : Cache.FileEntry) : Prop :=
  ∀ profile, Governs r rel profile → f.configFingerprint = stamp profile →
    SpecsSound r rel profile f.specs

theorem Written.usable {rel : String} {f : Cache.FileEntry} (h : Written r rel f) :
    Usable r rel f := by
  obtain ⟨profile,hg,hs,hk⟩ := h
  intro other ho he
  rw [← hg.eq_of_stamp ho (by rw [← hs,he])]
  exact hk

/-- The state of a run is sound, and what its cache holds of importers is as `C` says. -/
structure Progress.IsSound (r : Rules) (pairs : List (String × String))
    (C : String → Cache.FileEntry → Prop) (p : Progress) : Prop where
  state : p.state.IsSound r pairs
  cache : ∀ c ∈ p.cache, ∀ rel f, c.files.find? rel = some f → C rel f

theorem configOf_sound (rel : String) (raws : List String) {s : State}
    (hs : s.IsSound r pairs) :
    (configOf r (Importer.of rel) raws s).1 = profileFor r rel raws ∧
      (configOf r (Importer.of rel) raws s).2.IsSound r pairs := by
  unfold configOf profileFor
  split
  · obtain ⟨hf,ht⟩ := TsConfig.Loader.find_eq hs.configs rel
    exact ⟨hf,ht,hs.packages,hs.memory⟩
  · exact ⟨rfl,hs⟩

/-- An importer found in the cache is there under its stamp. -/
theorem openCached_find {rel : String} {hash config : Option String} {cache : Option Cache.Persisted}
    {usage : Option CacheUsage} {f : Cache.FileEntry}
    (h : (openCached rel hash config cache usage).1 = some f) :
    ∃ c ∈ cache, c.files.find? rel = some f ∧ f.configFingerprint = config := by
  cases usage with
  | none => simp [openCached] at h
  | some usage =>
    simp only [openCached,openFile] at h
    split at h
    · next c hashed =>
      split at h
      · next g hg =>
        obtain ⟨hf,hc⟩ := Option.filter_eq_some_iff.mp hg
        obtain rfl := Option.some.inj h
        refine ⟨c,rfl,hf,?_⟩
        simpa using (Bool.and_eq_true_iff.mp hc).2
      · split at h <;> cases h
    · cases h

variable {C : String → Cache.FileEntry → Prop}

theorem enterFile_sound (hc : ∀ rel f, C rel f → Usable r rel f) (hashes : Table String)
    {p : Progress} (hp : p.IsSound r pairs C) (item : String × List String) :
    let t := enterFile r hashes p item
    t.1 = profileFor r item.1 (specifiersOf item.2) ∧ t.2.1.IsSound r item.1 t.1 ∧
      t.2.2.IsSound r pairs := by
  have hs : State.IsSound r pairs
      { p.state with graph := (p.state.graph.addNode (fileNodeId item.1) .file).2 } :=
    ⟨hp.state.configs,hp.state.packages,hp.state.memory⟩
  obtain ⟨hf,ht⟩ := configOf_sound item.1 (specifiersOf item.2) hs
  simp only [enterFile]
  generalize configOf r (Importer.of item.1) (specifiersOf item.2) _ = found at hf ht ⊢
  obtain ⟨profile,s⟩ := found
  simp only at hf ht ⊢
  refine ⟨hf,⟨rfl,?_,?_⟩,ht.configs,ht.packages,ht.memory⟩
  · intro f hm
    obtain ⟨c,hmem,hfind,hstamp⟩ := openCached_find hm
    have hg : Governs r item.1 profile := by
      rw [hf]
      exact governs_profileFor r item.1 _
    exact hc item.1 f (hp.cache c hmem item.1 f hfind) profile hg hstamp
  · intro t hm spec e he
    split at hm
    · obtain rfl := Option.some.inj hm
      simp at he
    · cases hm

theorem keepFile_find {importerRel rel : String} {hash : Option String} {f : FileState}
    {c : Cache.Persisted} {g : Cache.FileEntry}
    (h : (keepFile importerRel hash f c).files.find? rel = some g) :
    c.files.find? rel = some g ∨
      rel = importerRel ∧ ∃ hashed specs, f.next = some specs ∧
        g = ⟨hashed,f.configFingerprint,specs⟩ := by
  cases hash with
  | none => exact .inl h
  | some hashed =>
    cases hn : f.next with
    | none =>
      simp only [keepFile,hn] at h
      exact .inl h
    | some specs =>
      simp only [keepFile,hn,Table.find?_insert] at h
      split at h
      · next he => exact .inr ⟨he,hashed,specs,rfl,(Option.some.inj h).symm⟩
      · exact .inl h

/-- An importer of a run by what its specifiers mean. -/
def meantFile (r : Rules) (item : String × List String) : FileRecord :=
  let raws := specifiersOf item.2
  ⟨item.1,raws,meantRaws r item.1 (profileFor r item.1 raws) raws⟩

/-- An importer without what depends on the way its specifiers were met. -/
def FileRecord.bare (x : FileRecord) : FileRecord := { x with settled := x.settled.map Settled.bare }

theorem resolveFile_sound (hr : r.IsOrdered) (ha : Cache.Apart pairs)
    (hc : ∀ rel f, C rel f → Usable r rel f)
    (hashes : Table String) {p : Progress} (hp : p.IsSound r pairs C)
    {item : String × List String} (hw : ∀ f, Written r item.1 f → C item.1 f)
    (hi : ∀ raw ∈ specifiersOf item.2, Specifier.normalize raw ≠ "" →
      (item.1,Specifier.normalize raw) ∈ pairs) :
    (recordOf r hashes p item).bare = meantFile r item ∧
      (resolveFile r hashes p item).IsSound r pairs C := by
  obtain ⟨hprofile,hf,hs⟩ := enterFile_sound hc hashes hp item
  unfold recordOf resolveFile meantFile
  generalize enterFile r hashes p item = entered at hprofile hf hs ⊢
  obtain ⟨profile,f,s⟩ := entered
  simp only at hprofile hf hs ⊢
  have hg : Governs r item.1 profile := by
    rw [hprofile]
    exact governs_profileFor r item.1 _
  have hx := @settledRaws_sound r pairs hr ha item.1 profile hg (specifiersOf item.2) hi (f,s) hf hs
  obtain ⟨hx,hk,ht⟩ := hx
  refine ⟨?_,ht,?_⟩
  · rw [← hprofile,FileRecord.bare,hx]
  · intro c hm rel g hfind
    obtain ⟨old,ho,rfl⟩ := Option.map_eq_some_iff.mp hm
    rcases keepFile_find hfind with hfind | ⟨rfl,hashed,specs,hn,rfl⟩
    · exact hp.cache old ho rel g hfind
    · exact hw _ ⟨profile,hg,hk.config,hk.next specs hn⟩

/-- The run over sound caches settles every specifier as it means. -/
theorem recordsOf_sound (hr : r.IsOrdered) (ha : Cache.Apart pairs)
    (hc : ∀ rel f, C rel f → Usable r rel f)
    (hashes : Table String) {items : List (String × List String)}
    (hw : ∀ item ∈ items, ∀ f, Written r item.1 f → C item.1 f)
    (hi : ∀ item ∈ items, ∀ raw ∈ specifiersOf item.2, Specifier.normalize raw ≠ "" →
      (item.1,Specifier.normalize raw) ∈ pairs) {p : Progress} (hp : p.IsSound r pairs C) :
    (recordsOf r hashes items p).map FileRecord.bare = items.map (meantFile r) ∧
      (items.foldl (resolveFile r hashes) p).IsSound r pairs C := by
  induction items generalizing p with
  | nil => exact ⟨rfl,hp⟩
  | cons item rest ih =>
    obtain ⟨hx,hq⟩ := resolveFile_sound hr ha hc hashes hp (hw item (.head _)) (hi item (.head _))
    obtain ⟨hk,hl⟩ := ih (fun other ho => hw other (.tail _ ho))
      (fun other ho => hi other (.tail _ ho)) hq
    refine ⟨?_,hl⟩
    rw [recordsOf,List.map_cons,List.map_cons,hx,hk]

end Files
end Run
end ImportResolution
