import ImportResolution.Proofs.Seeding

/-! What a run keeps up. An outcome is kept from an earlier run, recalled from memory or found anew,
and is then filed; what these ways and the filing respect holds of all that a run settles, of what it
has in memory and of what it leaves. -/
namespace ImportResolution

namespace Cache.Memory
variable {m : Memory} {key : String} {e : Entry}

theorem find?_insert_self (m : Memory) (key : String) (e : Entry) :
    (m.insert key e).entries.find? key = some e := by
  unfold Memory.insert
  split <;> simp

theorem find?_of_insert {k : String} {d : Entry} (hk : k ≠ key)
    (h : (m.insert key e).entries.find? k = some d) : m.entries.find? k = some d := by
  have hm : m.Holds fun k d => k ≠ key → m.entries.find? k = some d := fun _ _ hf _ => hf
  exact hm.insert (fun hn => absurd rfl hn) k d h hk

theorem find?_record (h : m.entries.find? key = some e) (reason : ReasonCode)
    (exhausted : List BudgetKind) (k : String) :
    (m.record key reason exhausted).entries.find? k =
      if k = key then some { e with reason := some reason, exhausted } else m.entries.find? k := by
  simp [record,h]

end Cache.Memory

namespace Run

-- No text is computed here, and no unifier should try to.
attribute [local irreducible] String.toList

/-- The outcome of a specifier by the rules, with the moment it lives to. -/
def freshEntry (r : Rules) (q : Query) : Cache.Entry :=
  { answer r q with expiresAt := expiresAt r (answer r q) }

/-- The place of a query in memory. -/
def Query.slot (q : Query) : String := Cache.key q.importer.rel q.spec (stamp q.profile)

/-- Where an outcome comes from, with the effort that was made for it. -/
inductive Origin (r : Rules) (q : Query) (f : FileState) (m : Cache.Memory) :
    Cache.Entry → Effort → Prop
  | kept {p : Cache.FileEntry} {e : Cache.Entry} (hp : f.persisted = some p)
      (he : p.specs.find? q.spec = some e) (hv : isStillValid r e = true) :
      Origin r q f m e { purse := Purse.of r.policy }
  | recalled {e : Cache.Entry} (he : m.entries.find? q.slot = some e)
      (hl : e.isExpired r.now = false) : Origin r q f m e { purse := Purse.of r.policy }
  | computed {t : State} (ht : t.HasTruePackages r) :
      Origin r q f m (freshEntry r q) (compute r q { purse := Purse.of r.policy } t).2.1

/-- How an outcome is filed: one without a target gets a reason. -/
inductive Filed (r : Rules) (q : Query) (e : Effort) (entry : Cache.Entry) : Cache.Entry → Prop
  | target (ht : entry.resolvedType ≠ .unresolved) : Filed r q e entry entry
  | missing (ht : entry.resolvedType = .unresolved) (s : State) (kinds : List BudgetKind) :
      Filed r q e entry { entry with
        reason :=
          some (reasonOf r q (r.noise.isNoise q.spec q.raw q.importer) entry.reason e s).1
        exhausted := kinds }

/-- Of what is kept, a target in the repository is served only if it is indexed. -/
theorem path_of_isStillValid {r : Rules} {e : Cache.Entry} (h : isStillValid r e = true)
    (hi : e.resolvedType.isInRepo = true) :
    ∃ path, e.resolvedPath = some path ∧ path ∈ r.files.files := by
  simp only [isStillValid,hi,if_true] at h
  cases hp : e.resolvedPath with
  | none => simp [hp] at h
  | some path =>
    rw [hp,Option.any_some] at h
    exact ⟨path,rfl,(FileSet.contains_iff _ _).mp h⟩

theorem isWhole_of_isStillValid {r : Rules} {e : Cache.Entry} (h : isStillValid r e = true) :
    e.IsWhole :=
  fun hi => (path_of_isStillValid h hi).imp fun _ hp => hp.1

theorem freshEntry_bare (r : Rules) (q : Query) : (freshEntry r q).bare = answer r q :=
  answer_bare r q

theorem resolvedType_answer {r : Rules} {q : Query} {e : Cache.Entry} (h : e.bare = answer r q) :
    e.resolvedType = (answer r q).resolvedType := by
  rw [← h]
  rfl

theorem isWhole_of_bare {r : Rules} {q : Query} {e : Cache.Entry} (h : e.bare = answer r q) :
    e.IsWhole := by
  have hw := answer_isWhole r q
  rw [← h] at hw
  exact hw

theorem freshEntry_isWhole (r : Rules) (q : Query) : (freshEntry r q).IsWhole :=
  isWhole_of_bare (freshEntry_bare r q)

namespace Filed
variable {r : Rules} {q : Query} {e : Effort} {entry last : Cache.Entry}

theorem bare_eq (h : Filed r q e entry last) : last.bare = entry.bare := by
  cases h <;> rfl

theorem expiresAt_eq (h : Filed r q e entry last) : last.expiresAt = entry.expiresAt := by
  cases h <;> rfl

theorem isStillValid_eq (h : Filed r q e entry last) : isStillValid r last = isStillValid r entry := by
  cases h <;> rfl

theorem isWhole (h : Filed r q e entry last) (hw : entry.IsWhole) : last.IsWhole := by
  cases h <;> exact hw

end Filed

section Steps
variable {r : Rules} {q : Query}

/-- What is remembered is in memory and alive; looking it up brings nothing into memory. -/
theorem remembered_cases (key : String) (m : Cache.Memory) :
    (∀ e, (remembered r key m).1 = some e → (remembered r key m).2 = m ∧
      m.entries.find? key = some e ∧ e.isExpired r.now = false) ∧
    ∀ k d, (remembered r key m).2.entries.find? k = some d → m.entries.find? k = some d := by
  refine ⟨?_,(remembered_sound (P := fun k d => m.entries.find? k = some d)
    (fun _ _ h => h) key).2⟩
  intro e h
  unfold remembered Cache.Memory.get at h ⊢
  cases hf : m.entries.find? key with
  | none => simp [hf] at h
  | some d =>
    cases hl : d.isExpired r.now with
    | true => simp [hf,hl] at h
    | false =>
      simp only [hf,hl,Bool.false_eq_true,if_false] at h ⊢
      split at h
      · cases h
      · next hv =>
        obtain rfl := Option.some.inj h
        rw [if_neg hv]
        exact ⟨rfl,rfl,hl⟩

theorem outcome_origin {f : FileState} (hc : f.configFingerprint = stamp q.profile) {s : State}
    (hs : s.HasTruePackages r) :
    let found := outcome r q f { purse := Purse.of r.policy } s
    Origin r q f s.memory found.1 found.2.2.1 ∧ found.2.2.2.HasTruePackages r ∧
      (found.2.1 = none ∧ found.2.2.2.memory = s.memory ∨
        found.2.1 = some q.slot ∧ found.2.2.2.memory.entries.find? q.slot = some found.1 ∧
          ∀ k d, k ≠ q.slot → found.2.2.2.memory.entries.find? k = some d →
            s.memory.entries.find? k = some d) := by
  unfold outcome
  split
  · next entry he =>
    obtain ⟨hb,hv⟩ := Option.filter_eq_some_iff.mp he
    obtain ⟨p,hp,hk⟩ := Option.bind_eq_some_iff.mp hb
    exact ⟨.kept hp hk hv,hs,.inl ⟨rfl,rfl⟩⟩
  · obtain ⟨hr,hm⟩ := remembered_cases (r := r) q.slot s.memory
    have ht : (s.countSpec false).memory = s.memory := rfl
    rw [hc,show Cache.key q.importer.rel q.spec (stamp q.profile) = q.slot from rfl]
    simp only [fromMemory,ht]
    generalize remembered r q.slot s.memory = known at hr hm ⊢
    obtain ⟨entry,memory⟩ := known
    cases entry with
    | some entry =>
      obtain ⟨rfl,hf,hl⟩ := hr entry rfl
      exact ⟨.recalled hf hl,hs,.inr ⟨trivial,hf,fun _ _ _ h => h⟩⟩
    | none =>
      have hu : State.HasTruePackages r { s.countSpec false with memory } := hs
      obtain ⟨he,hp⟩ := compute_eq hu q
      have hk := compute_searched r q { purse := Purse.of r.policy }
        { s.countSpec false with memory }
      simp only
      rw [he]
      refine ⟨.computed hu,hp,.inr ⟨trivial,Cache.Memory.find?_insert_self _ _ _,?_⟩⟩
      intro k d hn hd
      have hd := Cache.Memory.find?_of_insert hn hd
      rw [hk.memory] at hd
      exact hm k d hd

theorem countUnresolved_filed {entry : Cache.Entry} (ht : entry.resolvedType = .unresolved)
    {key : Option String} (e : Effort) (s : State)
    (hk : ∀ k, key = some k → s.memory.entries.find? k = some entry) :
    let filed := countUnresolved r q (r.noise.isNoise q.spec q.raw q.importer) entry key e s
    Filed r q e entry filed.2.1 ∧ ∀ k, filed.2.2.memory.entries.find? k =
      if key = some k then some filed.2.1 else s.memory.entries.find? k := by
  have hs := reasonOf_searched r q (r.noise.isNoise q.spec q.raw q.importer) entry.reason e s
  refine ⟨.missing ht s _,?_⟩
  intro k
  simp only [countUnresolved,hs.memory]
  cases key with
  | none => simp
  | some place =>
    rw [Cache.Memory.find?_record (hk place rfl)]
    simp only [Option.some.injEq,eq_comm]

/-- A whole outcome is filed, and where it has a place in memory it is filed there. -/
theorem settle_filed {entry : Cache.Entry} (hw : entry.IsWhole) {key : Option String} (e : Effort)
    (f : FileState) (s : State)
    (hk : ∀ k, key = some k → s.memory.entries.find? k = some entry) :
    let filed := settle r q entry key e f s
    Filed r q e entry filed.1 ∧ ∀ k, filed.2.2.memory.entries.find? k =
      if key = some k then some filed.1 else s.memory.entries.find? k := by
  have hm : ∀ k, s.memory.entries.find? k =
      if key = some k then some entry else s.memory.entries.find? k := by
    intro k
    split
    · next h => exact hk k h
    · rfl
  unfold settle
  split
  · next path ht hp =>
    refine ⟨.target fun hu => ?_,hm⟩
    rw [hu] at ht
    cases ht
  · next hn =>
    by_cases hx : entry.resolvedType = .external
    · simp only [hx,if_true]
      exact ⟨.target (by simp [hx]),hm⟩
    · have hi : entry.resolvedType.isInRepo ≠ true := by
        intro hi
        obtain ⟨path,hp⟩ := hw hi
        exact hn path hi hp
      have ht := ResolvedType.unresolved_of_not hi hx
      have hc := countUnresolved_filed (r := r) (q := q) ht e s hk
      simp only [if_neg hx,if_pos ht,recordUnresolved]
      generalize countUnresolved r q _ entry key e s = filed at hc ⊢
      cases r.noise.isNoise q.spec q.raw q.importer with
      | true => exact hc
      | false =>
        simp only [Bool.false_eq_true,if_false]
        split <;> exact hc

/-- One step of a run: an outcome of some origin is filed, and of memory its own place alone may
change. -/
theorem resolveSpec_origin {f : FileState} (hc : f.configFingerprint = stamp q.profile) {s : State}
    (hs : s.HasTruePackages r)
    (hw : ∀ e, s.memory.entries.find? q.slot = some e → e.IsWhole) :
    let x := settled r q f s
    let t := (resolveSpec r q f s).2
    (∃ entry e, Origin r q f s.memory entry e ∧ Filed r q e entry x.entry) ∧
      t.HasTruePackages r ∧ t.configs = s.configs ∧
      ∀ k d, t.memory.entries.find? k = some d →
        s.memory.entries.find? k = some d ∨ k = q.slot ∧ d = x.entry := by
  obtain ⟨ho,hp,hm⟩ := outcome_origin hc hs
  obtain ⟨reused,memory,hk⟩ := outcome_searched r q { purse := Purse.of r.policy } s f
  have hk := hk.configs
  unfold settled resolveSpec
  generalize outcome r q f { purse := Purse.of r.policy } s = found at ho hp hm hk ⊢
  obtain ⟨entry,key,e,t⟩ := found
  simp only at ho hp hm hk ⊢
  have hentry : entry.IsWhole := by
    cases ho with
    | kept hf he hv => exact isWhole_of_isStillValid hv
    | recalled he hl => exact hw _ he
    | computed ht => exact freshEntry_isWhole r q
  have hplace : ∀ k, key = some k → t.memory.entries.find? k = some entry := by
    intro k hkey
    rcases hm with ⟨hn,-⟩ | ⟨hn,hf,-⟩
    · simp [hkey] at hn
    · obtain rfl := Option.some.inj (hkey.symm.trans hn)
      exact hf
  obtain ⟨hfiled,hmem⟩ := settle_filed (r := r) (q := q) hentry e f t hplace
  obtain ⟨-,-,hcounts⟩ := settle_counts r q key e t entry f
  refine ⟨⟨entry,e,ho,hfiled⟩,?_,hcounts.configs.trans hk,?_⟩
  · rw [State.HasTruePackages,hcounts.packages]
    exact hp
  · intro k d hd
    rw [hmem] at hd
    split at hd
    · next hkey =>
      rcases hm with ⟨hn,-⟩ | ⟨hn,-,-⟩
      · simp [hkey] at hn
      · exact .inr ⟨Option.some.inj (hkey.symm.trans hn),(Option.some.inj hd).symm⟩
    · next hkey =>
      rcases hm with ⟨-,hm⟩ | ⟨hn,-,hm⟩
      · exact .inl (hm ▸ hd)
      · exact .inl (hm k d (fun h => hkey (h ▸ hn)) hd)

end Steps

/-- What is said of the outcomes of queries is respected by each step of a run that puts them. -/
structure Upkeep (r : Rules) (Q : Query → Prop) (P : Query → Cache.Entry → Prop) : Prop where
  whole : ∀ q entry, Q q → P q entry → entry.IsWhole
  shared : ∀ q u entry, Q q → Q u → q.slot = u.slot → P q entry → P u entry
  refiled : ∀ q entry last, Q q → P q entry →
    Filed r q { purse := Purse.of r.policy } entry last → P q last
  computed : ∀ q t last, Q q → t.HasTruePackages r →
    Filed r q (compute r q { purse := Purse.of r.policy } t).2.1 (freshEntry r q) last → P q last

/-- What is kept of an importer, as far as a run may take it over, is as `P` says. -/
def Serves (r : Rules) (hashes : Table String) (Q : Query → Prop) (P : Query → Cache.Entry → Prop)
    (rel : String) (f : Cache.FileEntry) : Prop :=
  ∀ q entry, Q q → q.importer.rel = rel → hashes.find? rel = some f.hash →
    f.configFingerprint = stamp q.profile → f.specs.find? q.spec = some entry →
    isStillValid r entry = true → P q entry

/-- Whatever is kept of an importer was the outcome of a query, and is as `P` says. -/
def Keeps (Q : Query → Prop) (P : Query → Cache.Entry → Prop) (rel : String)
    (f : Cache.FileEntry) : Prop :=
  ∀ spec entry, f.specs.find? spec = some entry → ∃ q, Q q ∧ q.importer.rel = rel ∧
    q.spec = spec ∧ f.configFingerprint = stamp q.profile ∧ P q entry

theorem Keeps.imp {Q : Query → Prop} {P P' : Query → Cache.Entry → Prop} {rel : String}
    {f : Cache.FileEntry} (h : Keeps Q P rel f) (hp : ∀ q entry, Q q → P q entry → P' q entry) :
    Keeps Q P' rel f := by
  intro spec entry he
  obtain ⟨q,hq,hr,hs,hc,hk⟩ := h spec entry he
  exact ⟨q,hq,hr,hs,hc,hp q entry hq hk⟩

theorem Upkeep.serves {r : Rules} {Q : Query → Prop} {P : Query → Cache.Entry → Prop}
    (h : Upkeep r Q P) {rel : String} {f : Cache.FileEntry} (hf : Keeps Q P rel f)
    (hashes : Table String) : Serves r hashes Q P rel f := by
  intro q entry hq hrel _ hstamp he _
  obtain ⟨u,hu,hr,hs,hc,hp⟩ := hf q.spec entry he
  refine h.shared u q entry hu hq ?_ hp
  rw [Query.slot,Query.slot,hr,hrel,hs,← hc,hstamp]

/-- What has been loaded is true, and what is in memory is as `P` says. -/
structure State.Upholds (r : Rules) (Q : Query → Prop) (P : Query → Cache.Entry → Prop)
    (s : State) : Prop where
  configs : s.configs.IsTrue r.site.view r.site.root
  packages : s.HasTruePackages r
  memory : ∀ key e, s.memory.entries.find? key = some e → ∀ q, Q q → q.slot = key → P q e

/-- What an importer has at hand of an earlier run is as `P` says. -/
structure FileState.Upholds (r : Rules) (Q : Query → Prop) (P : Query → Cache.Entry → Prop)
    (rel : String) (profile : Option TsConfig.Profile) (f : FileState) : Prop where
  config : f.configFingerprint = stamp profile
  persisted : ∀ p, f.persisted = some p → ∀ q entry, Q q → q.importer.rel = rel →
    q.profile = profile → p.specs.find? q.spec = some entry → isStillValid r entry = true →
    P q entry

theorem Settled.gather_kept (x : Settled) (f : FileState) :
    (x.gather f).persisted = f.persisted ∧ (x.gather f).configFingerprint = f.configFingerprint := by
  cases h : x.fate <;> simp [gather,link,h]

theorem FileState.Upholds.gather {r : Rules} {Q : Query → Prop} {P : Query → Cache.Entry → Prop}
    {rel : String} {profile : Option TsConfig.Profile} {f : FileState}
    (h : f.Upholds r Q P rel profile) (x : Settled) : (x.gather f).Upholds r Q P rel profile := by
  obtain ⟨hp,hc⟩ := x.gather_kept f
  exact ⟨hc.trans h.config,by rw [hp]; exact h.persisted⟩

theorem FileState.Upholds.foldl_gather {r : Rules} {Q : Query → Prop}
    {P : Query → Cache.Entry → Prop} {rel : String} {profile : Option TsConfig.Profile}
    (xs : List Settled) {f : FileState} (h : f.Upholds r Q P rel profile) :
    (xs.foldl Settled.gather f).Upholds r Q P rel profile := by
  induction xs generalizing f with
  | nil => exact h
  | cons x xs ih => exact ih (h.gather x)

/-- What is kept of specifiers; of one that was written in several ways, the last outcome. -/
def entriesOf (xs : List Settled) : Table Cache.Entry :=
  xs.foldl (fun t x => t.insert x.query.spec x.entry) Table.empty

theorem find?_of_foldl_insert {xs : List Settled} {t : Table Cache.Entry} {spec : String}
    {e : Cache.Entry}
    (h : (xs.foldl (fun t x => t.insert x.query.spec x.entry) t).find? spec = some e) :
    t.find? spec = some e ∨ ∃ x ∈ xs, x.query.spec = spec ∧ x.entry = e := by
  induction xs generalizing t with
  | nil => exact .inl h
  | cons x xs ih =>
    rcases ih h with h | ⟨y,hy,hs,he⟩
    · rw [Table.find?_insert] at h
      split at h
      · next hs => exact .inr ⟨x,.head _,hs.symm,Option.some.inj h⟩
      · exact .inl h
    · exact .inr ⟨y,.tail _ hy,hs,he⟩

theorem exists_of_entriesOf {xs : List Settled} {spec : String} {e : Cache.Entry}
    (h : (entriesOf xs).find? spec = some e) : ∃ x ∈ xs, x.query.spec = spec ∧ x.entry = e := by
  rcases find?_of_foldl_insert h with h | h
  · simp at h
  · exact h

theorem isSome_foldl_insert {xs : List Settled} {t : Table Cache.Entry} {spec : String}
    (h : (t.find? spec).isSome ∨ ∃ x ∈ xs, x.query.spec = spec) :
    ((xs.foldl (fun t x => t.insert x.query.spec x.entry) t).find? spec).isSome := by
  induction xs generalizing t with
  | nil => simpa using h
  | cons x xs ih =>
    apply ih
    rw [Table.find?_insert]
    by_cases hs : spec = x.query.spec
    · simp [hs]
    · rcases h with h | ⟨y,hy,he⟩
      · simp [hs,h]
      · rcases List.mem_cons.mp hy with rfl | hy
        · exact absurd he.symm hs
        · exact .inr ⟨y,hy,he⟩

/-- Whatever was settled is kept. -/
theorem exists_entry_of_mem {xs : List Settled} {x : Settled} (h : x ∈ xs) :
    ∃ e, (entriesOf xs).find? x.query.spec = some e :=
  Option.isSome_iff_exists.mp (isSome_foldl_insert (.inr ⟨x,h,rfl⟩))

theorem gather_next (xs : List Settled) (f : FileState) :
    (xs.foldl Settled.gather f).next =
      f.next.map fun t => xs.foldl (fun t x => t.insert x.query.spec x.entry) t := by
  induction xs generalizing f with
  | nil => simp
  | cons x xs ih =>
    rw [List.foldl_cons,ih]
    cases h : x.fate <;> simp [Settled.gather,Settled.link,h,Function.comp_def]

/-- The importer's outcomes, for those that have a digest of their content. -/
def FileRecord.keep (r : Rules) (hashes : Table String) (files : Table Cache.FileEntry)
    (x : FileRecord) : Table Cache.FileEntry :=
  match hashes.find? x.rel with
  | some hash => files.insert x.rel ⟨hash,stamp (profileFor r x.rel x.raws),entriesOf x.settled⟩
  | none => files

/-- What is kept of an importer was kept before, or is what the importer came to. -/
theorem exists_of_keep {r : Rules} {hashes : Table String} {xs : List FileRecord}
    {files : Table Cache.FileEntry} {rel : String} {f : Cache.FileEntry}
    (h : (xs.foldl (FileRecord.keep r hashes) files).find? rel = some f) :
    files.find? rel = some f ∨ ∃ x ∈ xs, x.rel = rel ∧ hashes.find? rel = some f.hash ∧
      f.configFingerprint = stamp (profileFor r rel x.raws) ∧ f.specs = entriesOf x.settled := by
  induction xs generalizing files with
  | nil => exact .inl h
  | cons x xs ih =>
    rcases ih h with hk | ⟨y,hy,hr⟩
    · unfold FileRecord.keep at hk
      split at hk
      · next hash hh =>
        rw [Table.find?_insert] at hk
        split at hk
        · next hr =>
          subst hr
          obtain rfl := Option.some.inj hk
          exact .inr ⟨x,.head _,rfl,hh,rfl,rfl⟩
        · exact .inl hk
      · exact .inl hk
    · exact .inr ⟨y,.tail _ hy,hr⟩

/-- An importer found in the cache has the content that it had. -/
theorem openCached_hash {rel : String} {hash config : Option String}
    {cache : Option Cache.Persisted} {usage : Option CacheUsage} {f : Cache.FileEntry}
    (h : (openCached rel hash config cache usage).1 = some f) : hash = some f.hash := by
  cases usage with
  | none => simp [openCached] at h
  | some usage =>
    simp only [openCached,openFile] at h
    split at h
    · next c hashed =>
      split at h
      · next g hg =>
        obtain ⟨-,hc⟩ := Option.filter_eq_some_iff.mp hg
        obtain rfl := Option.some.inj h
        rw [beq_iff_eq.mp (Bool.and_eq_true_iff.mp hc).1]
      · split at h <;> cases h
    · cases h

/-- The queries that a run puts for an importer. -/
def queriesOf (r : Rules) (item : String × List String) : List Query :=
  ((specifiersOf item.2).filter fun raw => Specifier.normalize raw ≠ "").map
    (.of (Importer.of item.1) (profileFor r item.1 (specifiersOf item.2)))

/-- What holds of a run between two importers. -/
structure Progress.Upholds (r : Rules) (hashes : Table String) (Q : Query → Prop)
    (P : Query → Cache.Entry → Prop) (p : Progress) : Prop where
  state : p.state.Upholds r Q P
  cache : ∀ c, p.cache = some c → ∀ rel f, c.files.find? rel = some f →
    Serves r hashes Q P rel f

/-- What is gathered for an importer starts out empty, where it is kept at all. -/
theorem enterFile_next (r : Rules) (hashes : Table String) (p : Progress)
    (item : String × List String) :
    (enterFile r hashes p item).2.1.next =
      if p.cache.isSome && (hashes.find? item.1).isSome then some Table.empty else none := rfl

theorem keepFile_eq (r : Rules) (hashes : Table String) (c : Cache.Persisted) (x : FileRecord)
    {f : FileState} (hf : f.configFingerprint = stamp (profileFor r x.rel x.raws))
    (hn : f.next = if (hashes.find? x.rel).isSome then some (entriesOf x.settled) else none) :
    keepFile x.rel (hashes.find? x.rel) f c = { c with files := x.keep r hashes c.files } := by
  unfold keepFile FileRecord.keep
  cases hh : hashes.find? x.rel with
  | none => rfl
  | some hash => simp [hn,hh,hf]

theorem Progress.Upholds.enter {r : Rules} {hashes : Table String} {Q : Query → Prop}
    {P : Query → Cache.Entry → Prop} {p : Progress} (hp : p.Upholds r hashes Q P)
    (item : String × List String) :
    let t := enterFile r hashes p item
    t.1 = profileFor r item.1 (specifiersOf item.2) ∧ t.2.1.Upholds r Q P item.1 t.1 ∧
      t.2.2.Upholds r Q P := by
  have hconfigs := TsConfig.Loader.find_eq hp.state.configs item.1
  have hf : (configOf r (Importer.of item.1) (specifiersOf item.2)
      { p.state with graph := (p.state.graph.addNode (fileNodeId item.1) .file).2 }).1 =
        profileFor r item.1 (specifiersOf item.2) ∧
      (configOf r (Importer.of item.1) (specifiersOf item.2)
      { p.state with graph := (p.state.graph.addNode (fileNodeId item.1) .file).2 }).2.Upholds
        r Q P := by
    unfold configOf profileFor
    split
    · exact ⟨hconfigs.1,hconfigs.2,hp.state.packages,hp.state.memory⟩
    · exact ⟨rfl,hp.state.configs,hp.state.packages,hp.state.memory⟩
  obtain ⟨hf,ht⟩ := hf
  simp only [enterFile]
  generalize configOf r (Importer.of item.1) (specifiersOf item.2) _ = found at hf ht ⊢
  obtain ⟨profile,s⟩ := found
  simp only at hf ht ⊢
  refine ⟨hf,⟨rfl,?_⟩,ht.configs,ht.packages,ht.memory⟩
  intro f hfile q entry hq hrel hprofile he hv
  obtain ⟨c,hc,hfind,hstamp⟩ := openCached_find hfile
  exact hp.cache c hc item.1 f hfind q entry hq hrel (openCached_hash hfile)
    (by rw [hstamp,hprofile]; rfl) he hv

section Runs
variable {r : Rules} {Q : Query → Prop} {P : Query → Cache.Entry → Prop} (h : Upkeep r Q P)
include h

theorem Upkeep.step {q : Query} (hq : Q q) {f : FileState}
    (hf : f.Upholds r Q P q.importer.rel q.profile) {s : State} (hs : s.Upholds r Q P) :
    P q (settled r q f s).entry ∧ (∃ entry e, Filed r q e entry (settled r q f s).entry) ∧
      (resolveSpec r q f s).2.Upholds r Q P := by
  obtain ⟨⟨entry,e,ho,hfiled⟩,hp,hc,hm⟩ := resolveSpec_origin hf.config hs.packages
    fun e he => h.whole q e hq (hs.memory _ e he q hq rfl)
  have hx : P q (settled r q f s).entry := by
    cases ho with
    | kept hp he hv => exact h.refiled q _ _ hq (hf.persisted _ hp q _ hq rfl rfl he hv) hfiled
    | recalled he hl => exact h.refiled q _ _ hq (hs.memory _ _ he q hq rfl) hfiled
    | computed ht => exact h.computed q _ _ hq ht hfiled
  refine ⟨hx,⟨entry,e,hfiled⟩,⟨by rw [hc]; exact hs.configs,hp,?_⟩⟩
  intro k d hd u hu hk
  rcases hm k d hd with hd | ⟨rfl,rfl⟩
  · exact hs.memory k d hd u hu hk
  · exact h.shared q u _ hq hu hk.symm hx

theorem Upkeep.raws {rel : String} {profile : Option TsConfig.Profile} {raws : List String}
    (hq : ∀ raw ∈ raws, Specifier.normalize raw ≠ "" → Q (.of (Importer.of rel) profile raw))
    (acc : FileState × State) (hf : acc.1.Upholds r Q P rel profile) (hs : acc.2.Upholds r Q P) :
    (∀ x ∈ settledRaws r (Importer.of rel) profile raws acc,
        P x.query x.entry ∧ ∃ entry e, Filed r x.query e entry x.entry) ∧
      (raws.foldl (resolveRaw r (Importer.of rel) profile) acc).2.Upholds r Q P := by
  induction raws generalizing acc with
  | nil => exact ⟨by simp [settledRaws],hs⟩
  | cons raw rest ih =>
    have hrest := fun other ho => hq other (.tail _ ho)
    by_cases hn : Specifier.normalize raw = ""
    · have ht : (acc.2.normalized false).Upholds r Q P := ⟨hs.configs,hs.packages,hs.memory⟩
      have hk := ih hrest (acc.1,acc.2.normalized false) hf ht
      simpa [settledRaws,resolveRaw,hn] using hk
    · have ht : (acc.2.normalized true).Upholds r Q P := ⟨hs.configs,hs.packages,hs.memory⟩
      obtain ⟨hx,hfiled,hu⟩ := h.step (hq raw (.head _) hn) hf ht
      obtain ⟨hg,-,-⟩ := resolveSpec_step r (.of (Importer.of rel) profile raw) acc.1 acc.2
      obtain ⟨hk,hl⟩ := ih hrest (resolveSpec r (.of (Importer.of rel) profile raw) acc.1
        (acc.2.normalized true)) (by rw [hg]; exact hf.gather _) hu
      simp only [settledRaws,resolveRaw,hn,if_false,List.foldl_cons]
      refine ⟨?_,hl⟩
      intro x hm
      rcases List.mem_cons.mp hm with rfl | hm
      · exact ⟨hx,hfiled⟩
      · exact hk x hm

/-- An importer's specifiers are settled as `P` says, and so they are kept. -/
theorem Upkeep.file {hashes : Table String} {p : Progress} (hp : p.Upholds r hashes Q P)
    {item : String × List String} (hq : ∀ q ∈ queriesOf r item, Q q) :
    let x := recordOf r hashes p item
    let t := resolveFile r hashes p item
    x.settled.map (·.query) = queriesOf r item ∧
      (∀ y ∈ x.settled, P y.query y.entry ∧ ∃ entry e, Filed r y.query e entry y.entry) ∧
      t.cache = p.cache.map (fun c => { c with files := x.keep r hashes c.files }) ∧
      t.state.Upholds r Q P := by
  obtain ⟨hprofile,hf,hs⟩ := hp.enter item
  have hnext := enterFile_next r hashes p item
  unfold recordOf resolveFile
  generalize enterFile r hashes p item = entered at hprofile hf hs hnext ⊢
  obtain ⟨profile,f,s⟩ := entered
  simp only at hprofile hf hs hnext ⊢
  subst hprofile
  have hraw : ∀ raw ∈ specifiersOf item.2, Specifier.normalize raw ≠ "" →
      Q (.of (Importer.of item.1) (profileFor r item.1 (specifiersOf item.2)) raw) := by
    intro raw hr hn
    exact hq _ (List.mem_map.mpr ⟨raw,List.mem_filter.mpr ⟨hr,by simpa using hn⟩,rfl⟩)
  obtain ⟨hx,ht⟩ := h.raws hraw (f,s) hf hs
  have hquery := query_settledRaws r (Importer.of item.1)
    (profileFor r item.1 (specifiersOf item.2)) (specifiersOf item.2) (f,s)
  obtain ⟨hgather,-,-⟩ := settledRaws_run r (Importer.of item.1)
    (profileFor r item.1 (specifiersOf item.2)) (specifiersOf item.2) (f,s)
  refine ⟨hquery,hx,?_,ht⟩
  rw [hgather]
  generalize settledRaws r _ _ (specifiersOf item.2) (f,s) = xs
  apply Option.map_congr
  intro c hc
  refine keepFile_eq r hashes c ⟨item.1,specifiersOf item.2,xs⟩ (hf.foldl_gather xs).config ?_
  rw [gather_next,hnext,show p.cache = some c from hc]
  cases hashes.find? item.1 <;> rfl

omit h in
theorem keeps_of_record {x : FileRecord} {item : String × List String}
    (hrel : x.rel = item.1) (hraws : x.raws = specifiersOf item.2)
    (hquery : x.settled.map (·.query) = queriesOf r item) (hq : ∀ q ∈ queriesOf r item, Q q)
    (hx : ∀ y ∈ x.settled, P y.query y.entry) {f : Cache.FileEntry}
    (hc : f.configFingerprint = stamp (profileFor r x.rel x.raws))
    (hs : f.specs = entriesOf x.settled) : Keeps Q P x.rel f := by
  intro spec entry he
  rw [hs] at he
  obtain ⟨y,hy,hspec,rfl⟩ := exists_of_entriesOf he
  have hm : y.query ∈ queriesOf r item := hquery ▸ List.mem_map_of_mem hy
  refine ⟨y.query,hq _ hm,?_,hspec,?_,hx y hy⟩
  · obtain ⟨raw,-,hraw⟩ := List.mem_map.mp hm
    rw [← hraw,hrel]
    rfl
  · obtain ⟨raw,-,hraw⟩ := List.mem_map.mp hm
    rw [hc,← hraw,hrel,hraws]
    rfl

/-- A run settles every specifier as `P` says, and what it leaves is what its importers came to. -/
theorem Upkeep.run {hashes : Table String} {items : List (String × List String)}
    (hq : ∀ item ∈ items, ∀ q ∈ queriesOf r item, Q q) {p : Progress}
    (hp : p.Upholds r hashes Q P) :
    let xs := recordsOf r hashes items p
    let t := items.foldl (resolveFile r hashes) p
    (xs.map fun x => (x.rel,x.raws,x.settled.map (·.query))) =
        (items.map fun item => (item.1,specifiersOf item.2,queriesOf r item)) ∧
      (∀ x ∈ xs, ∀ y ∈ x.settled, P y.query y.entry ∧ ∃ entry e, Filed r y.query e entry y.entry) ∧
      t.cache = p.cache.map fun c => { c with files := xs.foldl (FileRecord.keep r hashes) c.files } := by
  induction items generalizing p with
  | nil => exact ⟨rfl,by simp [recordsOf],by simp [recordsOf]⟩
  | cons item rest ih =>
    have hitem := hq item (.head _)
    obtain ⟨hquery,hx,hc,hs⟩ := h.file hp hitem
    have ht : (resolveFile r hashes p item).Upholds r hashes Q P := by
      refine ⟨hs,?_⟩
      intro c hm rel f hf
      rw [hc] at hm
      obtain ⟨d,hd,rfl⟩ := Option.map_eq_some_iff.mp hm
      have hf : ([recordOf r hashes p item].foldl (FileRecord.keep r hashes) d.files).find? rel =
        some f := hf
      rcases exists_of_keep hf with hf | ⟨x,hm,rfl,-,hconfig,hspecs⟩
      · exact hp.cache d hd rel f hf
      · obtain rfl := List.mem_singleton.mp hm
        exact h.serves (keeps_of_record rfl rfl hquery hitem (fun y hy => (hx y hy).1) hconfig hspecs)
          hashes
    obtain ⟨kq,kx,kc⟩ := ih (fun other ho => hq other (.tail _ ho)) ht
    refine ⟨?_,?_,?_⟩
    · rw [recordsOf,List.map_cons,List.map_cons,kq,hquery]
      rfl
    · intro x hm
      rcases List.mem_cons.mp hm with rfl | hm
      · exact hx
      · exact kx x hm
    · rw [List.foldl_cons,kc,hc,Option.map_map]
      rfl

end Runs

/-- Outcomes are whole, wherever they come from. -/
theorem upkeep_isWhole (r : Rules) (Q : Query → Prop) : Upkeep r Q fun _ entry => entry.IsWhole where
  whole _ _ _ hw := hw
  shared _ _ _ _ _ _ hw := hw
  refiled _ _ _ _ hw hf := hf.isWhole hw
  computed q _ _ _ _ hf := hf.isWhole (freshEntry_isWhole r q)

/-- Where keys are told apart, queries of one place in memory differ in their spelling alone. -/
theorem Asks.eq_of_slot {r : Rules} {pairs : List (String × String)} (ha : Cache.Apart pairs)
    {q u : Query} (hq : Asks r pairs q) (hu : Asks r pairs u) (h : q.slot = u.slot) :
    u = { q with raw := u.raw } := by
  obtain ⟨hj,hp⟩ := Cache.key_inj h hq.profile.nullChar_not_mem hu.profile.nullChar_not_mem
  obtain ⟨hi,hs⟩ := Prod.mk.inj (ha _ hq.mem _ hu.mem hj)
  have hprofile := hq.profile.eq_of_stamp (hi ▸ hu.profile) hp
  have himporter := hq.importer
  rw [hi,← hu.importer] at himporter
  cases q
  cases u
  simp_all

namespace Request
variable (q : Request)

/-- The queries that a run puts. -/
def queries : List Query := (importersOf q.imports).flatMap (queriesOf q.ruled)

theorem opened_upholds {Q : Query → Prop} {P : Query → Cache.Entry → Prop}
    (hc : ∀ c, q.opened.cache = some c → ∀ rel f, c.files.find? rel = some f →
      Serves q.ruled q.hashes Q P rel f) : q.opened.Upholds q.ruled q.hashes Q P where
  state := ⟨TsConfig.Loader.isTrue_empty _ _,PackageEntries.isTrue_empty _ _ _,
    fun key e he => by simp [opened,start,Cache.Memory.ofCapacity] at he⟩
  cache := hc

theorem mem_queries {item : String × List String} (hi : item ∈ importersOf q.imports) {u : Query}
    (hu : u ∈ queriesOf q.ruled item) : u ∈ q.queries :=
  List.mem_flatMap.mpr ⟨item,hi,hu⟩

/-- What a run upholds, from a cache that does no harm. -/
theorem upheld {P : Query → Cache.Entry → Prop} (h : Upkeep q.ruled (· ∈ q.queries) P)
    (hc : ∀ c, q.opened.cache = some c → ∀ rel f, c.files.find? rel = some f →
      Serves q.ruled q.hashes (· ∈ q.queries) P rel f) :
    ∀ x ∈ q.settled, P x.query x.entry := by
  intro x hx
  obtain ⟨record,hr,hx⟩ := List.mem_flatMap.mp hx
  exact ((h.run (fun _ hi _ hu => q.mem_queries hi hu) (q.opened_upholds hc)).2.1 record hr x hx).1

/-- A run puts its queries, files their outcomes, and leaves of its importers what they came to. -/
theorem trace_queries :
    (q.trace.map fun x => (x.rel,x.raws,x.settled.map (·.query))) =
        ((importersOf q.imports).map fun item =>
          (item.1,specifiersOf item.2,queriesOf q.ruled item)) ∧
      (∀ x ∈ q.trace, ∀ y ∈ x.settled, y.entry.IsWhole ∧
        ∃ entry e, Filed q.ruled y.query e entry y.entry) ∧
      q.closed.cache = q.opened.cache.map fun c =>
        { c with files := q.trace.foldl (FileRecord.keep q.ruled q.hashes) c.files } :=
  (upkeep_isWhole q.ruled (· ∈ q.queries)).run (fun _ hi _ hu => q.mem_queries hi hu)
    (q.opened_upholds fun _ _ _ _ _ _ _ _ _ _ _ _ hv => isWhole_of_isStillValid hv)

/-- The importers of a trace are those that the run goes through. -/
theorem trace_importers : q.trace.map (·.rel) = q.importers := by
  simpa [Function.comp_def,importers] using congrArg (List.map Prod.fst) q.trace_queries.1

variable {q} in
theorem exists_item_of_mem_trace {x : FileRecord} (hx : x ∈ q.trace) :
    ∃ item ∈ importersOf q.imports, x.rel = item.1 ∧ x.raws = specifiersOf item.2 ∧
      x.settled.map (·.query) = queriesOf q.ruled item := by
  obtain ⟨item,hi,he⟩ := List.mem_map.mp (q.trace_queries.1 ▸ List.mem_map_of_mem hx)
  exact ⟨item,hi,by simpa [eq_comm] using he⟩

variable {q} in
theorem exists_record_of_mem {item : String × List String} (hi : item ∈ importersOf q.imports) :
    ∃ x ∈ q.trace, x.rel = item.1 ∧ x.raws = specifiersOf item.2 ∧
      x.settled.map (·.query) = queriesOf q.ruled item := by
  obtain ⟨x,hx,he⟩ := List.mem_map.mp (q.trace_queries.1 ▸ List.mem_map_of_mem hi)
  exact ⟨x,hx,by simpa using he⟩

theorem settled_queries : q.settled.map (·.query) = q.queries := by
  have h := congrArg (List.flatMap fun a => a.2.2) q.trace_queries.1
  simpa [settled,queries,List.flatMap_map,List.map_flatMap] using h

theorem mem_queries_of_mem_settled {x : Settled} (hx : x ∈ q.settled) : x.query ∈ q.queries := by
  rw [← q.settled_queries]
  exact List.mem_map_of_mem hx

/-- The queries of a run, with the specifiers in their normal form. -/
theorem asks_of_mem_queries {u : Query} (hu : u ∈ q.queries) :
    Asks q.ruled q.normalized u ∧ u.spec = Specifier.normalize u.raw := by
  obtain ⟨item,hi,hu⟩ := List.mem_flatMap.mp hu
  obtain ⟨raw,hr,rfl⟩ := List.mem_map.mp hu
  obtain ⟨hr,hn⟩ := List.mem_filter.mp hr
  have hn : Specifier.normalize raw ≠ "" := by simpa using hn
  exact ⟨⟨q.mem_normalized hi hr hn,rfl,hn,governs_profileFor _ _ _⟩,rfl⟩

theorem settled_filed {x : Settled} (hx : x ∈ q.settled) :
    x.entry.IsWhole ∧ ∃ entry e, Filed q.ruled x.query e entry x.entry := by
  obtain ⟨record,hr,hx⟩ := List.mem_flatMap.mp hx
  exact q.trace_queries.2.1 record hr x hx

end Request
end Run
end ImportResolution
