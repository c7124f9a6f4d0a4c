import ImportResolution.Proofs.Assembly
import ImportResolution.Proofs.Upkeep

/-! Runs one after the other, each over its own request and with the cache that the run before it
left. What a run finds in its cache is what runs before it came to: the files that they listed, and
the outcomes of their importers. -/
namespace ImportResolution.Run

-- No text is computed here, and no unifier should try to.
attribute [local irreducible] String.toList

/-- The request with the cache that its run starts from. -/
def Request.seeded (q : Request) (cache : Option Cache.Persisted) : Request := { q with cache }

/-- The requests as they are run, each with the cache of the run before. -/
def runs : Option Cache.Persisted → List Request → List Request
  | _, [] => []
  | c, q :: rest => q.seeded c :: runs (execute (q.seeded c)).cache rest

/-- The cache that the last run leaves. -/
def cacheAfter (c : Option Cache.Persisted) (qs : List Request) : Option Cache.Persisted :=
  qs.foldl (fun c q => (execute (q.seeded c)).cache) c

/-- Before any run a cache holds nothing of importers. -/
theorem find?_of_new {cache : Option Cache.Persisted} (h : cache = none ∨ cache = some .new)
    {c : Cache.Persisted} (hc : cache = some c) (rel : String) : c.files.find? rel = none := by
  subst hc
  rcases h with h | h
  · cases h
  · obtain rfl := Option.some.inj h
    rfl

theorem exists_of_mem_runs {c : Option Cache.Persisted} {qs : List Request} {t : Request}
    (h : t ∈ runs c qs) : ∃ q ∈ qs, ∃ d, t = q.seeded d := by
  induction qs generalizing c with
  | nil => simp [runs] at h
  | cons q rest ih =>
    rcases List.mem_cons.mp h with rfl | h
    · exact ⟨q,.head _,c,rfl⟩
    · obtain ⟨u,hu,ht⟩ := ih h
      exact ⟨u,.tail _ hu,ht⟩

/-- What holds before the first run and is kept by every run holds after the last. -/
theorem runs_induction {I : List Request → Option Cache.Persisted → Prop}
    {c : Option Cache.Persisted} {qs : List Request} (h : I [] c)
    (hs : ∀ done d, ∀ q ∈ qs, I done d → I (done ++ [q.seeded d]) (execute (q.seeded d)).cache) :
    I (runs c qs) (cacheAfter c qs) := by
  have hk : ∀ done d (rest : List Request), (∀ q ∈ rest, q ∈ qs) → I done d →
      I (done ++ runs d rest) (cacheAfter d rest) := by
    intro done d rest hr hi
    induction rest generalizing done d with
    | nil => simpa [runs,cacheAfter] using hi
    | cons q rest ih =>
      have hn := ih _ _ (fun u hu => hr u (.tail _ hu)) (hs done d q (hr q (.head _)) hi)
      simpa [runs,cacheAfter] using hn
  simpa using hk [] c qs (fun _ hq => hq) h

namespace Request
variable (q : Request)

theorem cache_eq : (execute q).cache = q.closed.cache := rfl

variable {q} in
theorem mem_edges {e : Edge} :
    e ∈ (execute q).parts.edges ↔ e ∈ q.closed.state.graph.edges := by
  simp [execute_eq,finish,GraphBuilder.finish]

variable {q} in
theorem mem_warnings {w : Warning} :
    w ∈ (execute q).parts.warnings ↔ w ∈ q.closed.state.graph.warnings := by
  simp [execute_eq,finish,GraphBuilder.finish]

/-- The cache that a run opens holds of importers no more than the one that it was given. -/
theorem exists_of_opened {d : Cache.Persisted} (hd : q.opened.cache = some d) :
    d.lookup = some (Snapshot.of q.root q.fileSet.fingerprint q.ruled.files.files) ∧
      ∀ rel f, d.files.find? rel = some f →
        ∃ c, q.cache = some c ∧ c.files.find? rel = some f := by
  unfold opened start openCache at hd
  cases hc : q.cache with
  | none => simp [hc] at hd
  | some c =>
    simp only [hc,Option.map_some,Option.some.injEq] at hd
    subst hd
    refine ⟨rfl,?_⟩
    intro rel f hf
    exact ⟨c,rfl,(invalidateStale_find hf).1⟩

/-- The cache that a run leaves holds of an importer what it held before or what its specifiers came
to. -/
theorem exists_of_cache {d : Cache.Persisted} (hd : (execute q).cache = some d) :
    d.lookup = some (Snapshot.of q.root q.fileSet.fingerprint q.ruled.files.files) ∧
      ∀ rel f, d.files.find? rel = some f →
        (∃ c, q.cache = some c ∧ c.files.find? rel = some f) ∨
          q.hashes.find? rel = some f.hash ∧
            Keeps (· ∈ q.queries) (fun u e => ⟨u,e⟩ ∈ q.settled) rel f := by
  obtain ⟨-,-,hcache⟩ := q.trace_queries
  rw [q.cache_eq,hcache] at hd
  obtain ⟨c,hc,rfl⟩ := Option.map_eq_some_iff.mp hd
  obtain ⟨hl,hf⟩ := q.exists_of_opened hc
  refine ⟨hl,?_⟩
  intro rel f h
  rcases exists_of_keep h with h | ⟨x,hx,rfl,hh,hconfig,hspecs⟩
  · exact .inl (hf rel f h)
  · obtain ⟨item,hi,hrel,hraws,hquery⟩ := exists_item_of_mem_trace hx
    refine .inr ⟨hh,keeps_of_record hrel hraws hquery (fun _ hu => q.mem_queries hi hu) ?_
      hconfig hspecs⟩
    exact fun y hy => List.mem_flatMap.mpr ⟨x,hx,hy⟩

/-- What each step of a run respects holds of all that the run settles and leaves, if it held of all
that was kept before. -/
theorem keeps_execute {P : Query → Cache.Entry → Prop} (h : Upkeep q.ruled (· ∈ q.queries) P)
    (hc : ∀ c, q.cache = some c → ∀ rel f, c.files.find? rel = some f →
      Keeps (· ∈ q.queries) P rel f) :
    (∀ x ∈ q.settled, P x.query x.entry) ∧
      ∀ d, (execute q).cache = some d → ∀ rel f, d.files.find? rel = some f →
        Keeps (· ∈ q.queries) P rel f := by
  have hx : ∀ x ∈ q.settled, P x.query x.entry := by
    apply q.upheld h
    intro d hd rel f hf
    obtain ⟨c,hk,hf⟩ := (q.exists_of_opened hd).2 rel f hf
    exact h.serves (hc c hk rel f hf) q.hashes
  refine ⟨hx,?_⟩
  intro d hd rel f hf
  rcases (q.exists_of_cache hd).2 rel f hf with ⟨c,hk,hf⟩ | ⟨-,hf⟩
  · exact hc c hk rel f hf
  · exact hf.imp fun u e _ hm => hx ⟨u,e⟩ hm

theorem exists_of_storedFiles? {root fingerprint : String} {cache : Option Cache.Persisted}
    {files : FileSet} (h : storedFiles? root fingerprint cache = some files) :
    ∃ c s, cache = some c ∧ c.lookup = some s ∧ s.fileSetFingerprint = fingerprint ∧
      files = FileSet.ofList s.files := by
  obtain ⟨s,hs,hr⟩ := Option.bind_eq_some_iff.mp h
  obtain ⟨hs,hf⟩ := Option.filter_eq_some_iff.mp hs
  obtain ⟨c,hc,hl⟩ := Option.bind_eq_some_iff.mp hs
  refine ⟨c,s,hc,hl,beq_iff_eq.mp hf,?_⟩
  unfold Snapshot.restore? at hr
  split at hr
  · exact (Option.some.inj hr).symm
  · cases hr

/-- The index of a cache was made of files that one of the requests lists. -/
def IsListed (ts : List Request) (cache : Option Cache.Persisted) : Prop :=
  ∀ c s, cache = some c → c.lookup = some s →
    ∃ t ∈ ts, s.files = t.fileSet.paths ∧ s.fileSetFingerprint = t.fileSet.fingerprint

theorem isListed_of_new {cache : Option Cache.Persisted} (h : cache = none ∨ cache = some .new) :
    IsListed [] cache := by
  rintro c s rfl hs
  rcases h with h | h
  · cases h
  · obtain rfl := Option.some.inj h
    cases hs

/-- A run goes by the files that it lists, or by those of another with the same fingerprint. -/
theorem ruled_files {ts : List Request} (h : IsListed ts q.cache) :
    ∃ t ∈ ts ++ [q], t.fileSet.fingerprint = q.fileSet.fingerprint ∧
      q.ruled.files = FileIndex.of t.fileSet := by
  unfold ruled
  cases hs : storedFiles? q.root q.fileSet.fingerprint q.cache with
  | none => exact ⟨q,by simp,rfl,rfl⟩
  | some files =>
    obtain ⟨c,s,hc,hl,hf,rfl⟩ := exists_of_storedFiles? hs
    obtain ⟨t,ht,hp,hk⟩ := h c s hc hl
    refine ⟨t,List.mem_append_left _ ht,hk.symm.trans hf,?_⟩
    rw [hp,FileSet.ofList_paths]
    rfl

theorem isListed_execute {ts : List Request} (h : IsListed ts q.cache) :
    IsListed (ts ++ [q]) (execute q).cache := by
  intro c s hc hs
  obtain ⟨t,ht,hf,hr⟩ := q.ruled_files h
  obtain rfl := Option.some.inj ((q.exists_of_cache hc).1.symm.trans hs)
  refine ⟨t,ht,?_,hf.symm⟩
  rw [hr]
  rfl

theorem isListed_cacheAfter {c : Option Cache.Persisted} (hc : c = none ∨ c = some .new)
    (qs : List Request) : IsListed (runs c qs) (cacheAfter c qs) :=
  runs_induction (I := IsListed) (isListed_of_new hc) fun _ _ q _ h => (q.seeded _).isListed_execute h

/-- As long as fingerprints tell file sets apart, a run goes by the files that it lists. -/
theorem ruled_of_isListed {ts : List Request} (h : IsListed ts q.cache)
    (hf : ∀ t ∈ ts, t.fileSet.fingerprint = q.fileSet.fingerprint → t.fileSet = q.fileSet) :
    q.ruled = q.rules q.fileSet (Manifest.facts q.view q.root) := by
  obtain ⟨t,ht,hk,hr⟩ := q.ruled_files h
  have hs : t.fileSet = q.fileSet := by
    rcases List.mem_append.mp ht with ht | ht
    · exact hf t ht hk
    · rw [List.mem_singleton.mp ht]
  rw [hs] at hr
  have hfiles := congrArg FileIndex.files hr
  exact congrArg (fun files => q.rules files (Manifest.facts q.view q.root)) hfiles

theorem ruled_cacheAfter {c : Option Cache.Persisted} (hc : c = none ∨ c = some .new)
    {qs : List Request}
    (hf : ∀ t ∈ qs, t.fileSet.fingerprint = q.fileSet.fingerprint → t.fileSet = q.fileSet) :
    (q.seeded (cacheAfter c qs)).ruled = q.rules q.fileSet (Manifest.facts q.view q.root) := by
  refine (q.seeded (cacheAfter c qs)).ruled_of_isListed (isListed_cacheAfter hc qs) ?_
  intro t ht hk
  obtain ⟨u,hu,d,rfl⟩ := exists_of_mem_runs ht
  exact hf u hu hk

end Request
end ImportResolution.Run
