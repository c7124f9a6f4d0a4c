import ImportResolution.Proofs.Parts
import ImportResolution.Proofs.Sequence

/-! Changed file sets. The digest of a file set tells sets apart whose names have no bars, and then
a run over other files than those of its cache says so and starts over; a name with a bar may pass
for two names. -/
namespace ImportResolution

namespace FileSet

/-- The bytes that the fingerprint of a file set is made of. -/
def message (f : FileSet) : List UInt8 := Digest.message schema f.paths

theorem fingerprint_eq (f : FileSet) : f.fingerprint = Digest.sha256 f.message := rfl

def IsLegible (f : FileSet) : Prop := ∀ p ∈ f.paths, '|' ∉ p.toList

instance (f : FileSet) : Decidable f.IsLegible :=
  inferInstanceAs (Decidable (∀ p ∈ f.paths, '|' ∉ p.toList))

theorem IsLegible.eq_of_message {f g : FileSet} (hf : f.IsLegible) (hg : g.IsLegible)
    (h : f.message = g.message) : f = g :=
  ext (Digest.encodeParts_inj (Digest.utf8_inj h) hf hg)

end FileSet

namespace Run

-- No text is computed here, and no unifier should try to.
attribute [local irreducible] String.toList

/-- What a run finds out of its cache when it opens it, without what it counts later. -/
def CacheUsage.opening (u : CacheUsage) : CacheUsage :=
  { u with
    files := 0, filesHashed := 0, filesReused := 0, filesInvalidated := 0
    specs := 0, specsReused := 0, specsComputed := 0 }

def State.opening (s : State) : Option CacheUsage := s.cacheUsage.map CacheUsage.opening

section Steps
variable (r : Rules)

theorem resolveSpec_opening (q : Query) (f : FileState) (s : State) :
    (resolveSpec r q f s).2.opening = s.opening := by
  obtain ⟨reused,memory,hs⟩ := outcome_searched r q { purse := Purse.of r.policy } s f
  unfold resolveSpec
  generalize outcome r q f { purse := Purse.of r.policy } s = found at hs ⊢
  obtain ⟨entry,key,e,t⟩ := found
  obtain ⟨-,-,hc⟩ := settle_counts r q key e t entry f
  have hu : (settle r q entry key e f t).2.2.cacheUsage = (s.countSpec reused).cacheUsage :=
    hc.cacheUsage.trans hs.cacheUsage
  simp only [State.opening,hu,State.countSpec,Option.map_map]
  cases reused <;> rfl

theorem resolveRaw_opening (importer : Importer) (profile : Option TsConfig.Profile)
    (acc : FileState × State) (raw : String) :
    (resolveRaw r importer profile acc raw).2.opening = acc.2.opening := by
  unfold resolveRaw
  dsimp only
  split
  · rfl
  · exact resolveSpec_opening r _ _ _

theorem openCached_opening (rel : String) (hash config : Option String)
    (c : Option Cache.Persisted) (usage : Option CacheUsage) :
    (openCached rel hash config c usage).2.map CacheUsage.opening =
      usage.map CacheUsage.opening := by
  cases usage with
  | none => rfl
  | some usage =>
    simp only [openCached,openFile,Option.map_some]
    split
    · split
      · rfl
      · split <;> rfl
    · rfl

theorem enterFile_opening (hashes : Table String) (p : Progress) (item : String × List String) :
    (enterFile r hashes p item).2.2.opening = p.state.opening := by
  obtain ⟨configs,hc⟩ := configOf_state r (Importer.of item.1) (specifiersOf item.2)
    { p.state with graph := (p.state.graph.addNode (fileNodeId item.1) .file).2 }
  simp only [enterFile,hc,State.opening]
  exact openCached_opening item.1 _ _ p.cache p.state.cacheUsage

theorem resolveFile_opening (hashes : Table String) (p : Progress)
    (item : String × List String) :
    (resolveFile r hashes p item).state.opening = p.state.opening := by
  have hraws : ∀ (raws : List String) (importer : Importer) (profile : Option TsConfig.Profile)
      (acc : FileState × State),
      (raws.foldl (resolveRaw r importer profile) acc).2.opening = acc.2.opening := by
    intro raws importer profile acc
    induction raws generalizing acc with
    | nil => rfl
    | cons raw rest ih => rw [List.foldl_cons,ih,resolveRaw_opening]
  rw [← enterFile_opening r hashes p item]
  exact hraws _ _ _ _

/-- What a run finds out of its cache stays as it was found. -/
theorem foldl_opening (hashes : Table String) (items : List (String × List String))
    (p : Progress) :
    (items.foldl (resolveFile r hashes) p).state.opening = p.state.opening := by
  induction items generalizing p with
  | nil => rfl
  | cons item rest ih => rw [List.foldl_cons,ih,resolveFile_opening]

end Steps

/-- Where the file set is another one, nothing is kept. -/
theorem invalidateStale_of_changed {c : Cache.Persisted} (usage : CacheUsage)
    (package : Option String) {fileSet f : String} (key : String) (hv : c.isCompatible = true)
    (hf : c.fileSetFingerprint = some f) (hn : f ≠ fileSet) :
    ∃ packageInvalidated cacheKeyInvalidated,
      invalidateStale c usage package fileSet key =
        ({ c with files := Table.empty, lookup := none },
          { usage with packageInvalidated, fileSetInvalidated := true, cacheKeyInvalidated }) := by
  have hx : c.fileSetFingerprint.any (· != fileSet) = true := by simp [hf,hn]
  simp [invalidateStale,hv,hx]

namespace Request
variable {q t : Request}

/-- What a run with a cache leaves is of its own files. -/
structure IsOf (c : Cache.Persisted) (q : Request) : Prop where
  isCompatible : c.isCompatible = true
  fingerprint : c.fileSetFingerprint = some q.fileSet.fingerprint
  lookup : c.lookup = some (Snapshot.of q.root q.fileSet.fingerprint q.ruled.files.files)

theorem exists_isOf (h : q.cache.isSome = true) : ∃ c, (execute q).cache = some c ∧ IsOf c q := by
  obtain ⟨given,hg⟩ := Option.isSome_iff_exists.mp h
  have ho : ∃ c, q.opened.cache = some c ∧ IsOf c q := by
    unfold opened start openCache
    simp only [hg,Option.map_some]
    refine ⟨_,rfl,?_,rfl,rfl⟩
    simp only [invalidateStale]
    split
    · rfl
    · next hv =>
      have hv : given.isCompatible = true := by simpa using hv
      split <;> exact hv
  obtain ⟨c,hc,hof⟩ := ho
  rw [q.cache_eq,q.trace_queries.2.2,hc]
  exact ⟨_,rfl,hof.isCompatible,hof.fingerprint,hof.lookup⟩

/-- What a run says of its cache is what it found when it opened it. -/
theorem exists_usage {v : CacheUsage} (h : t.opened.state.cacheUsage = some v) :
    ∃ u, (execute t).cacheUsage = some u ∧ u.opening = v.opening := by
  have hu : t.closed.state.opening = t.opened.state.opening :=
    foldl_opening t.ruled t.hashes (importersOf t.imports) t.opened
  rw [State.opening,State.opening,h] at hu
  exact Option.map_eq_some_iff.mp hu

/-- A run that says that its files have changed, and takes over nothing. -/
structure StartsOver (t : Request) : Prop where
  usage : ∃ u, (execute t).cacheUsage = some u ∧ u.fileSetInvalidated = true ∧
    u.lookupReused = false ∧ u.lookupInvalidated = true
  cache : t.opened.cache = some (t.left Table.empty)
  files : t.ruled.files = FileIndex.of t.fileSet

theorem startsOver_of_isOf {c : Cache.Persisted} (hc : t.cache = some c) (h : IsOf c q)
    (hn : q.fileSet.fingerprint ≠ t.fileSet.fingerprint) : t.StartsOver := by
  have hstored : storedFiles? t.root t.fileSet.fingerprint t.cache = none := by
    simp [storedFiles?,hc,h.lookup,Option.filter_some,Snapshot.of,hn]
  have hruled : t.ruled = t.rules t.fileSet (Manifest.facts t.view t.root) := by
    rw [ruled,hstored]
    rfl
  obtain ⟨package,key,hi⟩ := invalidateStale_of_changed
    { prefetchedPaths := t.view.memo.prefetched, lookupReused := false, lookupInvalidated := true }
    (Manifest.facts t.view t.root).packageFingerprint t.key h.isCompatible h.fingerprint hn
  have ho : t.opened = t.start (some (t.left Table.empty,
      { prefetchedPaths := t.view.memo.prefetched
        lookupInvalidated := true
        packageInvalidated := package
        fileSetInvalidated := true
        cacheKeyInvalidated := key })) := by
    have hx : t.ruled.files.files = t.fileSet := by
      rw [hruled]
      rfl
    unfold Request.key at hi
    unfold opened openCache
    rw [hstored]
    simp only [hc,h.lookup,Option.map_some,Option.isSome_none,Option.isSome_some,Bool.not_false,
      Bool.and_self,hi,hx]
    rw [left,← beq_iff_eq.mp h.isCompatible]
    rfl
  obtain ⟨u,hu,he⟩ := exists_usage (by rw [ho]; rfl)
  refine ⟨⟨u,hu,?_,?_,?_⟩,by rw [ho]; rfl,by rw [hruled]; rfl⟩
  · exact congrArg CacheUsage.fileSetInvalidated he
  · exact congrArg CacheUsage.lookupReused he
  · exact congrArg CacheUsage.lookupInvalidated he

/-- Other files are other bytes to digest, and a run over other files than those of its cache starts
over. -/
theorem startsOver_of_ne (hc : q.cache.isSome = true) (hq : q.fileSet.IsLegible)
    (ht : t.fileSet.IsLegible) (hn : q.fileSet ≠ t.fileSet) :
    q.fileSet.message ≠ t.fileSet.message ∧
      (Digest.TellsApart q.fileSet.message t.fileSet.message →
        (t.seeded (execute q).cache).StartsOver) := by
  have hm : q.fileSet.message ≠ t.fileSet.message := fun he => hn (hq.eq_of_message ht he)
  refine ⟨hm,fun hd => ?_⟩
  obtain ⟨c,he,hof⟩ := exists_isOf hc
  refine startsOver_of_isOf (t := t.seeded (execute q).cache) he hof fun hf => hm (hd ?_)
  rwa [FileSet.fingerprint_eq,FileSet.fingerprint_eq] at hf

/-- A run that does not see that its files have changed goes by the files of its cache. -/
theorem overlooks_of_isOf {c : Cache.Persisted} (hc : t.cache = some c) (h : IsOf c q)
    (hr : q.root = t.root) (hf : q.fileSet.fingerprint = t.fileSet.fingerprint) :
    (∃ u, (execute t).cacheUsage = some u ∧ u.fileSetInvalidated = false ∧ u.lookupReused = true) ∧
      t.ruled.files = FileIndex.of q.ruled.files.files := by
  have hstored : storedFiles? t.root t.fileSet.fingerprint t.cache =
      some q.ruled.files.files := by
    rw [hc,← hr,← hf]
    exact storedFiles?_of_lookup h.lookup
  have hx : c.fileSetFingerprint.any (· != t.fileSet.fingerprint) = false := by
    simp [h.fingerprint,hf]
  have ho : ∃ u, t.opened.state.cacheUsage = some u ∧ u.fileSetInvalidated = false ∧
      u.lookupReused = true := by
    unfold opened openCache
    rw [hstored]
    simp only [hc,Option.map_some,invalidateStale,h.isCompatible,Bool.not_true,Bool.false_eq_true,
      if_false,hx]
    split <;> exact ⟨_,rfl,rfl,rfl⟩
  obtain ⟨v,hv,hflags⟩ := ho
  obtain ⟨u,hu,he⟩ := exists_usage hv
  refine ⟨⟨u,hu,?_,?_⟩,by rw [ruled,hstored]; rfl⟩
  · exact (congrArg CacheUsage.fileSetInvalidated he).trans hflags.1
  · exact (congrArg CacheUsage.lookupReused he).trans hflags.2

end Request

/-- A request for files and nothing else. -/
def listing (paths : List String) : Request where
  root := "/r"
  entries := paths.map fun p => ⟨"/r/" ++ p,some p⟩
  imports := Table.empty
  cache := some .new
  view := ⟨⟨[]⟩,{}⟩
  now := 0

/-- A file more is seen. -/
theorem startsOver_of_ne_listing :
    (listing ["main.ts"]).fileSet ≠ (listing ["main.ts","util.ts"]).fileSet ∧
      ((listing ["main.ts","util.ts"]).seeded
        (execute (listing ["main.ts"])).cache).StartsOver := by
  have hn : (listing ["main.ts"]).fileSet ≠ (listing ["main.ts","util.ts"]).fileSet := by
    decide +kernel
  have h := Request.startsOver_of_ne (q := listing ["main.ts"]) (t := listing ["main.ts","util.ts"])
    rfl (by decide +kernel) (by decide +kernel) hn
  refine ⟨hn,h.2 fun hd => ?_⟩
  exact absurd hd (by decide +kernel)

/-- Two files, and one whose name is made of both. -/
def parted : Request := listing ["main.ts","x.ts","y.ts"]
def barred : Request := listing ["main.ts","x.ts|y.ts"]

/-- A name with a bar passes for two names, and a run goes by the one file in place of the two. -/
theorem overlooks_barred :
    barred.fileSet ≠ parted.fileSet ∧ barred.fileSet.message = parted.fileSet.message ∧
      (∃ u, (execute (parted.seeded (execute barred).cache)).cacheUsage = some u ∧
        u.fileSetInvalidated = false ∧ u.lookupReused = true) ∧
      (parted.seeded (execute barred).cache).ruled.files = FileIndex.of barred.fileSet := by
  have hm : barred.fileSet.message = parted.fileSet.message := by decide +kernel
  obtain ⟨c,hc,hof⟩ := Request.exists_isOf (q := barred) rfl
  have hf : barred.fileSet.fingerprint = parted.fileSet.fingerprint := by
    rw [FileSet.fingerprint_eq,hm,FileSet.fingerprint_eq]
  have h := Request.overlooks_of_isOf (t := parted.seeded (execute barred).cache) hc hof rfl hf
  rw [barred.ruled_of_new rfl] at h
  exact ⟨by decide +kernel,hm,h⟩

end Run
end ImportResolution
