import ImportResolution.Proofs.Comparison

/-! From run to run. A run starts from the cache it is given, less what has gone stale; what it
leaves is the means to start the next one. -/
namespace ImportResolution

theorem Text.insertSorted_of_lt {s : String} {xs : List String} (h : ∀ x ∈ xs, x < s) :
    Text.insertSorted s xs = xs ++ [s] := by
  induction xs with
  | nil => rfl
  | cons t rest ih =>
    have ht := h t (.head _)
    have hn : s ≠ t := fun he => String.lt_irrefl _ (he ▸ ht)
    rw [Text.insertSorted,if_neg (String.lt_asymm ht),if_neg hn,ih fun x hx => h x (.tail _ hx)]
    rfl

theorem Text.foldl_insertSorted {xs acc : List String} (h : (acc ++ xs).Pairwise (· < ·)) :
    xs.foldl (fun acc s => Text.insertSorted s acc) acc = acc ++ xs := by
  induction xs generalizing acc with
  | nil => simp
  | cons s rest ih =>
    have hs := Text.insertSorted_of_lt fun x hx =>
      (List.pairwise_append.mp h).2.2 x hx s (.head _)
    rw [List.foldl_cons,hs,ih (by simpa using h)]
    simp

/-- A file set is restored from its own paths. -/
theorem FileSet.ofList_paths (f : FileSet) : FileSet.ofList f.paths = f :=
  FileSet.ext (Text.foldl_insertSorted (show ([] ++ f.paths).Pairwise (· < ·) from f.ordered))

theorem Snapshot.restore?_of (root fingerprint : String) (files : FileSet) :
    (Snapshot.of root fingerprint files).restore? root
      (FileSet.compatibility (FileSet.rootHash root) fingerprint) = some files := by
  simp [Snapshot.restore?,Snapshot.of,FileSet.ofList_paths]

namespace Run

-- No text is computed here, and no unifier should try to.
attribute [local irreducible] String.toList

/-- An index is taken for the files that it was made of. -/
theorem storedFiles?_of_lookup {c : Cache.Persisted} {root fingerprint : String} {files : FileSet}
    (h : c.lookup = some (Snapshot.of root fingerprint files)) :
    storedFiles? root fingerprint (some c) = some files := by
  simp only [storedFiles?,Option.bind_some,h]
  rw [Option.filter_some,if_pos (by simp [Snapshot.of]),Option.bind_some,Snapshot.restore?_of]

theorem invalidateStale_find {c : Cache.Persisted} {usage : CacheUsage} {package : Option String}
    {fileSet key rel : String} {f : Cache.FileEntry}
    (h : (invalidateStale c usage package fileSet key).1.files.find? rel = some f) :
    c.files.find? rel = some f ∧ (c.packageFingerprint.isSome → c.packageFingerprint = package) ∧
      ∀ k ∈ c.cacheKey, k = key := by
  unfold invalidateStale at h
  split at h
  · simp [Cache.Persisted.new] at h
  · simp only at h
    split at h
    · simp at h
    · next hn =>
      refine ⟨h,?_⟩
      simp only [Bool.or_eq_true,Bool.and_eq_true,bne_iff_ne,ne_eq,not_or,not_and,
        Decidable.not_not] at hn
      refine ⟨hn.1.1,?_⟩
      intro k hk
      have hx := hn.2
      rw [hk] at hx
      simpa using hx

theorem invalidateStale_of_fitting {c : Cache.Persisted} {usage : CacheUsage}
    {package : Option String} {fileSet key : String} (hv : c.isCompatible = true)
    (hp : c.packageFingerprint.isSome → c.packageFingerprint = package)
    (hf : ∀ f ∈ c.fileSetFingerprint, f = fileSet) (hk : ∀ k ∈ c.cacheKey, k = key) :
    invalidateStale c usage package fileSet key =
      (c,{ usage with
        packageInvalidated := false, fileSetInvalidated := false, cacheKeyInvalidated := false }) := by
  have hn : (c.packageFingerprint.isSome && c.packageFingerprint != package) = false := by
    cases hs : c.packageFingerprint.isSome with
    | false => rfl
    | true => simp [hp hs]
  have hx : ∀ (o : Option String) (s : String), (∀ x ∈ o, x = s) → o.any (· != s) = false := by
    intro o s h
    cases o with
    | none => rfl
    | some x => simp [h x rfl]
  simp [invalidateStale,hv,hn,hx _ _ hf,hx _ _ hk]

namespace Request
variable (q : Request)

/-- The importers that a run goes through. -/
def importers : List String := (importersOf q.imports).map Prod.fst

/-- What is asked by its normal form, which is what keys are made of. -/
def normalized : List (String × String) := q.asked.map fun a => (a.1,Specifier.normalize a.2)

theorem mem_normalized {item : String × List String} (hi : item ∈ importersOf q.imports)
    {raw : String} (hr : raw ∈ specifiersOf item.2) (hn : Specifier.normalize raw ≠ "") :
    (item.1,Specifier.normalize raw) ∈ q.normalized := by
  refine List.mem_map.mpr ⟨(item.1,raw),List.mem_flatMap.mpr ⟨item,hi,?_⟩,rfl⟩
  exact List.mem_map.mpr ⟨raw,List.mem_filter.mpr ⟨hr,by simpa using hn⟩,rfl⟩

/-- Importers without the null character are enough for keys to tell what is asked. -/
theorem apart_normalized (h : ∀ e ∈ q.imports.entries, nullChar ∉ (Path.normalize e.1).toList) :
    Cache.Apart q.normalized := by
  apply Cache.apart_of_plain
  intro a ha
  obtain ⟨b,hb,rfl⟩ := List.mem_map.mp ha
  obtain ⟨item,hi,hb⟩ := List.mem_flatMap.mp hb
  obtain ⟨raw,-,rfl⟩ := List.mem_map.mp hb
  obtain ⟨e,he,rfl⟩ := List.mem_map.mp (List.mem_filter.mp ((importersOf_perm _).mem_iff.mp hi)).1
  exact h e he

/-- The key that a run puts on the outcomes that it keeps. -/
def key : String :=
  cacheKey q.settings q.ruled.aliases q.ruled.build q.ruled.policy
    (Manifest.facts q.view q.root).packageFingerprint (FileSet.rootHash q.root)
    q.fileSet.fingerprint

theorem ruled_isOrdered : q.ruled.IsOrdered := by
  unfold Rules.IsOrdered ruled rules BuildContext.of
  cases q.settings.resolver.enableBuildContext with
  | true => exact .inl rfl
  | false => exact .inr rfl

theorem opened_isSound {C : String → Cache.FileEntry → Prop}
    (h : ∀ c ∈ q.opened.cache, ∀ rel f, c.files.find? rel = some f → C rel f) :
    q.opened.IsSound q.ruled q.normalized C where
  state := ⟨TsConfig.Loader.isTrue_empty _ _,PackageEntries.isTrue_empty _ _ _,
    Cache.Memory.holds_ofCapacity _⟩
  cache := h

/-- A run whose cache does no harm settles every specifier as it means. -/
theorem trace_bare (ha : Cache.Apart q.normalized)
    (h : ∀ c ∈ q.opened.cache, ∀ rel f, c.files.find? rel = some f → Usable q.ruled rel f) :
    q.trace.map FileRecord.bare = (importersOf q.imports).map (meantFile q.ruled) :=
  (recordsOf_sound q.ruled_isOrdered ha (fun _ _ hf => hf) q.hashes (fun _ _ _ hf => hf.usable)
    (fun _ hi _ hr hn => q.mem_normalized hi hr hn) (q.opened_isSound h)).1

/-! What a run leaves. -/

/-- The cache of a run, with what it holds of importers. -/
def left (files : Table Cache.FileEntry) : Cache.Persisted where
  version := Cache.Persisted.currentVersion
  packageFingerprint := (Manifest.facts q.view q.root).packageFingerprint
  fileSetFingerprint := some q.fileSet.fingerprint
  cacheKey := some q.key
  files
  lookup := some (Snapshot.of q.root q.fileSet.fingerprint q.fileSet)

/-- Whether a run keeps the outcomes that an earlier one left: package and key are as they were. -/
def Trusts (t : Request) : Prop :=
  ((Manifest.facts q.view q.root).packageFingerprint.isSome →
    (Manifest.facts q.view q.root).packageFingerprint =
      (Manifest.facts t.view t.root).packageFingerprint) ∧ q.key = t.key

theorem ruled_of_new (h : q.cache = some .new) :
    q.ruled = q.rules q.fileSet (Manifest.facts q.view q.root) := by
  rw [ruled,h]
  rfl

/-- Where a run starts from nothing. -/
theorem opened_of_new (h : q.cache = some .new) :
    q.opened = q.start
      (some (q.left Table.empty,{ prefetchedPaths := q.view.memo.prefetched })) := by
  have hi : ∀ usage package fileSet key, invalidateStale .new usage package fileSet key =
      (.new,{ usage with
        packageInvalidated := false, fileSetInvalidated := false, cacheKeyInvalidated := false }) :=
    fun _ _ _ _ => invalidateStale_of_fitting (by simp [Cache.Persisted.new,
      Cache.Persisted.isCompatible]) (fun h => by cases h) (fun _ h => by cases h)
      (fun _ h => by cases h)
  have hf : q.ruled.files.files = q.fileSet := by
    rw [q.ruled_of_new h]
    rfl
  unfold opened openCache
  simp only [h,Option.map_some,hi,hf]
  rfl

/-- Importers change what is kept of importers alone. -/
theorem resolveFile_cache (r : Rules) (hashes : Table String) (items : List (String × List String))
    {p : Progress} {files : Table Cache.FileEntry} (h : p.cache = some (q.left files)) :
    ∃ later, (items.foldl (resolveFile r hashes) p).cache = some (q.left later) := by
  induction items generalizing p files with
  | nil => exact ⟨files,h⟩
  | cons item rest ih =>
    obtain ⟨later,hl⟩ : ∃ later, (resolveFile r hashes p item).cache = some (q.left later) := by
      simp only [resolveFile,h,Option.map_some,keepFile]
      split
      · exact ⟨_,rfl⟩
      · exact ⟨_,rfl⟩
    exact ih hl

theorem left_of_new (h : q.cache = some .new) :
    ∃ files, (execute q).cache = some (q.left files) :=
  q.resolveFile_cache q.ruled q.hashes (importersOf q.imports)
    (congrArg Progress.cache (q.opened_of_new h))

/-- A run from nothing leaves of its importers what their specifiers mean. -/
theorem left_written (ha : Cache.Apart q.normalized) (h : q.cache = some .new)
    {c : Cache.Persisted} (hc : (execute q).cache = some c) {rel : String} {f : Cache.FileEntry}
    (hf : c.files.find? rel = some f) : rel ∈ q.importers ∧ Written q.ruled rel f := by
  have hs : q.opened.IsSound q.ruled q.normalized
      (fun rel f => rel ∈ q.importers ∧ Written q.ruled rel f) := by
    apply q.opened_isSound
    intro d hd rel f hfind
    rw [q.opened_of_new h] at hd
    obtain rfl := Option.some.inj hd
    simp [left] at hfind
  obtain ⟨-,ht⟩ := recordsOf_sound q.ruled_isOrdered ha (fun _ _ hw => hw.2.usable)
    q.hashes (fun _ hi _ hw => ⟨List.mem_map_of_mem hi,hw⟩)
    (fun _ hi _ hr hn => q.mem_normalized hi hr hn) hs
  exact ht.cache c hc rel f hf

section Taking
variable {q} {t : Request} {files : Table Cache.FileEntry} (hc : t.cache = some (q.left files))
include hc

theorem storedFiles?_left (hr : q.root = t.root) (hf : q.fileSet = t.fileSet) :
    storedFiles? t.root t.fileSet.fingerprint t.cache = some t.fileSet := by
  rw [hc,← hr,← hf]
  exact storedFiles?_of_lookup rfl

/-- The same files are indexed, whether they are stored or listed anew. -/
theorem ruled_of_left (hr : q.root = t.root) (hf : q.fileSet = t.fileSet) :
    t.ruled = t.rules t.fileSet (Manifest.facts t.view t.root) := by
  rw [ruled,storedFiles?_left hc hr hf]
  rfl

/-- What is kept of importers is taken over from a run that is trusted, and from no other. -/
theorem opened_find {d : Cache.Persisted} (hd : t.opened.cache = some d) {rel : String}
    {f : Cache.FileEntry} (hf : d.files.find? rel = some f) :
    files.find? rel = some f ∧ q.Trusts t := by
  unfold opened start openCache at hd
  simp only [hc,Option.map_some,Option.some.injEq] at hd
  subst hd
  obtain ⟨hk,hp,hkey⟩ := invalidateStale_find hf
  exact ⟨hk,hp,hkey _ rfl⟩

/-- Where a run starts from one that is trusted. -/
theorem opened_of_trusts (hr : q.root = t.root) (hf : q.fileSet = t.fileSet) (h : q.Trusts t) :
    t.opened = t.start (some (t.left files,
      { prefetchedPaths := t.view.memo.prefetched, lookupReused := true })) := by
  obtain ⟨hp,hk⟩ := h
  have hi : ∀ usage, invalidateStale (q.left files) usage
      (Manifest.facts t.view t.root).packageFingerprint t.fileSet.fingerprint t.key =
      (q.left files,{ usage with
        packageInvalidated := false, fileSetInvalidated := false, cacheKeyInvalidated := false }) :=
    fun _ => invalidateStale_of_fitting (by simp [left,Cache.Persisted.isCompatible]) hp
      (fun _ hx => by rw [← Option.some.inj hx,hf]) (fun _ hx => by rw [← Option.some.inj hx,hk])
  have hx : t.ruled.files.files = t.fileSet := by
    rw [ruled_of_left hc hr hf]
    rfl
  unfold key at hi
  unfold opened openCache
  rw [storedFiles?_left hc hr hf]
  simp only [hc,Option.map_some,hi,hx]
  rfl

end Taking
end Request
end Run
end ImportResolution
