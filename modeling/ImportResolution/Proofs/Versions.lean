import ImportResolution.Proofs.FileSetChange
import ImportResolution.Proofs.Reuse

/-! Caches of another version. All that such a cache holds is dropped when it is opened, but its index
is looked at before that; what is said of the index is the one trace that it leaves, as long as it
lists the files of the run. -/
namespace ImportResolution.Run

-- No text is computed here, and no unifier should try to.
attribute [local irreducible] String.toList

/-- The use of a cache, with another word on its index. -/
def CacheUsage.told (reused invalidated : Bool) (u : CacheUsage) : CacheUsage :=
  { u with lookupReused := reused, lookupInvalidated := invalidated }

def State.told (reused invalidated : Bool) (s : State) : State :=
  { s with cacheUsage := s.cacheUsage.map (CacheUsage.told reused invalidated) }

section Search
variable (r : Rules) (q : Query) (e : Effort) (s : State) (reused invalidated : Bool)

theorem askBuild_told : askBuild r q e (s.told reused invalidated) =
    Prod.map id (Prod.map id (State.told reused invalidated)) (askBuild r q e s) := by
  unfold askBuild
  split
  · rfl
  · split <;> rfl

theorem generatedMatch_told : generatedMatch r q e (s.told reused invalidated) =
    Prod.map id (Prod.map id (State.told reused invalidated)) (generatedMatch r q e s) := by
  unfold generatedMatch
  rw [askBuild_told]
  rfl

theorem packageEntry_told (dir : String) : packageEntry r dir (s.told reused invalidated) =
    Prod.map id (State.told reused invalidated) (packageEntry r dir s) := by
  unfold packageEntry
  split <;> rfl

theorem probe_told : probe r q e (s.told reused invalidated) =
    Prod.map id (Prod.map id (State.told reused invalidated)) (probe r q e s) := by
  unfold probe
  split <;> rfl

theorem locate_told : locate r q (s.told reused invalidated) =
    Prod.map id (State.told reused invalidated) (locate r q s) := by
  unfold locate
  dsimp only
  split
  · rfl
  · exact packageEntry_told r { s with stages := _ } reused invalidated _

theorem seek_told : seek r q e (s.told reused invalidated) =
    Prod.map id (Prod.map id (State.told reused invalidated)) (seek r q e s) := by
  unfold seek
  rw [generatedMatch_told]
  obtain ⟨generated,e,s⟩ := generatedMatch r q e s
  dsimp only [Prod.map_apply,id_eq]
  rw [probe_told]
  split
  · rfl
  · obtain ⟨entry,e,s⟩ := probe r q e s
    dsimp only [Prod.map_apply,id_eq]
    split <;> rfl

theorem computePath_told : computePath r q e (s.told reused invalidated) =
    Prod.map id (Prod.map id (State.told reused invalidated)) (computePath r q e s) := by
  unfold computePath
  rw [locate_told]
  obtain ⟨_ | path,s⟩ := locate r q s
  · exact seek_told r q e s reused invalidated
  · rfl

theorem aliased_told (target : String) : aliased r target (s.told reused invalidated) =
    Prod.map id (State.told reused invalidated) (aliased r target s) := by
  unfold aliased
  split
  · rfl
  · exact packageEntry_told r s reused invalidated target

theorem firstAliased_told (targets : List String) :
    firstAliased r targets (s.told reused invalidated) =
      Prod.map id (State.told reused invalidated) (firstAliased r targets s) := by
  induction targets generalizing s with
  | nil => rfl
  | cons target rest ih =>
    simp only [firstAliased,aliased_told,Prod.map_fst,Prod.map_snd,id_eq,ih]
    split <;> rfl

theorem computeBare_told : computeBare r q (s.told reused invalidated) =
    Prod.map id (State.told reused invalidated) (computeBare r q s) := by
  unfold computeBare
  rw [firstAliased_told]
  split
  · rfl
  · obtain ⟨_ | path,s⟩ := firstAliased r (r.aliases.candidates q.spec) s
    · dsimp only [Prod.map_apply,id_eq]
      split <;> rfl
    · rfl

/-- A search does not look at what is said of the cache. -/
theorem compute_told : compute r q e (s.told reused invalidated) =
    Prod.map id (Prod.map id (State.told reused invalidated)) (compute r q e s) := by
  unfold compute
  rw [computePath_told,computeBare_told]
  cases Specifier.isPathBased q.spec <;> rfl

end Search

section Settling
variable (r : Rules) (q : Query) (key : Option String) (e : Effort) (s : State)
  (reused invalidated : Bool)

theorem countSpec_told (isKept : Bool) : (s.told reused invalidated).countSpec isKept =
    (s.countSpec isKept).told reused invalidated := by
  simp only [State.countSpec,State.told,Option.map_map]
  cases isKept <;> rfl

theorem fromMemory_told (key : String) : fromMemory r q key e (s.told reused invalidated) =
    Prod.map id (Prod.map id (State.told reused invalidated)) (fromMemory r q key e s) := by
  have hm : (s.told reused invalidated).memory = s.memory := rfl
  unfold fromMemory
  rw [hm]
  obtain ⟨_ | entry,memory⟩ := remembered r key s.memory
  · have hc := compute_told r q e { s with memory } reused invalidated
    exact congrArg (fun x : Cache.Entry × Effort × State =>
      (x.1,x.2.1,{ x.2.2 with memory := x.2.2.memory.insert key x.1 })) hc
  · rfl

theorem outcome_told (f : FileState) : outcome r q f e (s.told reused invalidated) =
    Prod.map id (Prod.map id (Prod.map id (State.told reused invalidated))) (outcome r q f e s) := by
  unfold outcome
  rw [countSpec_told,countSpec_told]
  dsimp only
  split
  · rfl
  · rw [fromMemory_told]
    rfl

theorem reasonOf_told (noise : Bool) (kept : Option ReasonCode) :
    reasonOf r q noise kept e (s.told reused invalidated) =
      Prod.map id (Prod.map id (State.told reused invalidated)) (reasonOf r q noise kept e s) := by
  unfold reasonOf
  rw [askBuild_told]
  split
  · rfl
  · cases noise || Diagnosis.escapes q.spec q.importer <;> rfl

theorem countUnresolved_told (noise : Bool) (entry : Cache.Entry) :
    countUnresolved r q noise entry key e (s.told reused invalidated) =
      Prod.map id (Prod.map id (State.told reused invalidated))
        (countUnresolved r q noise entry key e s) := by
  unfold countUnresolved
  rw [reasonOf_told]
  rfl

theorem recordUnresolved_told (entry : Cache.Entry) :
    recordUnresolved r q entry key e (s.told reused invalidated) =
      Prod.map id (Prod.map id (State.told reused invalidated))
        (recordUnresolved r q entry key e s) := by
  unfold recordUnresolved
  dsimp only
  rw [countUnresolved_told]
  cases r.noise.isNoise q.spec q.raw q.importer <;> rfl

theorem settle_told (entry : Cache.Entry) (f : FileState) :
    settle r q entry key e f (s.told reused invalidated) =
      Prod.map id (Prod.map id (State.told reused invalidated)) (settle r q entry key e f s) := by
  unfold settle
  split
  · rfl
  · split
    · rfl
    · dsimp only
      rw [recordUnresolved_told]
      obtain ⟨isKept,last,t⟩ := recordUnresolved r q _ key e s
      cases isKept <;> rfl

theorem resolveSpec_told (f : FileState) : resolveSpec r q f (s.told reused invalidated) =
    Prod.map id (State.told reused invalidated) (resolveSpec r q f s) := by
  unfold resolveSpec
  rw [outcome_told]
  obtain ⟨entry,key,e,t⟩ := outcome r q f _ s
  dsimp only [Prod.map_apply,id_eq]
  rw [settle_told]
  rfl

end Settling

section Steps
variable (r : Rules) (hashes : Table String) (reused invalidated : Bool)

theorem resolveRaw_told (importer : Importer) (profile : Option TsConfig.Profile)
    (acc : FileState × State) (raw : String) :
    resolveRaw r importer profile (Prod.map id (State.told reused invalidated) acc) raw =
      Prod.map id (State.told reused invalidated) (resolveRaw r importer profile acc raw) := by
  obtain ⟨f,s⟩ := acc
  unfold resolveRaw
  dsimp only [Prod.map_apply,id_eq]
  split
  · rfl
  · exact resolveSpec_told r _ (s.normalized true) reused invalidated f

theorem resolveRaws_told (importer : Importer) (profile : Option TsConfig.Profile)
    (acc : FileState × State) (raws : List String) :
    raws.foldl (resolveRaw r importer profile) (Prod.map id (State.told reused invalidated) acc) =
      Prod.map id (State.told reused invalidated) (raws.foldl (resolveRaw r importer profile) acc) := by
  induction raws generalizing acc with
  | nil => rfl
  | cons raw rest ih => rw [List.foldl_cons,resolveRaw_told,ih,List.foldl_cons]

theorem openCached_told (rel : String) (hash config : Option String)
    (c : Option Cache.Persisted) (usage : Option CacheUsage) :
    openCached rel hash config c (usage.map (CacheUsage.told reused invalidated)) =
      Prod.map id (Option.map (CacheUsage.told reused invalidated))
        (openCached rel hash config c usage) := by
  cases usage with
  | none => rfl
  | some usage =>
    simp only [openCached,openFile,Option.map_some]
    split
    · split
      · rfl
      · split <;> rfl
    · rfl

theorem configOf_told (importer : Importer) (raws : List String) (s : State) :
    configOf r importer raws (s.told reused invalidated) =
      Prod.map id (State.told reused invalidated) (configOf r importer raws s) := by
  unfold configOf
  split <;> rfl

def Progress.told (p : Progress) : Progress :=
  { p with state := p.state.told reused invalidated }

theorem enterFile_told (p : Progress) (item : String × List String) :
    enterFile r hashes (p.told reused invalidated) item =
      Prod.map id (Prod.map id (State.told reused invalidated)) (enterFile r hashes p item) := by
  have hc := configOf_told r reused invalidated (Importer.of item.1) (specifiersOf item.2)
    { p.state with graph := (p.state.graph.addNode (fileNodeId item.1) .file).2 }
  unfold enterFile
  dsimp only [Progress.told,State.told] at hc ⊢
  rw [hc]
  obtain ⟨profile,s⟩ := configOf r (Importer.of item.1) (specifiersOf item.2) _
  dsimp only [Prod.map_apply,id_eq,State.told]
  rw [openCached_told]
  rfl

theorem resolveFile_told (p : Progress) (item : String × List String) :
    resolveFile r hashes (p.told reused invalidated) item =
      (resolveFile r hashes p item).told reused invalidated := by
  unfold resolveFile
  rw [enterFile_told]
  obtain ⟨profile,f,s⟩ := enterFile r hashes p item
  dsimp only [Prod.map_apply,id_eq]
  have hraws := resolveRaws_told r reused invalidated (Importer.of item.1) profile (f,s)
    (specifiersOf item.2)
  rw [Prod.map_apply,id_eq] at hraws
  rw [hraws]
  rfl

theorem foldl_resolveFile_told (p : Progress) (items : List (String × List String)) :
    items.foldl (resolveFile r hashes) (p.told reused invalidated) =
      (items.foldl (resolveFile r hashes) p).told reused invalidated := by
  induction items generalizing p with
  | nil => rfl
  | cons item rest ih => rw [List.foldl_cons,resolveFile_told,ih,List.foldl_cons]

end Steps

def Outcome.told (reused invalidated : Bool) (o : Outcome) : Outcome :=
  { o with cacheUsage := o.cacheUsage.map (CacheUsage.told reused invalidated) }

theorem finish_told (q : Request) (r : Rules) (p : Progress) (reused invalidated : Bool) :
    finish q r (p.told reused invalidated) = (finish q r p).told reused invalidated := rfl

theorem start_told (q : Request) (opened : Option (Cache.Persisted × CacheUsage))
    (reused invalidated : Bool) :
    q.start (opened.map (Prod.map id (CacheUsage.told reused invalidated))) =
      (q.start opened).told reused invalidated := by
  cases opened <;> rfl

/-- Another version leaves nothing of a cache. -/
theorem invalidateStale_of_version {c : Cache.Persisted} (hv : c.isCompatible = false)
    (usage : CacheUsage) (package : Option String) (fileSet key : String) :
    invalidateStale c usage package fileSet key = (.new,usage) := by
  simp [invalidateStale,hv]

namespace Request
variable (q : Request) (c : Cache.Persisted)

/-- The files that a run takes from the index of a cache. -/
def storedIn : Option FileSet := storedFiles? q.root q.fileSet.fingerprint (some c)

/-- A run over a cache that starts from nothing. Of all that is in the cache the index alone is looked
at, and one that lists the files of the run is told of and does nothing else. -/
structure StartsAfresh : Prop where
  plain : c.lookup = none → execute (q.seeded (some c)) = execute q.anew
  indexed : execute (q.seeded (some c)) =
    execute (q.seeded (some { Cache.Persisted.new with lookup := c.lookup }))
  told : (∀ files ∈ q.storedIn c, files = q.fileSet) →
    execute (q.seeded (some c)) = (execute q.anew).told (q.storedIn c).isSome
      (c.lookup.isSome && !(q.storedIn c).isSome)

variable {q c} (hv : c.isCompatible = false)
include hv

/-- What is opened of a cache of another version is nothing but the word on its index. -/
theorem openCache_of_version (r : Rules) (facts : Manifest.Facts) (fileSet : String)
    (isStored : Bool) :
    (q.seeded (some c)).openCache r facts fileSet isStored =
      (q.anew.openCache r facts fileSet false).map (Prod.map id
        (CacheUsage.told isStored (c.lookup.isSome && !isStored))) := by
  have hn : ∀ usage key, invalidateStale .new usage facts.packageFingerprint fileSet key =
      (.new,{ usage with
        packageInvalidated := false, fileSetInvalidated := false, cacheKeyInvalidated := false }) :=
    fun _ _ => invalidateStale_of_fitting rfl (fun h => by cases h) (fun _ h => by cases h)
      (fun _ h => by cases h)
  simp only [openCache,seeded,anew,Option.map_some,invalidateStale_of_version hv,hn]
  rfl

theorem openCache_indexed (r : Rules) (facts : Manifest.Facts) (fileSet : String)
    (isStored : Bool) :
    (q.seeded (some c)).openCache r facts fileSet isStored =
      (q.seeded (some { Cache.Persisted.new with lookup := c.lookup })).openCache r facts fileSet
        isStored := by
  have hn : ∀ usage key, invalidateStale { Cache.Persisted.new with lookup := c.lookup } usage
      facts.packageFingerprint fileSet key = ({ Cache.Persisted.new with lookup := c.lookup },
        { usage with
          packageInvalidated := false, fileSetInvalidated := false, cacheKeyInvalidated := false }) :=
    fun _ _ => invalidateStale_of_fitting rfl (fun h => by cases h) (fun _ h => by cases h)
      (fun _ h => by cases h)
  simp only [openCache,seeded,Option.map_some,invalidateStale_of_version hv,hn]

theorem execute_indexed : execute (q.seeded (some c)) =
    execute (q.seeded (some { Cache.Persisted.new with lookup := c.lookup })) := by
  unfold execute
  dsimp only
  rw [openCache_indexed hv]
  rfl

omit hv in
theorem ruled_of_storedIn (hf : ∀ files ∈ q.storedIn c, files = q.fileSet) :
    (q.seeded (some c)).ruled = q.anew.ruled := by
  have hs : (q.storedIn c).getD q.fileSet = q.fileSet := by
    cases h : q.storedIn c with
    | none => rfl
    | some files => exact hf files h
  rw [q.anew.ruled_of_new rfl]
  exact congrArg (fun files => q.rules files (Manifest.facts q.view q.root)) hs

theorem opened_of_version (hf : ∀ files ∈ q.storedIn c, files = q.fileSet) :
    (q.seeded (some c)).opened = q.anew.opened.told (q.storedIn c).isSome
      (c.lookup.isSome && !(q.storedIn c).isSome) := by
  have ho := openCache_of_version (q := q) hv q.anew.ruled (Manifest.facts q.view q.root)
    q.fileSet.fingerprint (q.storedIn c).isSome
  unfold opened
  rw [ruled_of_storedIn hf]
  exact (congrArg q.start ho).trans (start_told q _ _ _)

end Request

/-- A cache of another version is as good as none, but for the word on its index. -/
theorem Request.startsAfresh_of_version (q : Request) {c : Cache.Persisted}
    (hv : c.version ≠ Cache.Persisted.currentVersion) : q.StartsAfresh c := by
  have hv : c.isCompatible = false := by simpa [Cache.Persisted.isCompatible] using hv
  have hi := execute_indexed (q := q) hv
  refine ⟨fun hl => by rw [hi,hl]; rfl,hi,fun hf => ?_⟩
  rw [execute_eq,execute_eq,ruled_of_storedIn hf,closed,ruled_of_storedIn hf,
    opened_of_version hv hf]
  refine (congrArg (finish q q.anew.ruled) (foldl_resolveFile_told _ _ _ _ _ _)).trans ?_
  exact finish_told q _ _ _ _

/-- What a program of another version left of the page, with an index of `files`. -/
def oldCache (files : FileSet) : Cache.Persisted where
  version := "import-resolution-cache-v2"
  files := Table.ofList
    [("page",⟨"digest",none,Table.ofList [("library",{ resolvedType := .unresolved })]⟩)]
  lookup := some (Snapshot.of plainPage.root plainPage.fileSet.fingerprint files)

theorem storedIn_oldCache (files : FileSet) : plainPage.storedIn (oldCache files) = some files :=
  storedFiles?_of_lookup rfl

theorem startsAfresh_oldCache :
    (oldCache plainPage.fileSet).version ≠ Cache.Persisted.currentVersion ∧
      execute (plainPage.seeded (some (oldCache plainPage.fileSet))) =
        (execute plainPage.anew).told true false := by
  have hv : (oldCache plainPage.fileSet).version ≠ Cache.Persisted.currentVersion := by decide
  have h := (plainPage.startsAfresh_of_version hv).told fun files hf => by
    rw [storedIn_oldCache] at hf
    exact (Option.some.inj hf).symm
  rw [storedIn_oldCache] at h
  exact ⟨hv,h⟩

/-- The page over the files of an old cache. -/
theorem ruled_oldCache (files : FileSet) :
    (plainPage.seeded (some (oldCache files))).ruled =
      { plainPage.rules files (Manifest.facts plainPage.view plainPage.root) with
        aliases := ⟨[],none⟩ } := by
  have hs := storedIn_oldCache files
  unfold Request.storedIn at hs
  unfold Request.ruled
  rw [← aliasRules_of_nil]
  exact congrArg (fun o => plainPage.rules (o.getD plainPage.fileSet)
    (Manifest.facts plainPage.view plainPage.root)) hs

/-- The word on the index of an old cache is kept, and so are its files, the true ones or not. -/
theorem not_fresh_oldCache :
    (oldCache plainPage.fileSet).version ≠ Cache.Persisted.currentVersion ∧
      (execute (plainPage.seeded (some (oldCache plainPage.fileSet)))).cacheUsage ≠
        (execute plainPage.anew).cacheUsage ∧
      (execute (plainPage.seeded (some (oldCache (.ofList ["page"]))))).relations ≠
        (execute plainPage.anew).relations := by
  refine ⟨by decide,fun h => ?_,fun h => ?_⟩
  · have ho := Request.opened_of_version (q := plainPage) (c := oldCache plainPage.fileSet) rfl
      fun files hf => by
        rw [storedIn_oldCache] at hf
        exact (Option.some.inj hf).symm
    rw [storedIn_oldCache,plainPage.anew.opened_of_new rfl] at ho
    obtain ⟨u,hu,hold⟩ := Request.exists_usage (congrArg (·.state.cacheUsage) ho)
    obtain ⟨v,hv,hnew⟩ := Request.exists_usage
      (congrArg (·.state.cacheUsage) (plainPage.anew.opened_of_new rfl))
    rw [h,hv] at hu
    obtain rfl := Option.some.inj hu
    exact absurd (congrArg CacheUsage.lookupReused (hold.symm.trans hnew)) (by decide)
  · have hf := congrArg (·.find? "page") h
    have hi : (plainPage.seeded (some (oldCache (.ofList ["page"])))).imports =
      plainPage.imports := rfl
    rw [Request.execute_eq,Request.execute_eq,Request.closed,Request.closed,ruled_oldCache,
      Request.anew_listed rfl,plainPage.anew.opened_of_new rfl,Request.anew_imports,hi,
      importersOf_plainPage] at hf
    revert hf
    decide +kernel

end ImportResolution.Run
