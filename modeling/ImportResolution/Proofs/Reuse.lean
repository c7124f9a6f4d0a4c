import ImportResolution.Proofs.Seeding

/-! A run that is seeded by an earlier one. Between the two, texts on the disk may change; what is
kept is served again only if the package and the key are as they were, and then it must still be
what specifiers mean. -/
namespace ImportResolution.Run

namespace Request
variable (q : Request)

/-- The same request with an empty cache. -/
def anew : Request := { q with cache := some .new }

/-- The same imports at another moment, over a disk and contents that may have changed, with the
cache that an earlier run left. -/
def later (entries : List Entry) (view : DiskView) (hashes : Table String) (now : Int)
    (maxCacheEntries : Nat) : Request :=
  { q with
    entries, view, hashes, now
    settings := { q.settings with limits := { q.settings.limits with maxCacheEntries } }
    cache := (execute q).cache }

@[simp] theorem anew_imports : q.anew.imports = q.imports := rfl

@[simp] theorem later_imports (entries : List Entry) (view : DiskView) (hashes : Table String)
    (now : Int) (n : Nat) : (q.later entries view hashes now n).imports = q.imports := rfl

end Request

/-- What package and key do not tell has not moved: the names of the root, the entries of packages,
and the configurations of importers that look the same. -/
structure Unmoved (importers : List String) (r t : Rules) : Prop where
  names : r.names = t.names
  package : ∀ dir, packaged? r dir = packaged? t dir
  profile : ∀ rel ∈ importers,
    ∀ p ∈ TsConfig.governing r.site.view r.site.root rel,
    ∀ o ∈ TsConfig.governing t.site.view t.site.root rel, p.fingerprint = o.fingerprint → p = o

theorem Unmoved.refl (importers : List String) {r t : Rules} (hn : r.names = t.names)
    (hp : ∀ dir, packaged? r dir = packaged? t dir) (hs : r.site = t.site) :
    Unmoved importers r t where
  names := hn
  package := hp
  profile := by
    intro rel hm p h o k he
    rw [hs] at h
    exact Option.some.inj (h.symm.trans k)

theorem Unmoved.profile_eq {importers : List String} {r t : Rules} (h : Unmoved importers r t)
    {rel : String} (hm : rel ∈ importers) {p o : Option TsConfig.Profile} (hp : Governs r rel p)
    (ho : Governs t rel o) (he : stamp p = stamp o) : p = o := by
  cases p with
  | none => cases o with
    | none => rfl
    | some o => cases he
  | some p => cases o with
    | none => cases he
    | some o =>
      have kp := (hp.resolve_left (by simp)).symm
      have ko := (ho.resolve_left (by simp)).symm
      rw [h.profile rel hm p kp o ko (Option.some.inj he)]

/-- What was written under rules that have not moved does no harm. -/
theorem Written.usable_of_unmoved {importers : List String} {r t : Rules}
    (h : Unmoved importers r t) (ha : r.Agree t) {rel : String} (hm : rel ∈ importers)
    {f : Cache.FileEntry} (hf : Written r rel f) : Usable t rel f := by
  obtain ⟨profile,hg,hs,hk⟩ := hf
  intro other ho he spec e hfind
  obtain rfl := h.profile_eq hm hg ho (hs.symm.trans he)
  rw [hk spec e hfind,meant,meant,ha.answer]

section Seeded
variable (q : Request) {entries : List Entry} (he : FileSet.ofEntries q.root entries = q.fileSet)
  (view : DiskView) (hashes : Table String) (now : Int) (n : Nat)
include he

theorem Request.later_ruled :
    (q.anew.later entries view hashes now n).ruled =
      (q.anew.later entries view hashes now n).rules q.fileSet (Manifest.facts view q.root) := by
  obtain ⟨files,hc⟩ := q.anew.left_of_new rfl
  have hr := ruled_of_left (t := q.anew.later entries view hashes now n) hc rfl he.symm
  exact hr.trans (congrArg (fun f => Request.rules _ f _) he)

/-- Of all that may change between the runs, only the package makes the later one start afresh. -/
theorem Request.trusts_later
    (hp : (Manifest.facts q.view q.root).packageFingerprint =
      (Manifest.facts view q.root).packageFingerprint) :
    q.anew.Trusts (q.anew.later entries view hashes now n) := by
  refine ⟨fun _ => hp,?_⟩
  have hs : (q.anew.later entries view hashes now n).fileSet = q.fileSet := he
  unfold key
  rw [q.later_ruled he,q.anew.ruled_of_new rfl,hs]
  exact congrArg (fun package => cacheKey _ _ _ _ package _ _) hp

theorem Rules.agree_later (hf : ∀ place, q.view.isFile place = view.isFile place)
    (h : Unmoved q.importers q.anew.ruled (q.anew.later entries view hashes now n).ruled) :
    q.anew.ruled.Agree (q.anew.later entries view hashes now n).ruled := by
  have hnames := h.names
  have hpackage := h.package
  rw [q.later_ruled he,q.anew.ruled_of_new rfl] at hnames hpackage ⊢
  exact ⟨rfl,rfl,rfl,rfl,hf,hpackage,rfl,rfl,rfl,hnames⟩

/-- A seeded run settles every specifier as it means now, unless what moved goes unseen. -/
theorem Request.later_trace (ha : Cache.Apart q.normalized)
    (hf : ∀ place, q.view.isFile place = view.isFile place)
    (h : q.anew.Trusts (q.anew.later entries view hashes now n) →
      Unmoved q.importers q.anew.ruled (q.anew.later entries view hashes now n).ruled) :
    (q.anew.later entries view hashes now n).trace.map FileRecord.bare =
      (importersOf q.imports).map
        (meantFile (q.anew.later entries view hashes now n).ruled) := by
  obtain ⟨files,hc⟩ := q.anew.left_of_new rfl
  refine (q.anew.later entries view hashes now n).trace_bare ha ?_
  intro d hd rel f hfind
  obtain ⟨hk,ht⟩ := opened_find (t := q.anew.later entries view hashes now n) hc hd hfind
  obtain ⟨hr,hw⟩ := q.anew.left_written ha rfl hc hk
  exact hw.usable_of_unmoved (h ht) (Rules.agree_later q he view hashes now n hf (h ht)) hr

end Seeded

/-- A run with an empty cache settles every specifier as it means. -/
theorem Request.anew_trace (q : Request) (ha : Cache.Apart q.normalized) :
    q.anew.trace.map FileRecord.bare = (importersOf q.imports).map (meantFile q.anew.ruled) := by
  refine q.anew.trace_bare ha ?_
  intro c hc rel f hfind
  rw [q.anew.opened_of_new rfl] at hc
  obtain rfl := Option.some.inj hc
  simp [left] at hfind

theorem meantFile_congr {r t : Rules} (ha : r.Agree t) (hv : r.site.view = t.site.view) :
    meantFile r = meantFile t := by
  funext item
  have hp : profileFor r = profileFor t := by
    unfold profileFor
    rw [hv,ha.root]
  have hm : meantRaws r = meantRaws t := by
    unfold meantRaws
    rw [funext ha.answer]
  unfold meantFile
  rw [hp,hm]

/-- A run that is seeded by a run of the same request, at whatever moment and with whatever room in
memory, says what the first one said. -/
theorem alike_later (q : Request) (now : Int) (n : Nat) (ha : Cache.Apart q.normalized) :
    Alike (execute q.anew) (execute (q.anew.later q.entries q.view q.hashes now n)) := by
  have hu : Unmoved q.importers q.anew.ruled
      (q.anew.later q.entries q.view q.hashes now n).ruled := by
    rw [q.later_ruled rfl,q.anew.ruled_of_new rfl]
    exact .refl _ rfl (fun _ => rfl) rfl
  have hg := Rules.agree_later q rfl q.view q.hashes now n (fun _ => rfl) hu
  have hlater := q.later_trace rfl q.view q.hashes now n ha (fun _ => rfl) fun _ => hu
  rw [← meantFile_congr hg rfl] at hlater
  exact alike_of_trace ((q.anew_trace ha).trans hlater.symm) rfl rfl

/-! Runs that can be followed by hand: what is sorted is in order beforehand, and what is digested
does not matter. -/

theorem aliasRules_of_nil : AliasRules.of [] = ⟨[],none⟩ := by
  simp [AliasRules.of,AliasRule.dropRepeats,AliasRules.fingerprintOf]

theorem importersOf_of_sorted {imports : Table (List String)} {items : List (String × List String)}
    (h : (imports.entries.map fun e => (Path.normalize e.1,e.2)).filter (fun e => e.1 != "") = items)
    (ho : (items.map fun e => (e.1,e)).Pairwise fun a b => decide (a.1 ≤ b.1) = true) :
    importersOf imports = items := by
  rw [importersOf,h,sortByKey,List.mergeSort_of_pairwise ho]
  simp [Function.comp_def]

namespace Request
variable {q : Request}

/-- The rules of a run without aliases over the files as they are listed. -/
def listed (q : Request) : Rules :=
  { q.rules q.fileSet (Manifest.facts q.view q.root) with aliases := ⟨[],none⟩ }

theorem ruled_eq_listed (ha : q.settings.resolver.aliases = [])
    (h : q.ruled = q.rules q.fileSet (Manifest.facts q.view q.root)) : q.ruled = q.listed := by
  rw [h,listed,← aliasRules_of_nil,← ha]
  rfl

theorem anew_listed (ha : q.settings.resolver.aliases = []) : q.anew.ruled = q.anew.listed :=
  ruled_eq_listed ha (q.anew.ruled_of_new rfl)

section Seeded
variable {entries : List Entry} (he : FileSet.ofEntries q.root entries = q.fileSet)
  (view : DiskView) (hashes : Table String) (now : Int) (n : Nat)
include he

theorem later_listed (ha : q.settings.resolver.aliases = []) :
    (q.anew.later entries view hashes now n).ruled =
      (q.anew.later entries view hashes now n).listed := by
  obtain ⟨files,hc⟩ := q.anew.left_of_new rfl
  exact ruled_eq_listed ha (ruled_of_left hc rfl he.symm)

theorem later_opened {files : Table Cache.FileEntry}
    (hp : (Manifest.facts q.view q.root).packageFingerprint =
      (Manifest.facts view q.root).packageFingerprint)
    (hf : (execute q.anew).cache.map (·.files) = some files) :
    (q.anew.later entries view hashes now n).opened =
      (q.anew.later entries view hashes now n).start
        (some ((q.anew.later entries view hashes now n).left files,
          { prefetchedPaths := view.memo.prefetched, lookupReused := true })) := by
  obtain ⟨kept,hc⟩ := q.anew.left_of_new rfl
  rw [hc] at hf
  obtain rfl := Option.some.inj hf
  exact opened_of_trusts hc rfl he.symm (q.trusts_later he view hashes now n hp)

end Seeded
end Request

def fixedBudgets : Settings where
  budgets :=
    { maxFilesystemProbes := some 32, maxFallbackCandidates := some 48, maxFallbackDepth := some 16
      adaptive := some false }

/-- A page with one part in the repository. -/
def page (imports : Table (List String)) : Request where
  root := "/r"
  entries := [⟨"/r/page",none⟩,⟨"/r/part.txt",none⟩]
  imports
  settings := fixedBudgets
  hashes := Table.ofList [("page","digest")]
  view := ⟨⟨[]⟩,{}⟩
  now := 0

/-- An importer that keeps what it knows, once with a specifier of the repository. -/
def plainPage : Request := page (Table.ofList [("page",["./part.txt","library","./gone.txt"])])

/-- A disk that has the file which the page asks for in vain. -/
def lateDisk : DiskView := ⟨⟨[(["r"],.dir),(["r","gone.txt"],.file .empty)]⟩,{}⟩

theorem importersOf_plainPage : importersOf plainPage.imports =
    [("page",["./part.txt","library","./gone.txt"])] :=
  importersOf_of_sorted (by decide +kernel) (by decide +kernel)

/-- What the page leaves. -/
theorem files_plainPage : (execute plainPage.anew).cache.map (·.files) = some (Table.ofList
    [("page",⟨"digest",none,Table.ofList
      [("./gone.txt",
        { resolvedType := .unresolved, reason := some .missingFileRelative,
          expiresAt := some (expiry 0 plainPage.settings.limits.negativeTtl) }),
       ("./part.txt",.found .relative "part.txt"),
       ("library",{ resolvedType := .external, packageName := some "library" })]⟩)]) := by
  rw [Request.execute_eq,Request.closed,Request.anew_listed rfl,Request.opened_of_new _ rfl,
    Request.anew_imports,importersOf_plainPage]
  decide +kernel

theorem alike_later_plainPage :
    Cache.Apart plainPage.normalized ∧
      Alike (execute plainPage.anew)
        (execute (plainPage.anew.later plainPage.entries plainPage.view plainPage.hashes 1000 1)) := by
  have ha : Cache.Apart plainPage.normalized := plainPage.apart_normalized (by decide +kernel)
  exact ⟨ha,alike_later plainPage 1000 1 ha⟩

/-- Two importers, of which one goes on behind the other and the null character. -/
def splitPage : Request :=
  page (Table.ofList [("page",["b\x00./part.txt"]),("page\x00b",["./part.txt"])])

theorem importersOf_splitPage : importersOf splitPage.imports =
    [("page",["b\x00./part.txt"]),("page\x00b",["./part.txt"])] :=
  importersOf_of_sorted (by decide +kernel) (by decide +kernel)

/-- The first run takes what memory has of the one importer for what the other one asks; the second
run has it from the cache and not in memory, and finds the file. -/
theorem not_alike_later_splitPage :
    ¬Alike (execute splitPage.anew)
      (execute (splitPage.anew.later splitPage.entries splitPage.view splitPage.hashes 0 1)) := by
  intro h
  have hf : (execute splitPage.anew).cache.map (·.files) = some (Table.ofList
      [("page",⟨"digest",none,Table.ofList [("b\x00./part.txt",
        { resolvedType := .external, packageName := some "b\x00." })]⟩)]) := by
    rw [Request.execute_eq,Request.closed,Request.anew_listed rfl,Request.opened_of_new _ rfl]
    rw [Request.anew_imports,importersOf_splitPage]
    decide +kernel
  have hn := congrArg (List.map Node.id) h.nodes
  rw [Request.execute_eq,Request.execute_eq,Request.closed,Request.closed,
    Request.anew_listed rfl,Request.opened_of_new _ rfl,Request.later_listed rfl _ _ _ _ rfl,
    Request.later_opened rfl _ _ _ _ rfl hf,Request.later_imports,Request.anew_imports,
    importersOf_splitPage] at hn
  revert hn
  decide +kernel

end ImportResolution.Run
