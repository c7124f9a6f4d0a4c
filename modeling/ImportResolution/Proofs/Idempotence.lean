import ImportResolution.Proofs.Indexed
import ImportResolution.Proofs.Unindexed

/-! A second run over unchanged inputs. Every outcome that a run comes to holds when it is looked up
again, and every importer is kept with all that it asks, so that the second run computes nothing. -/
namespace ImportResolution.Run

-- No text is computed here, and no unifier should try to.
attribute [local irreducible] String.toList

section Fresh
variable {r : Rules} {q : Query}

/-- Only a search of the disk comes to a file outside the index. -/
theorem answer_cases :
    (answer r q).isEphemeral = false ∧ (answer r q).fallbackPath = none ∨
      ∃ path, located? r q = none ∧ probed? r q = some path ∧ answer r q =
        { resolvedType := .external, fallbackPath := some path, isEphemeral := true } := by
  unfold answer
  split
  · unfold pathEntry
    split
    · exact .inl ⟨rfl,rfl⟩
    · next hl =>
      split
      · exact .inl ⟨rfl,rfl⟩
      · unfold probedEntry
        split
        · exact .inl ⟨rfl,rfl⟩
        · split
          · next path hp => exact .inr ⟨path,hl,hp,rfl⟩
          · exact .inl ⟨rfl,rfl⟩
  · unfold bareEntry
    split
    · exact .inl ⟨rfl,rfl⟩
    · split
      · exact .inl ⟨rfl,rfl⟩
      · split <;> exact .inl ⟨rfl,rfl⟩

theorem of_isEphemeral (h : (answer r q).isEphemeral = true) :
    ∃ path, located? r q = none ∧ probed? r q = some path ∧
      answer r q = { resolvedType := .external, fallbackPath := some path, isEphemeral := true } := by
  rcases answer_cases (r := r) (q := q) with ⟨hn,-⟩ | hp
  · rw [hn] at h
    cases h
  · exact hp

/-- A specifier whose file, if a search finds one, is in truth outside the index. -/
def IsOutside (r : Rules) (q : Query) : Prop :=
  ∀ path, probed? r q = some path →
    Path.normalize path = path ∧ r.files.candidate? path = none

/-- The moment that files outside the index are trusted to is not beyond the clock. -/
def Rules.IsTimely (r : Rules) : Prop :=
  expiry r.now r.settings.limits.ephemeralTtl = r.now + r.settings.limits.ephemeralTtl

instance (r : Rules) : Decidable r.IsTimely := inferInstanceAs (Decidable (_ = _))

/-- An outcome by the rules holds at the moment that it was found. -/
theorem isStillValid_freshEntry (hr : r.HasTrueIndex) (ht : r.IsTimely)
    (hq : ¬Relative.IsPlain q.spec q.importer → IsOutside r q) :
    isStillValid r (freshEntry r q) = true := by
  unfold isStillValid
  split
  · next hi =>
    obtain ⟨path,hp,hm⟩ := answer_isIndexed r q hi
    have hp : (freshEntry r q).resolvedPath = some path := hp
    rw [hp]
    exact (FileSet.contains_iff _ _).mpr hm
  · split
    · next he =>
      obtain ⟨path,hlocated,hprobed,ha⟩ := of_isEphemeral he
      have hout : Path.normalize path = path ∧ r.files.candidate? path = none := by
        by_cases hplain : Relative.IsPlain q.spec q.importer
        · exact outside_of_isPlain hprobed hplain hlocated hr
        · exact hq hplain path hprobed
      have hfallback : (freshEntry r q).fallbackPath = some path :=
        congrArg Cache.Entry.fallbackPath ha
      have hexpires : (freshEntry r q).expiresAt =
          some (r.now + r.settings.limits.ephemeralTtl) := by
        rw [freshEntry,ha,← show expiry _ _ = _ from ht]
        rfl
      have hlive : (freshEntry r q).isExpired r.now = false := by
        rw [Cache.Entry.isExpired,hexpires,Option.any_some,decide_eq_false_iff_not]
        omega
      rw [hfallback,isStillValid_of_probed? hprobed hr hout.1 hout.2,hlive]
      rfl
    · rfl

theorem upkeep_isStillValid {Q : Query → Prop} (hr : r.HasTrueIndex) (ht : r.IsTimely)
    (hq : ∀ q, Q q → ¬Relative.IsPlain q.spec q.importer → IsOutside r q) :
    Upkeep r Q fun _ entry => isStillValid r entry = true where
  whole _ _ _ hv := isWhole_of_isStillValid hv
  shared _ _ _ _ _ _ hv := hv
  refiled _ _ _ _ hv hf := hf.isStillValid_eq.trans hv
  computed q _ _ hu _ hf :=
    hf.isStillValid_eq.trans (isStillValid_freshEntry hr ht (hq q hu))

end Fresh

/-- What is kept of an importer answers all that the importer asks. -/
structure Answers (r : Rules) (hashes : Table String) (item : String × List String)
    (f : Cache.FileEntry) : Prop where
  hash : hashes.find? item.1 = some f.hash
  config : f.configFingerprint = stamp (profileFor r item.1 (specifiersOf item.2))
  specs : ∀ u ∈ queriesOf r item, ∃ e, f.specs.find? u.spec = some e ∧ isStillValid r e = true

theorem find?_foldl_keep {r : Rules} {hashes : Table String} {xs : List FileRecord}
    (hn : (xs.map (·.rel)).Nodup) {x : FileRecord} (hx : x ∈ xs) {hash : String}
    (hh : hashes.find? x.rel = some hash) (files : Table Cache.FileEntry) :
    (xs.foldl (FileRecord.keep r hashes) files).find? x.rel =
      some ⟨hash,stamp (profileFor r x.rel x.raws),entriesOf x.settled⟩ := by
  refine FileRecord.find?_foldl hn hx ?_ (fun t => ?_) files
  · intro t y hy
    rw [FileRecord.keep]
    split
    · rw [Table.find?_insert,if_neg hy.symm]
    · rfl
  · rw [FileRecord.keep,hh]
    simp

/-- A run whose outcomes hold leaves every importer with all that it asks. -/
theorem Request.exists_answers (q : Request) (hh : ∀ rel ∈ q.importers, (q.hashes.find? rel).isSome)
    (hn : q.importers.Nodup) (hv : ∀ x ∈ q.settled, isStillValid q.ruled x.entry = true)
    {c : Cache.Persisted} (hc : (execute q).cache = some c) :
    ∀ item ∈ importersOf q.imports, ∃ f, c.files.find? item.1 = some f ∧
      Answers q.ruled q.hashes item f := by
  obtain ⟨-,-,hcache⟩ := q.trace_queries
  intro item hi
  obtain ⟨x,hx,hrel,hraws,hquery⟩ := exists_record_of_mem hi
  obtain ⟨hash,hhash⟩ := Option.isSome_iff_exists.mp (hh item.1 (List.mem_map_of_mem hi))
  rw [q.cache_eq,hcache] at hc
  obtain ⟨d,-,rfl⟩ := Option.map_eq_some_iff.mp hc
  have hfind := find?_foldl_keep (r := q.ruled) (q.trace_importers ▸ hn) hx
    (hrel ▸ hhash) d.files
  rw [hrel,hraws] at hfind
  refine ⟨_,hfind,hhash,rfl,?_⟩
  intro u hu
  obtain ⟨y,hy,rfl⟩ := List.mem_map.mp (hquery ▸ hu)
  obtain ⟨e,he⟩ := exists_entry_of_mem hy
  obtain ⟨z,hz,-,rfl⟩ := exists_of_entriesOf he
  exact ⟨z.entry,he,hv z (List.mem_flatMap.mpr ⟨x,hx,hz⟩)⟩

section Steps
variable {r : Rules}

/-- The number of specifiers that had to be computed. -/
def State.computed (s : State) : Option Nat := s.cacheUsage.map (·.specsComputed)

/-- What is kept and holds is not computed. -/
theorem resolveSpec_computed {q : Query} {f : FileState} (h : (persisted? r q f).isSome = true)
    (s : State) : (resolveSpec r q f s).2.computed = s.computed := by
  obtain ⟨entry,he⟩ := Option.isSome_iff_exists.mp h
  obtain ⟨-,-,hc⟩ := settle_counts r q none { purse := Purse.of r.policy } (s.countSpec true) entry f
  have hu : (resolveSpec r q f s).2.cacheUsage = (s.countSpec true).cacheUsage := by
    simp only [resolveSpec,outcome,he]
    exact hc.cacheUsage
  rw [State.computed,hu,State.countSpec,State.computed,Option.map_map]
  rfl

theorem resolveRaws_computed {rel : String} {profile : Option TsConfig.Profile} {raws : List String}
    (acc : FileState × State)
    (h : ∀ raw ∈ raws, Specifier.normalize raw ≠ "" →
      ∃ e, (acc.1.persisted.bind fun p => p.specs.find? (Specifier.normalize raw)) = some e ∧
        isStillValid r e = true) :
    (raws.foldl (resolveRaw r (Importer.of rel) profile) acc).2.computed = acc.2.computed := by
  induction raws generalizing acc with
  | nil => rfl
  | cons raw rest ih =>
    have hrest := fun other ho => h other (.tail _ ho)
    rw [List.foldl_cons]
    by_cases hn : Specifier.normalize raw = ""
    · have ht : resolveRaw r (Importer.of rel) profile acc raw = (acc.1,acc.2.normalized false) := by
        simp [resolveRaw,hn]
      rw [ht]
      exact ih _ hrest
    · have ht : resolveRaw r (Importer.of rel) profile acc raw =
          resolveSpec r (.of (Importer.of rel) profile raw) acc.1 (acc.2.normalized true) := by
        simp [resolveRaw,hn,Query.of]
      obtain ⟨hg,-,-⟩ := resolveSpec_step r (.of (Importer.of rel) profile raw) acc.1 acc.2
      obtain ⟨e,he,hv⟩ := h raw (.head _) hn
      have hp : (persisted? r (.of (Importer.of rel) profile raw) acc.1).isSome = true := by
        have hf : persisted? r (.of (Importer.of rel) profile raw) acc.1 = some e :=
          Option.filter_eq_some_iff.mpr ⟨he,hv⟩
        rw [hf]
        rfl
      rw [ht,ih _ ?_,resolveSpec_computed hp]
      · rfl
      · intro other ho hne
        rw [hg,(Settled.gather_kept _ _).1]
        exact hrest other ho hne

/-- An importer that the cache has under its content and configuration is taken from there. -/
theorem openCached_of_find {rel : String} {c : Cache.Persisted} {f : Cache.FileEntry}
    (h : c.files.find? rel = some f) (usage : CacheUsage) :
    let t := openCached rel (some f.hash) f.configFingerprint (some c) (some usage)
    t.1 = some f ∧ t.2.map (·.specsComputed) = some usage.specsComputed := by
  have hk : c.fileEntry? rel f.hash f.configFingerprint = some f :=
    Option.filter_eq_some_iff.mpr ⟨h,by simp⟩
  simp only [openCached,openFile,hk]
  exact ⟨trivial,rfl⟩

variable {hashes : Table String} {p : Progress} {item : String × List String}

theorem enterFile_answers {c : Cache.Persisted} (hc : p.cache = some c) {usage : CacheUsage}
    (hu : p.state.cacheUsage = some usage) {f : Cache.FileEntry}
    (hf : c.files.find? item.1 = some f) (ha : Answers r hashes item f)
    (hprofile : (enterFile r hashes p item).1 = profileFor r item.1 (specifiersOf item.2)) :
    (enterFile r hashes p item).2.1.persisted = some f ∧
      (enterFile r hashes p item).2.2.computed = p.state.computed := by
  obtain ⟨configs,hs⟩ := configOf_state r (Importer.of item.1) (specifiersOf item.2)
    { p.state with graph := (p.state.graph.addNode (fileNodeId item.1) .file).2 }
  simp only [enterFile,hs] at hprofile ⊢
  rw [hprofile,hc,hu,ha.hash,← stamp,← ha.config]
  obtain ⟨hopen,husage⟩ := openCached_of_find hf usage
  refine ⟨hopen,?_⟩
  rw [State.computed,State.computed,hu]
  exact husage

/-- Where an importer's outcomes are kept and hold, none is computed. -/
theorem resolveFile_computed {c : Cache.Persisted} (hc : p.cache = some c) {usage : CacheUsage}
    (hu : p.state.cacheUsage = some usage) {f : Cache.FileEntry}
    (hf : c.files.find? item.1 = some f) (ha : Answers r hashes item f)
    (hprofile : (enterFile r hashes p item).1 = profileFor r item.1 (specifiersOf item.2)) :
    (resolveFile r hashes p item).state.computed = p.state.computed := by
  obtain ⟨hpersisted,hcomputed⟩ := enterFile_answers hc hu hf ha hprofile
  unfold resolveFile
  generalize enterFile r hashes p item = entered at hpersisted hcomputed hprofile ⊢
  obtain ⟨profile,g,s⟩ := entered
  simp only at hpersisted hcomputed hprofile ⊢
  rw [← hcomputed]
  apply resolveRaws_computed (g,s)
  intro raw hr hn
  rw [hpersisted]
  exact ha.specs (.of (Importer.of item.1) (profileFor r item.1 (specifiersOf item.2)) raw)
    (List.mem_map.mpr ⟨raw,List.mem_filter.mpr ⟨hr,by simpa using hn⟩,rfl⟩)

/-- Before an importer, all that it and the importers to come ask is kept. -/
structure Progress.Provides (r : Rules) (hashes : Table String) (items : List (String × List String))
    (p : Progress) : Prop where
  upholds : p.Upholds r hashes (fun _ => True) fun _ entry => entry.IsWhole
  cache : ∃ c, p.cache = some c ∧ ∀ item ∈ items, ∃ f, c.files.find? item.1 = some f ∧
    Answers r hashes item f
  computed : p.state.computed = some 0

theorem Progress.Provides.step {items : List (String × List String)}
    (h : p.Provides r hashes (item :: items)) (hn : item.1 ∉ items.map Prod.fst) :
    (resolveFile r hashes p item).Provides r hashes items := by
  obtain ⟨c,hc,hf⟩ := h.cache
  obtain ⟨f,hfind,ha⟩ := hf item (.head _)
  obtain ⟨usage,hu,-⟩ := Option.map_eq_some_iff.mp h.computed
  obtain ⟨-,-,hcache,hstate⟩ :=
    (upkeep_isWhole r fun _ => True).file h.upholds fun (u : Query) (_ : u ∈ queriesOf r item) =>
      trivial
  refine ⟨⟨hstate,fun _ _ _ _ _ _ _ _ _ _ _ _ hv => isWhole_of_isStillValid hv⟩,?_,?_⟩
  · rw [hc] at hcache
    refine ⟨_,hcache,?_⟩
    intro other ho
    obtain ⟨g,hg,hanswers⟩ := hf other (.tail _ ho)
    have hne : other.1 ≠ (recordOf r hashes p item).rel := fun he =>
      hn ((show other.1 = item.1 from he) ▸ List.mem_map_of_mem ho)
    refine ⟨g,?_,hanswers⟩
    simp only [FileRecord.keep]
    split
    · rw [Table.find?_insert,if_neg hne]
      exact hg
    · exact hg
  · rw [resolveFile_computed hc hu hfind ha (h.upholds.enter item).1]
    exact h.computed

theorem Progress.Provides.run {items : List (String × List String)}
    (h : p.Provides r hashes items) (hn : (items.map Prod.fst).Nodup) :
    (items.foldl (resolveFile r hashes) p).state.computed = some 0 := by
  induction items generalizing p with
  | nil => exact h.computed
  | cons item rest ih =>
    obtain ⟨hi,hr⟩ := List.nodup_cons.mp hn
    exact ih (h.step hi) hr

end Steps

/-- A run that starts with all that it asks reuses every outcome. -/
theorem Request.reuses_of_answers (q : Request) {c : Cache.Persisted} {usage : CacheUsage}
    (ho : q.opened = q.start (some (c,usage)))
    (hu : usage.specs = 0 ∧ usage.specsReused = 0 ∧ usage.specsComputed = 0)
    (ha : ∀ item ∈ importersOf q.imports, ∃ f, c.files.find? item.1 = some f ∧
      Answers q.ruled q.hashes item f) (hn : q.importers.Nodup) :
    ∃ usage, (execute q).cacheUsage = some usage ∧ usage.specsComputed = 0 ∧
      usage.specsReused = usage.specs ∧ usage.specs = q.asked.length := by
  obtain ⟨hs,hr,hc⟩ := hu
  have hcache : q.opened.cache = some c := by rw [ho]; rfl
  have husage : q.opened.state.cacheUsage = some usage := by rw [ho]; rfl
  have hp : q.opened.Provides q.ruled q.hashes (importersOf q.imports) := by
    refine ⟨?_,⟨c,hcache,ha⟩,by rw [State.computed,husage,Option.map_some,hc]⟩
    exact q.opened_upholds fun _ _ _ _ _ _ _ _ _ _ _ _ hv => isWhole_of_isStillValid hv
  obtain ⟨last,hlast,hzero⟩ := Option.map_eq_some_iff.mp (hp.run hn)
  obtain ⟨-,-,ht⟩ := q.closed_run
  have hclosed : q.closed.state.cacheUsage = some last := hlast
  have hspecs := ht.specs
  have hshares := ht.shares
  rw [hclosed,husage] at hspecs hshares
  simp only [Option.map_some,Option.some.injEq,hs,Nat.zero_add] at hspecs
  have hsum := hshares (fun d hd => by rw [← Option.some.inj hd,hs,hr,hc]) last rfl
  have hlen : q.settled.length = q.asked.length := by
    rw [← q.settled_asked,List.length_map]
  refine ⟨last,hlast,hzero,?_,hspecs.trans hlen⟩
  omega

/-- A second run over unchanged inputs at the same moment, with the cache that the first one left,
reuses every outcome, as long as what searches find elsewhere than at the place that the index was asked
for is in truth outside the index. -/
theorem reuses_seeded (q : Request) (hh : ∀ rel ∈ q.importers, (q.hashes.find? rel).isSome)
    (hn : q.importers.Nodup) (ht : q.anew.ruled.IsTimely) (hr : q.anew.ruled.HasTrueIndex)
    (ho : ∀ u ∈ q.anew.queries, ¬Relative.IsPlain u.spec u.importer → IsOutside q.anew.ruled u) :
    ∃ usage, (execute (q.anew.seeded (execute q.anew).cache)).cacheUsage = some usage ∧
      usage.specsComputed = 0 ∧ usage.specsReused = usage.specs ∧ usage.specs = q.asked.length := by
  have hvalid : ∀ x ∈ q.anew.settled, isStillValid q.anew.ruled x.entry = true := by
    apply q.anew.upheld (upkeep_isStillValid hr ht ho)
    intro c hc rel f hf
    obtain ⟨d,hd,hk⟩ := (q.anew.exists_of_opened hc).2 rel f hf
    rw [find?_of_new (.inr rfl) hd] at hk
    cases hk
  obtain ⟨files,hc⟩ := q.anew.left_of_new rfl
  have hanswers := q.anew.exists_answers hh hn hvalid hc
  have hlater : q.anew.seeded (execute q.anew).cache =
      q.anew.later q.entries q.view q.hashes q.now q.settings.limits.maxCacheEntries := rfl
  have hruled : q.anew.ruled = (q.anew.seeded (execute q.anew).cache).ruled := by
    rw [hlater,q.later_ruled rfl,q.anew.ruled_of_new rfl]
    rfl
  rw [hruled] at hanswers
  have hopened := Request.opened_of_trusts
    (t := q.anew.seeded (execute q.anew).cache) hc rfl rfl (q.trusts_later rfl _ _ _ _ rfl)
  exact (q.anew.seeded (execute q.anew).cache).reuses_of_answers hopened ⟨rfl,rfl,rfl⟩ hanswers hn

/-- A query is plain when the normal form of what was asked is. -/
theorem isPlain_of_normalized {q : Request}
    (h : ∀ a ∈ q.normalized, Relative.IsPlain a.2 (Importer.of a.1)) :
    ∀ u ∈ q.anew.queries, Relative.IsPlain u.spec u.importer := by
  intro u hu
  obtain ⟨ha,-⟩ := q.anew.asks_of_mem_queries hu
  rw [ha.importer]
  exact h _ ha.mem

/-- A page with a file of the index, a package, and a file that is on the disk alone. -/
def latePlainPage : Request := { plainPage with view := lateDisk }

theorem reuses_seeded_latePlainPage :
    (∀ u ∈ latePlainPage.anew.queries, Relative.IsPlain u.spec u.importer) ∧
      probed? latePlainPage.anew.ruled (.of (Importer.of "page") none "./gone.txt") =
        some "gone.txt" ∧
      ∃ usage, (execute (latePlainPage.anew.seeded (execute latePlainPage.anew).cache)).cacheUsage =
          some usage ∧
        usage.specsComputed = 0 ∧ usage.specsReused = usage.specs ∧
          usage.specs = latePlainPage.asked.length := by
  have hi : latePlainPage.importers = ["page"] := congrArg (List.map Prod.fst) importersOf_plainPage
  have hplain : ∀ u ∈ latePlainPage.anew.queries, Relative.IsPlain u.spec u.importer := by
    apply isPlain_of_normalized
    rw [Request.normalized,Request.asked,
      show importersOf latePlainPage.imports = _ from importersOf_plainPage]
    decide +kernel
  have hindex : latePlainPage.anew.ruled.HasTrueIndex := by
    intro path h
    have hn : latePlainPage.anew.ruled.site.index = none := by
      rw [Request.anew_listed rfl]
      rfl
    rw [Probe.indexAnswer,hn] at h
    cases h
  refine ⟨hplain,by rw [Request.anew_listed rfl]; decide +kernel,?_⟩
  have htimely : latePlainPage.anew.ruled.IsTimely := by
    rw [Request.anew_listed rfl]
    decide +kernel
  exact reuses_seeded latePlainPage (by rw [hi]; decide +kernel) (by rw [hi]; decide +kernel)
    htimely hindex fun u hu hn => absurd (hplain u hu) hn

/-- A page with a script beside it, which it names from the root. -/
def webPage : Request where
  root := "/r"
  entries := [⟨"/r/web/app.js",none⟩,⟨"/r/web/index.html",none⟩]
  imports := Table.ofList [("web/index.html",["/app"])]
  settings := fixedBudgets
  hashes := Table.ofList [("web/index.html","digest")]
  view := ⟨⟨[(["r"],.dir),(["r","web"],.dir),(["r","web","app.js"],.file .empty),
    (["r","web","index.html"],.file .empty)]⟩,{}⟩
  now := 0

theorem importersOf_webPage : importersOf webPage.imports = [("web/index.html",["/app"])] :=
  importersOf_of_sorted (by decide +kernel) (by decide +kernel)

/-- The script is found on the disk, since the index is asked for it at the root alone; asked for by its
path, the index has it, so that the outcome is computed in every run. -/
theorem computed_webPage :
    (∀ rel ∈ webPage.importers, (webPage.hashes.find? rel).isSome) ∧ webPage.importers.Nodup ∧
      webPage.anew.ruled.IsTimely ∧
      (execute (webPage.anew.seeded (execute webPage.anew).cache)).cacheUsage.map (·.specsComputed) =
        some 1 := by
  have hi : webPage.importers = ["web/index.html"] := congrArg (List.map Prod.fst) importersOf_webPage
  have hf : (execute webPage.anew).cache.map (·.files) = some (Table.ofList
      [("web/index.html",⟨"digest",none,Table.ofList [("/app",
        { resolvedType := .external, isEphemeral := true, fallbackPath := some "web/app.js",
          expiresAt := some (expiry 0 webPage.settings.limits.ephemeralTtl) })]⟩)]) := by
    rw [Request.execute_eq,Request.closed,Request.anew_listed rfl,Request.opened_of_new _ rfl,
      Request.anew_imports,importersOf_webPage]
    decide +kernel
  have hq : webPage.anew.seeded (execute webPage.anew).cache =
      webPage.anew.later webPage.entries webPage.view webPage.hashes 0
        webPage.settings.limits.maxCacheEntries := rfl
  have htimely : webPage.anew.ruled.IsTimely := by
    rw [Request.anew_listed rfl]
    decide +kernel
  refine ⟨by rw [hi]; decide +kernel,by rw [hi]; decide +kernel,htimely,?_⟩
  rw [hq,Request.execute_eq,Request.closed,Request.later_listed rfl _ _ _ _ rfl,
    Request.later_opened rfl _ _ _ _ rfl hf,Request.later_imports,Request.anew_imports,
    importersOf_webPage]
  decide +kernel

end ImportResolution.Run
