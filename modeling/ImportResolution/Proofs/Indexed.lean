import ImportResolution.Proofs.Reuse
import ImportResolution.Proofs.Sequence
import ImportResolution.Proofs.Taxonomy

/-! Targets in the repository are indexed files. Every rule looks its candidates up before it answers,
and the ways of putting rules together add none; a cache serves a target as long as it is indexed. -/
namespace ImportResolution

-- No text is computed here, and no unifier should try to.
attribute [local irreducible] String.toList

namespace FileIndex

/-- The answer of a rule, if there is one, is a file of the index. -/
def Offers (i : FileIndex) (answer : Option String) : Prop := ∀ p, answer = some p → p ∈ i.files

variable {i : FileIndex}

namespace Offers

theorem none : i.Offers none := fun _ h => nomatch h

theorem or {a b : Option String} (ha : i.Offers a) (hb : i.Offers b) : i.Offers (a.or b) := by
  cases a with
  | none => exact hb
  | some p => exact ha

theorem bind {α : Type} (o : Option α) {f : α → Option String} (h : ∀ x, i.Offers (f x)) :
    i.Offers (o.bind f) := by
  cases o with
  | none => exact none
  | some x => exact h x

theorem ite {c : Prop} [Decidable c] {a b : Option String} (ha : i.Offers a) (hb : i.Offers b) :
    i.Offers (if c then a else b) := by
  split
  · exact ha
  · exact hb

theorem findSome? {α : Type} {f : α → Option String} (h : ∀ x, i.Offers (f x)) (xs : List α) :
    i.Offers (xs.findSome? f) := by
  intro p hp
  obtain ⟨x,-,hx⟩ := List.exists_of_findSome?_eq_some hp
  exact h x p hx

end Offers

theorem offers_candidate? (path : String) : i.Offers (i.candidate? path) :=
  fun _ h => mem_of_candidate? h

theorem offers_first? (candidates : List String) : i.Offers (i.first? candidates) :=
  fun _ h => mem_of_first? h

theorem offers_filesIn (dir : String) (ending : Option String) :
    i.Offers (i.filesIn dir ending).head? := by
  intro p h
  have hm := List.mem_of_head? h
  simp only [filesIn,List.mem_append,List.mem_filter] at hm
  rcases hm with hm | hm <;> exact hm.1.1

end FileIndex

open FileIndex (Offers)

variable (i : FileIndex)

/-! What several ecosystems share. -/

theorem Search.offers_withExtensions? (base : String) (extensions entries : List String) :
    i.Offers (withExtensions? i base extensions entries) :=
  .ite .none (FileIndex.offers_first? _)

theorem Search.offers_fromBases? (bases extensions entries : List String) :
    i.Offers (fromBases? i bases extensions entries) :=
  .findSome? (fun _ => Search.offers_withExtensions? i _ _ _) bases

theorem Search.offers_rubyLoadPath? (spec : String) : i.Offers (rubyLoadPath? i spec) :=
  .ite .none (.or (Search.offers_withExtensions? i _ _ _) (Search.offers_withExtensions? i _ _ _))

theorem PathLike.offers_search? (importer : Importer) (candidates : List String) :
    i.Offers (search? i importer candidates) :=
  FileIndex.offers_first? _

theorem PathLike.offers_resolve? (spec : String) (importer : Importer) :
    i.Offers (resolve? i spec importer) := by
  unfold resolve?
  refine .ite .none ?_
  cases Label.parse? (Path.toPosix (Text.trim spec)) importer.dir with
  | some label => exact .ite .none (PathLike.offers_search? i importer _)
  | none =>
    simp only
    cases Text.afterHead? "/" (Path.toPosix (Text.trim spec)) with
    | some absolute => exact .ite .none (PathLike.offers_search? i importer _)
    | none =>
      exact .ite (PathLike.offers_search? i importer _)
        (.ite .none (PathLike.offers_search? i importer _))

theorem Include.offers_resolve? (spec : String) (importer : Importer) :
    i.Offers (resolve? i spec importer) :=
  .or (PathLike.offers_resolve? i spec importer)
    (.ite .none (.or (FileIndex.offers_first? _) (.ite .none (Search.offers_fromBases? i _ _ _))))

theorem Dart.offers_package? (spec : String) (own : Option String) :
    i.Offers (package? i spec own) :=
  .bind _ fun _ => .ite .none (FileIndex.offers_first? _)

theorem Dart.offers_resolve? (spec : String) (importer : Importer) (own : Option String) :
    i.Offers (resolve? i spec importer own) :=
  .ite .none (.or (Dart.offers_package? i spec own) (.ite .none
    (.or (PathLike.offers_resolve? i spec importer)
      (.ite .none (Search.offers_fromBases? i _ _ _)))))

theorem Dotted.offers_resolve? (spec : String) (extensions roots : List String) :
    i.Offers (resolve? i spec extensions roots) :=
  .ite .none (.ite (FileIndex.offers_first? _) .none)

theorem Python.offers_relativeDotted? (spec : String) (importer : Importer) :
    i.Offers (relativeDotted? i spec importer) :=
  .ite .none (.ite (FileIndex.offers_first? _) (Search.offers_withExtensions? i _ _ _))

theorem Python.offers_resolve? (spec : String) (importer : Importer) :
    i.Offers (resolve? i spec importer) :=
  .ite (FileIndex.offers_first? _) .none

/-! Specifiers that are paths. -/

theorem Relative.offers_byTable? (base : String) (ecosystem : Ecosystem) :
    i.Offers (byTable? i base ecosystem) :=
  .bind _ fun _ => Search.offers_withExtensions? i _ _ _

theorem Relative.offers_resolve? (spec base : String) (importer : Importer) :
    i.Offers (resolve? i spec base importer) := by
  unfold resolve?
  split
  · exact .ite (Python.offers_relativeDotted? i spec importer) (Relative.offers_byTable? i _ _)
  · exact .or (Relative.offers_byTable? i _ _) (FileIndex.offers_filesIn _ _)
  · exact Dart.offers_resolve? i spec importer _
  iterate 6 exact PathLike.offers_resolve? i spec importer
  iterate 2 exact .none
  · exact Relative.offers_byTable? i _ _

/-! Bare specifiers. -/

namespace Bare

theorem offers_go? (spec : String) (module : Option String) : i.Offers (go? i spec module) :=
  .bind _ fun _ => .or (FileIndex.offers_first? _)
    (.or (FileIndex.offers_filesIn _ _) (FileIndex.offers_filesIn _ _))

theorem offers_swift? (spec : String) : i.Offers (swift? i spec) :=
  .ite .none (.or (FileIndex.offers_first? _) (FileIndex.offers_filesIn _ _))

theorem offers_julia? (spec : String) : i.Offers (julia? i spec) :=
  .ite .none (.bind _ fun _ => FileIndex.offers_first? _)

theorem offers_rust? (spec : String) (importer : Importer) : i.Offers (rust? i spec importer) :=
  .ite .none (.bind _ fun _ => FileIndex.offers_first? _)

theorem offers_path? (spec : String) (importer : Importer) (names : Names) :
    i.Offers (path? i spec importer names) := by
  have hpath : i.Offers
      (if Search.looksLikePath spec then PathLike.resolve? i spec importer else none) :=
    .ite (PathLike.offers_resolve? i spec importer) .none
  unfold path?
  cases importer.ecosystem with
  | ruby => exact Search.offers_rubyLoadPath? i spec
  | python => exact Python.offers_resolve? i spec importer
  | perl => exact .ite (FileIndex.offers_first? _) .none
  | lua => exact .ite (FileIndex.offers_first? _) .none
  | php => exact .ite (FileIndex.offers_first? _) .none
  | shell => exact hpath
  | go => exact offers_go? i spec names.goModule
  | java => exact Dotted.offers_resolve? i spec _ _
  | kotlin => exact Dotted.offers_resolve? i spec _ _
  | cSharp => exact Dotted.offers_resolve? i spec _ _
  | swift => exact offers_swift? i spec
  | dart => exact Dart.offers_resolve? i spec importer _
  | scala => exact .bind _ fun _ => Dotted.offers_resolve? i _ _ _
  | groovy => exact .bind _ fun _ => Dotted.offers_resolve? i _ _ _
  | julia => exact offers_julia? i spec
  | cLike => exact .ite (Include.offers_resolve? i spec importer) .none
  | rust => exact offers_rust? i spec importer
  | bazel => exact hpath
  | nix => exact hpath
  | cMake => exact hpath
  | toml => exact hpath
  | pathLike => exact hpath
  | javaScript => exact .none
  | other => exact .none

end Bare

/-! Packages and configurations. -/

namespace PackageEntry

theorem offers_packageEntry (v : DiskView) (root dir : String) :
    i.Offers <| PackageEntry.entry? i v root dir :=
  .ite (.or (.bind _ fun _ => .findSome? (fun _ => FileIndex.offers_candidate? _) _)
    (.findSome? (fun _ => FileIndex.offers_candidate? _) _)) .none

theorem offers_admitted? (v : DiskView) (root dir : String) : i.Offers (admitted? i v root dir) :=
  .ite (offers_packageEntry i v root _) .none

end PackageEntry

namespace TsConfig.Profile

/-- The best of hits is one of them. -/
theorem mem_of_best? {hits : List RankedHit} {h : RankedHit} (hb : best? hits = some h) :
    h ∈ hits := by
  have hk : ∀ b, best? hits = some b → b ∈ hits := by
    refine List.foldlRecOn (motive := fun best => ∀ b, best = some b → b ∈ hits) hits _
      (fun _ hn => nomatch hn) ?_
    intro best hm x hx b hb
    cases best with
    | none => exact Option.some.inj hb ▸ hx
    | some old =>
      simp only at hb
      split at hb
      · exact Option.some.inj hb ▸ hx
      · exact hm b hb
  exact hk h hb

theorem offers_resolve? (p : Profile) (spec : String) :
    i.Offers ((p.resolve? i spec).map (·.path)) := by
  intro path h
  obtain ⟨hit,hr,rfl⟩ := Option.map_eq_some_iff.mp h
  unfold resolve? at hr
  split at hr
  · next best hb =>
    obtain rfl := Option.some.inj hr
    obtain ⟨rule,-,ht⟩ := List.mem_flatMap.mp (mem_of_best? hb)
    obtain ⟨target,-,hm⟩ := List.mem_filterMap.mp ht
    obtain ⟨found,hf,rfl⟩ := Option.map_eq_some_iff.mp hm
    exact FileIndex.mem_of_candidate? hf
  · obtain ⟨found,hf,rfl⟩ := Option.map_eq_some_iff.mp hr
    obtain ⟨base,-,hc⟩ := Option.bind_eq_some_iff.mp hf
    exact FileIndex.mem_of_candidate? hc

end TsConfig.Profile

/-- An indexed file takes no step up. -/
theorem FileSet.up_not_mem_of_mem {p root : String} {entries : List Entry}
    (h : p ∈ ofEntries root entries) : ".." ∉ Path.segments p := by
  have hi := isInside_of_mem_ofEntries h
  simp only [ofEntries,mem_ofList,List.mem_filterMap,Entry.rel?] at h
  obtain ⟨e,-,he⟩ := h
  obtain ⟨he,-⟩ := Option.filter_eq_some_iff.mp he
  split at he
  · obtain rfl := Option.some.inj he
    exact Path.up_not_mem_normalize hi
  · exact Location.up_not_mem_within? he

namespace Cache.Entry

/-- An outcome in the repository names an indexed file. -/
def IsIndexed (files : FileSet) (e : Entry) : Prop :=
  e.resolvedType.isInRepo = true → ∃ path, e.resolvedPath = some path ∧ path ∈ files

theorem isIndexed_of_not {files : FileSet} {e : Entry} (h : e.resolvedType.isInRepo = false) :
    e.IsIndexed files := by
  intro hi
  rw [h] at hi
  cases hi

end Cache.Entry

namespace Run
section Answer
variable (r : Rules) (q : Query)

theorem offers_packaged? (dir : String) : r.files.Offers (packaged? r dir) :=
  .ite .none (PackageEntry.offers_admitted? r.files _ _ _)

theorem offers_located? : r.files.Offers (located? r q) :=
  .or (.or (Relative.offers_resolve? r.files _ _ _) (FileIndex.offers_candidate? _))
    (offers_packaged? r _)

theorem offers_aliased? (target : String) : r.files.Offers (aliased? r target) :=
  .or (FileIndex.offers_candidate? _) (offers_packaged? r _)

theorem offers_mappedPath? : r.files.Offers ((mappedPath? r q).map (·.path)) := by
  unfold mappedPath?
  split
  · cases q.profile with
    | none => exact .none
    | some p => exact TsConfig.Profile.offers_resolve? r.files p q.spec
  · exact .none

theorem probedEntry_isInRepo : (probedEntry r q).resolvedType.isInRepo = false := by
  unfold probedEntry
  split
  · rfl
  · split <;> rfl

theorem pathEntry_isIndexed : (pathEntry r q).IsIndexed r.files.files := by
  unfold pathEntry
  split
  · next path hl => exact fun _ => ⟨path,rfl,offers_located? r q path hl⟩
  · split
    · exact Cache.Entry.isIndexed_of_not rfl
    · exact Cache.Entry.isIndexed_of_not (probedEntry_isInRepo r q)

theorem bareEntry_isIndexed : (bareEntry r q).IsIndexed r.files.files := by
  unfold bareEntry
  split
  · next hit hm => exact fun _ => ⟨hit.path,rfl,offers_mappedPath? r q _ (by rw [hm]; rfl)⟩
  · split
    · next path ha => exact fun _ => ⟨path,rfl,Offers.findSome? (offers_aliased? r) _ path ha⟩
    · split
      · next hit hb =>
        obtain ⟨path,hp,rfl⟩ := Option.map_eq_some_iff.mp hb
        exact fun _ => ⟨path,rfl,Bare.offers_path? r.files _ _ _ path hp⟩
      · exact Cache.Entry.isIndexed_of_not rfl

/-- What a specifier means in the repository is an indexed file. -/
theorem answer_isIndexed : (answer r q).IsIndexed r.files.files := by
  unfold answer
  split
  · exact pathEntry_isIndexed r q
  · exact bareEntry_isIndexed r q

end Answer

theorem Filed.isIndexed {r : Rules} {q : Query} {e : Effort} {entry last : Cache.Entry}
    (h : Filed r q e entry last) {files : FileSet} (hi : entry.IsIndexed files) :
    last.IsIndexed files := by
  cases h <;> exact hi

theorem upkeep_isIndexed (r : Rules) (Q : Query → Prop) :
    Upkeep r Q fun _ entry => entry.IsIndexed r.files.files where
  whole _ _ _ hx hi := (hx hi).imp fun _ hp => hp.1
  shared _ _ _ _ _ _ hx := hx
  refiled _ _ _ _ hx hf := hf.isIndexed hx
  computed q _ _ _ _ hf := hf.isIndexed (answer_isIndexed r q)

/-- Whatever cache it is given, a run settles specifiers on files of its index. -/
theorem Request.settled_isIndexed (q : Request) :
    ∀ x ∈ q.settled, x.entry.IsIndexed q.ruled.files.files :=
  q.upheld (upkeep_isIndexed q.ruled _) fun _ _ _ _ _ _ _ _ _ _ _ _ hv =>
    path_of_isStillValid hv

theorem Settled.edge_entry (x : Settled) :
    x.edge.resolvedType = x.entry.resolvedType ∧ x.edge.resolvedPath = x.entry.resolvedPath := by
  cases h : x.fate <;> simp only [edge,h] <;> exact ⟨rfl,rfl⟩

/-- After any runs, every edge that leads into the repository leads to a file that the request lists,
by a path below the root. -/
theorem edges_indexed {c : Option Cache.Persisted} (hc : c = none ∨ c = some .new)
    (earlier : List Request) (q : Request)
    (hf : ∀ t ∈ earlier, t.fileSet.fingerprint = q.fileSet.fingerprint → t.fileSet = q.fileSet) :
    ∀ e ∈ (execute (q.seeded (cacheAfter c earlier))).parts.edges,
      e.resolvedType ≠ .external → e.resolvedType ≠ .unresolved →
        ∃ path, e.resolvedPath = some path ∧ path ∈ q.fileSet ∧
          path ≠ "" ∧ Path.isRooted path = false ∧ Path.escapesRoot path = false ∧
          ".." ∉ Path.segments path := by
  intro e he hx hu
  obtain ⟨x,hm,rfl⟩ := Request.exists_of_mem_edges he
  obtain ⟨ht,hp⟩ := x.edge_entry
  rw [ht] at hx hu
  have hrepo : x.entry.resolvedType.isInRepo = true :=
    Decidable.byContradiction fun hn => hu (ResolvedType.unresolved_of_not hn hx)
  obtain ⟨path,hpath,hmem⟩ := (q.seeded (cacheAfter c earlier)).settled_isIndexed x hm hrepo
  rw [q.ruled_cacheAfter hc hf] at hmem
  have hi := FileSet.isInside_of_mem_ofEntries hmem
  simp only [Path.isInside,Bool.and_eq_true,Bool.not_eq_true',bne_iff_ne,ne_eq] at hi
  exact ⟨path,hp.trans hpath,hmem,hi.1.1,hi.1.2,hi.2,FileSet.up_not_mem_of_mem hmem⟩

/-- A page that is run a second time, with an edge to its part. -/
theorem edges_indexed_plainPage :
    let q := plainPage.seeded (cacheAfter (some .new) [plainPage])
    (∃ e ∈ (execute q).parts.edges, e.resolvedPath = some "part.txt") ∧
      ∀ e ∈ (execute q).parts.edges, e.resolvedType ≠ .external → e.resolvedType ≠ .unresolved →
        ∃ path, e.resolvedPath = some path ∧ path ∈ plainPage.fileSet ∧
          path ≠ "" ∧ Path.isRooted path = false ∧ Path.escapesRoot path = false ∧
          ".." ∉ Path.segments path := by
  refine ⟨?_,edges_indexed (.inr rfl) [plainPage] plainPage fun t ht _ => by
    rw [List.mem_singleton.mp ht]⟩
  have hq : plainPage.seeded (cacheAfter (some .new) [plainPage]) =
      plainPage.anew.later plainPage.entries plainPage.view plainPage.hashes 0
        plainPage.settings.limits.maxCacheEntries := rfl
  simp only [Request.mem_edges]
  rw [hq,Request.closed,Request.later_listed rfl _ _ _ _ rfl,
    Request.later_opened rfl _ _ _ _ rfl files_plainPage,Request.later_imports,Request.anew_imports,
    importersOf_plainPage]
  decide +kernel

end Run
end ImportResolution
