import ImportResolution.Proofs.Idempotence

/-! Files outside the index. An external edge that names a file names one that is on the disk below the
root; the index has no such file, as long as it was asked for it wherever the search looked. -/
namespace ImportResolution

-- No text is computed here, and no unifier should try to.
attribute [local irreducible] String.toList

/-- A file that the index has by no spelling is no member. -/
theorem FileIndex.not_mem_of_candidate? {i : FileIndex} {path : String}
    (hp : Path.normalize path = path) (hx : Path.hasExtension path = true)
    (hi : Path.isInside path = true) (hc : i.candidate? path = none) : path ∉ i.files := by
  intro hm
  have hs : i.candidate? path = i.spelled? path := by simp [candidate?,hp,hi,hx]
  have hf : i.spelled? path = some path :=
    if_pos ((FileSet.contains_iff _ _).mpr hm)
  rw [hc,hf] at hs
  cases hs

/-- Whether the edge may stand for what was asked by an importer for a specifier in its normal form:
memory tells the two by one key. -/
def Edge.MayStandFor (e : Edge) (a : String × String) : Prop :=
  ∃ rel, e.source = fileNodeId rel ∧
    joinKey [a.1,a.2] = joinKey [rel,Specifier.normalize e.rawSpecifier]

namespace Run

/-- A file that an outcome names was found by a search for a query of the same place in memory, which
the index was asked for in vain. -/
structure IsSought (r : Rules) (Q : Query → Prop) (q : Query) (entry : Cache.Entry) : Prop where
  whole : entry.IsWhole
  sought : ∀ path, entry.fallbackPath = some path → entry.resolvedType = .external ∧
    ∃ u, Q u ∧ u.slot = q.slot ∧ located? r u = none ∧ probed? r u = some path

theorem Filed.isSought {r : Rules} {Q : Query → Prop} {q : Query} {e : Effort}
    {entry last : Cache.Entry} (h : Filed r q e entry last) (hs : IsSought r Q q entry) :
    IsSought r Q q last := by
  cases h <;> exact ⟨hs.whole,hs.sought⟩

theorem upkeep_isSought (r : Rules) (Q : Query → Prop) : Upkeep r Q (IsSought r Q) where
  whole _ _ _ hs := hs.whole
  shared _ _ _ _ _ hslot hs :=
    ⟨hs.whole,fun path hp => (hs.sought path hp).imp_right fun ⟨u,hu,hk,hf⟩ =>
      ⟨u,hu,hk.trans hslot,hf⟩⟩
  refiled _ _ _ _ hs hf := hf.isSought hs
  computed q _ _ hq _ hf := by
    refine hf.isSought ⟨freshEntry_isWhole r q,fun path hp => ?_⟩
    have hp : (answer r q).fallbackPath = some path := hp
    rcases answer_cases (r := r) (q := q) with ⟨-,hn⟩ | ⟨found,hl,hf,ha⟩
    · rw [hn] at hp
      cases hp
    · rw [ha] at hp
      obtain rfl := Option.some.inj hp
      exact ⟨congrArg Cache.Entry.resolvedType ha,q,hq,rfl,hl,hf⟩

section Fresh
variable {q : Request} (hc : q.cache = none ∨ q.cache = some .new)
include hc

/-- Without an earlier cache, every file that an outcome names was sought in this run. -/
theorem Request.settled_isSought :
    ∀ x ∈ q.settled, IsSought q.ruled (· ∈ q.queries) x.query x.entry := by
  apply q.upheld (upkeep_isSought q.ruled _)
  intro c hopened rel f hf
  obtain ⟨d,hd,hk⟩ := (q.exists_of_opened hopened).2 rel f hf
  rw [find?_of_new hc hd] at hk
  cases hk

theorem Request.ruled_of_fresh : q.ruled = q.rules q.fileSet (Manifest.facts q.view q.root) :=
  q.ruled_of_isListed (isListed_of_new hc) (by simp)

end Fresh

theorem Settled.edge_fallbackPath (x : Settled) :
    x.edge.fallbackPath = x.entry.fallbackPath ∧ x.edge.resolvedType = x.entry.resolvedType := by
  cases h : x.fate <;> simp only [edge,h] <;> exact ⟨rfl,rfl⟩

/-- An edge of a run without an earlier cache that names a file beside the index is external, and the
file is on the disk below the root. The index does not have it, where it was asked for all that the
search went by. -/
theorem fallback_outside (q : Request) (hc : q.cache = none ∨ q.cache = some .new)
    (hr : q.ruled.HasTrueIndex) :
    ∀ e ∈ (execute q).parts.edges, ∀ path, e.fallbackPath = some path →
      e.resolvedType = .external ∧
      Location.within? q.root (Location.ofRelative q.root path) = some path ∧
      q.view.isFile (Location.ofRelative q.root path) = true ∧
      ((∀ a ∈ q.normalized, e.MayStandFor a →
          Relative.IsCovered (FileIndex.of q.fileSet) a.2 (Importer.of a.1)) →
        path ∉ q.fileSet) := by
  intro e he path hp
  obtain ⟨x,hx,rfl⟩ := Request.exists_of_mem_edges he
  have hruled := Request.ruled_of_fresh hc
  rw [x.edge_fallbackPath.1] at hp
  obtain ⟨ht,u,hu,hslot,hl,hprobed⟩ := (Request.settled_isSought hc x hx).sought path hp
  obtain ⟨base,-,-,c,-,hs,hw,hfile⟩ := exists_of_probed? hprobed hr
  rw [hruled] at hw hfile
  obtain ⟨hplace,-⟩ := Location.ofRelative_of_within? hs hw
  refine ⟨x.edge_fallbackPath.2.trans ht,hplace ▸ hw,hfile,fun hcovered hm => ?_⟩
  obtain ⟨hasks,-⟩ := q.asks_of_mem_queries hu
  obtain ⟨kasks,hspec⟩ := q.asks_of_mem_queries (q.mem_queries_of_mem_settled hx)
  have hkey := (Cache.key_inj hslot hasks.profile.nullChar_not_mem
    kasks.profile.nullChar_not_mem).1
  have hu : Relative.IsCovered q.ruled.files u.spec u.importer := by
    rw [hasks.importer,hruled]
    refine hcovered _ hasks.mem ⟨x.query.importer.rel,x.edge_query.1,?_⟩
    rw [x.edge_query.2,← hspec]
    exact hkey
  obtain ⟨hn,hext,hnone⟩ := outside_of_isCovered hprobed hu hl hr
  rw [hruled] at hnone
  exact FileIndex.not_mem_of_candidate? hn hext (FileSet.isInside_of_mem_ofEntries hm) hnone hm

/-- A run without a cache and without aliases goes by the files that it lists. -/
theorem Request.ruled_listed {q : Request} (hc : q.cache = none)
    (ha : q.settings.resolver.aliases = []) : q.ruled = q.listed :=
  Request.ruled_eq_listed ha (Request.ruled_of_fresh (.inl hc))

theorem Rules.hasTrueIndex_of_none {r : Rules} (h : r.site.index = none) : r.HasTrueIndex := by
  intro path hp
  rw [Probe.indexAnswer,h] at hp
  cases hp

/-- The file that is on the disk alone is outside the index. -/
theorem fallback_outside_latePlainPage :
    latePlainPage.cache = none ∧ latePlainPage.ruled.HasTrueIndex ∧
      ∃ e ∈ (execute latePlainPage).parts.edges, e.fallbackPath = some "gone.txt" ∧
        e.resolvedType = .external ∧
        Location.within? "/r" (Location.ofRelative "/r" "gone.txt") = some "gone.txt" ∧
        lateDisk.isFile (Location.ofRelative "/r" "gone.txt") = true ∧
        "gone.txt" ∉ latePlainPage.fileSet := by
  have hr : latePlainPage.ruled = latePlainPage.listed := Request.ruled_listed rfl rfl
  have hindex : latePlainPage.ruled.HasTrueIndex :=
    Rules.hasTrueIndex_of_none (by rw [hr]; rfl)
  have hi : importersOf latePlainPage.imports =
      [("page",["./part.txt","library","./gone.txt"])] := importersOf_plainPage
  have he : ∃ e ∈ latePlainPage.closed.state.graph.edges, e.fallbackPath = some "gone.txt" := by
    rw [Request.closed,hr,hi,show latePlainPage.opened = latePlainPage.start none from rfl]
    decide +kernel
  obtain ⟨e,he,hp⟩ := he
  obtain ⟨ht,hw,hf,hm⟩ := fallback_outside latePlainPage (.inl rfl) hindex e
    (Request.mem_edges.mpr he) _ hp
  refine ⟨rfl,hindex,e,Request.mem_edges.mpr he,hp,ht,hw,hf,hm ?_⟩
  have hplain : ∀ a ∈ latePlainPage.normalized, Relative.IsPlain a.2 (Importer.of a.1) := by
    rw [Request.normalized,Request.asked,hi]
    decide +kernel
  exact fun a ha _ => (hplain a ha).isCovered _

/-- The script beside the page is in the index, which was asked for it at the root alone. -/
theorem fallback_indexed_webPage :
    webPage.cache = none ∧ webPage.ruled.HasTrueIndex ∧
      ∃ e ∈ (execute webPage).parts.edges, e.resolvedType = .external ∧
        e.fallbackPath = some "web/app.js" ∧ "web/app.js" ∈ webPage.fileSet := by
  have hr : webPage.ruled = webPage.listed := Request.ruled_listed rfl rfl
  have hm : "web/app.js" ∈ webPage.fileSet :=
    (FileSet.contains_iff _ _).mp (by decide +kernel)
  refine ⟨rfl,Rules.hasTrueIndex_of_none (by rw [hr]; rfl),?_⟩
  simp only [Request.mem_edges]
  have he : ∃ e ∈ webPage.closed.state.graph.edges, e.resolvedType = .external ∧
      e.fallbackPath = some "web/app.js" := by
    rw [Request.closed,hr,importersOf_webPage,show webPage.opened = webPage.start none from rfl]
    decide +kernel
  obtain ⟨e,he,ht,hp⟩ := he
  exact ⟨e,he,ht,hp,hm⟩

end Run
end ImportResolution
