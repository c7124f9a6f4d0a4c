import Mathlib.Data.List.Nodup
import ImportResolution.Proofs.Closure
import ImportResolution.Proofs.Indexed

/-! Relations and graph tell the same. What a run notes of an importer beside its graph can be read off
the edges that leave the importer, as long as no cap refuses an edge. -/
namespace ImportResolution

-- No text is computed here, and no unifier should try to.
attribute [local irreducible] String.toList

/-- A list that rises and holds what has a property, and nothing else. -/
structure Lists (xs : List String) (p : String → Prop) : Prop where
  rising : xs.Pairwise (· < ·)
  mem : ∀ s, s ∈ xs ↔ p s

theorem Text.lists_distinctSorted {xs : List String} {p : String → Prop} (h : ∀ s, s ∈ xs ↔ p s) :
    Lists (distinctSorted xs) p :=
  ⟨pairwise_distinctSorted xs,fun s => (mem_distinctSorted s xs).trans (h s)⟩

/-- The relations of an importer are those of what it is asked for and of the edges that leave it. -/
structure FileRelations.AgreesWith (r : FileRelations) (importer : String) (raws : List String)
    (edges : List Edge) : Prop where
  imports : Lists r.imports fun raw => raw ∈ raws ∧ Text.isAllBlank raw = false
  importLinks : Lists r.importLinks fun path => ∃ e ∈ edges, e.source = fileNodeId importer ∧
    e.resolvedType.isInRepo = true ∧ e.resolvedPath = some path
  externalImports : Lists r.externalImports fun raw => ∃ e ∈ edges,
    e.source = fileNodeId importer ∧ e.resolvedType = .external ∧ e.rawSpecifier = raw

theorem fileNodeId_inj {a b : String} : fileNodeId a = fileNodeId b ↔ a = b := by
  rw [fileNodeId,fileNodeId,String.append_right_inj]

namespace Run

/-- As long as the cap refuses no edge, what a graph has stays, and a target that was found has its
edge. -/
theorem Settled.edges_place {noise : NoiseFilter} {g : GraphBuilder} {x : Settled}
    (h : (x.place noise g).counters.truncatedEdges = 0) :
    g.counters.truncatedEdges = 0 ∧ (∀ e ∈ g.edges, e ∈ (x.place noise g).edges) ∧
      (x.isMissing = false → x.edge ∈ (x.place noise g).edges) := by
  have lead : ∀ id kind, x.place noise g = ((g.addNode id kind).2.addEdge x.edge).2 →
      g.counters.truncatedEdges = 0 ∧ (∀ e ∈ g.edges, e ∈ (x.place noise g).edges) ∧
        (x.isMissing = false → x.edge ∈ (x.place noise g).edges) := by
    intro id kind hp
    rw [hp] at h ⊢
    obtain ⟨hg,hedges⟩ := GraphBuilder.edges_addEdge _ h
    rw [hedges,GraphBuilder.addNode_edges]
    exact ⟨by simpa using hg,fun _ he => .tail _ he,fun _ => .head _⟩
  cases hf : x.fate with
  | inside path => exact lead (fileNodeId path) .file (by simp only [place,hf])
  | outside => exact lead (externalNodeId x.query.spec) .external (by simp only [place,hf])
  | missing code =>
    have hm : x.isMissing = true := by simp only [isMissing,hf]
    obtain ⟨-,-,hw⟩ := g.addWarning_cases x.query.spec (x.warning code)
    simp only [place,hf,hm] at h ⊢
    split at h
    · next hs =>
      rw [if_pos hs]
      exact ⟨h,fun _ he => he,by simp⟩
    · next hs =>
      rw [if_neg hs]
      split at h
      · next hd =>
        obtain ⟨hg,hedges⟩ := GraphBuilder.edges_addEdge _ h
        rw [if_pos hd,hedges,GraphBuilder.addWarning_edges]
        exact ⟨hw ▸ hg,fun _ he => .tail _ he,by simp⟩
      · next hd =>
        rw [if_neg hd,GraphBuilder.addWarning_edges]
        exact ⟨hw ▸ h,fun _ he => he,by simp⟩

/-- An edge that leads into the repository is that of a link. -/
theorem Settled.edge_inside_iff {x : Settled} {path : String} :
    x.edge.resolvedType.isInRepo = true ∧ x.edge.resolvedPath = some path ↔
      x.link? = some path := by
  rw [x.edge_entry.1,x.edge_entry.2]
  constructor
  · rintro ⟨ht,hp⟩
    rw [link?,fate_inside ht hp]
  · intro hl
    cases hf : x.fate with
    | inside p =>
      obtain rfl : p = path := by simpa [link?,hf] using hl
      exact of_fate_inside hf
    | outside => simp [link?,hf] at hl
    | missing code => simp [link?,hf] at hl

/-- An edge that leads outside is that of an external name. -/
theorem Settled.edge_outside_iff {x : Settled} {raw : String} :
    x.edge.resolvedType = .external ∧ x.edge.rawSpecifier = raw ↔ x.external? = some raw := by
  rw [x.edge_entry.1,x.edge_query.2]
  constructor
  · rintro ⟨ht,rfl⟩
    rw [external?,fate_outside ht]
  · intro hl
    cases hf : x.fate with
    | outside => exact ⟨of_fate_outside hf,by simpa [external?,hf] using hl⟩
    | inside p => simp [external?,hf] at hl
    | missing code => simp [external?,hf] at hl

theorem Settled.not_isMissing {x : Settled} (h : x.link? ≠ none ∨ x.external? ≠ none) :
    x.isMissing = false := by
  cases hf : x.fate with
  | missing code => simp [link?,external?,hf] at h
  | inside path => simp [isMissing,hf]
  | outside => simp [isMissing,hf]

namespace Request
variable {q : Request}

/-- Whatever a run finds a target for is an edge of its graph. -/
theorem edge_mem_execute (h : (execute q).parts.counters.truncatedEdges = 0) :
    ∀ x ∈ q.settled, x.isMissing = false → x.edge ∈ (execute q).parts.edges := by
  have hg : q.closed.state.graph.counters.truncatedEdges = 0 →
      ∀ x ∈ q.settled, x.isMissing = false → x.edge ∈ q.closed.state.graph.edges := by
    apply graph_induction (P := fun xs g => g.counters.truncatedEdges = 0 →
      ∀ x ∈ xs, x.isMissing = false → x.edge ∈ g.edges)
    · simp
    · intro xs g rel hg ht
      rw [GraphBuilder.addNode_truncatedEdges] at ht
      rw [GraphBuilder.addNode_edges]
      exact hg ht
    · intro xs g y _ hg ht x hx hm
      obtain ⟨hb,hkept,hnew⟩ := Settled.edges_place ht
      rcases List.mem_append.mp hx with hx | hx
      · exact hkept _ (hg hb x hx hm)
      · obtain rfl := List.mem_singleton.mp hx
        exact hnew hm
  exact fun x hx hm => mem_edges.mpr (hg h x hx hm)

/-- What is said of the edges of an importer can be said of what was settled for it, where it is of none
that is missing. -/
theorem exists_edge_iff (h : (execute q).parts.counters.truncatedEdges = 0) {rel : String}
    {P : Edge → Prop} {R : Settled → Prop} (hr : ∀ x, P x.edge ↔ R x)
    (hm : ∀ x, R x → x.isMissing = false) :
    (∃ e ∈ (execute q).parts.edges, e.source = fileNodeId rel ∧ P e) ↔
      ∃ x ∈ q.settled, x.query.importer.rel = rel ∧ R x := by
  constructor
  · rintro ⟨e,he,hs,hp⟩
    obtain ⟨x,hx,rfl⟩ := exists_of_mem_edges he
    rw [x.edge_query.1,fileNodeId_inj] at hs
    exact ⟨x,hx,hs,(hr x).mp hp⟩
  · rintro ⟨x,hx,rfl,hrx⟩
    exact ⟨x.edge,edge_mem_execute h x hx (hm x hrx),x.edge_query.1,(hr x).mpr hrx⟩

/-- Where no importer is entered twice, what is settled for it is in its record. -/
theorem mem_settled_record (hn : q.importers.Nodup) {x : FileRecord} (hx : x ∈ q.trace)
    {y : Settled} : y ∈ x.settled ↔ y ∈ q.settled ∧ y.query.importer.rel = x.rel := by
  have hrel : ∀ z ∈ q.trace, ∀ y ∈ z.settled, y.query.importer.rel = z.rel := by
    intro z hz y hy
    obtain ⟨item,-,hitem,-,hqueries⟩ := exists_item_of_mem_trace hz
    have hu : y.query ∈ queriesOf q.ruled item := hqueries ▸ List.mem_map_of_mem hy
    obtain ⟨raw,-,hu⟩ := List.mem_map.mp hu
    rw [← hu,hitem]
    rfl
  constructor
  · exact fun hy => ⟨List.mem_flatMap.mpr ⟨x,hx,hy⟩,hrel x hx y hy⟩
  · rintro ⟨hy,he⟩
    obtain ⟨z,hz,hy⟩ := List.mem_flatMap.mp hy
    have hu : z = x :=
      List.inj_on_of_nodup_map (q.trace_importers ▸ hn) hz hx ((hrel z hz y hy).symm.trans he)
    exact hu ▸ hy

end Request

/-- In a run that no cap cut the relations of every importer agree with the graph, whatever cache the
run is given. -/
theorem relations_agree (q : Request) (hn : q.importers.Nodup)
    (h : (execute q).parts.counters.truncatedEdges = 0) :
    ∀ entry ∈ q.imports.entries, Path.normalize entry.1 ≠ "" →
      ∃ r, (execute q).relations.find? (Path.normalize entry.1) = some r ∧
        r.AgreesWith (Path.normalize entry.1) entry.2 (execute q).parts.edges := by
  intro entry hm hne
  have hi : (Path.normalize entry.1,entry.2) ∈ importersOf q.imports :=
    (importersOf_perm _).mem_iff.mpr
      (List.mem_filter.mpr ⟨List.mem_map_of_mem hm,by simpa using hne⟩)
  obtain ⟨x,hx,hrel,hraws,-⟩ := Request.exists_record_of_mem hi
  simp only at hrel hraws
  have hfind : (execute q).relations.find? x.rel = some x.relations := by
    rw [q.execute_eq,finish,q.closed_run.2.1]
    refine FileRecord.find?_foldl (q.trace_importers ▸ hn) hx ?_ (fun t => ?_) _
    · intro t y hy
      rw [FileRecord.find?_relate,if_neg hy.symm]
    · rw [FileRecord.find?_relate,if_pos rfl]
  rw [← hrel]
  refine ⟨x.relations,hfind,?_,?_,?_⟩
  · rw [FileRecord.relations,hraws]
    exact Text.lists_distinctSorted (by simp)
  · refine Text.lists_distinctSorted fun path => ?_
    rw [Request.exists_edge_iff h (fun _ => Settled.edge_inside_iff) fun y hy =>
      Settled.not_isMissing (.inl (by simp [hy]))]
    simp only [List.mem_filterMap,Request.mem_settled_record hn hx,and_assoc]
  · refine Text.lists_distinctSorted fun raw => ?_
    rw [Request.exists_edge_iff h (fun _ => Settled.edge_outside_iff) fun y hy =>
      Settled.not_isMissing (.inr (by simp [hy]))]
    simp only [List.mem_filterMap,Request.mem_settled_record hn hx,and_assoc]

/-- The page of the second run has its part for a link and the library for an external name. -/
theorem relations_agree_plainPage :
    let q := plainPage.seeded (cacheAfter (some .new) [plainPage])
    q.importers.Nodup ∧ (execute q).parts.counters.truncatedEdges = 0 ∧
      ∃ r, (execute q).relations.find? (Path.normalize "page") = some r ∧
        r.AgreesWith (Path.normalize "page") ["./part.txt","library","./gone.txt"]
          (execute q).parts.edges := by
  intro q
  have hn : q.importers.Nodup := by
    rw [Request.importers,show importersOf q.imports = _ from importersOf_plainPage]
    decide
  have h := uncut_plainPage.2.1
  exact ⟨hn,h,relations_agree q hn h ("page",["./part.txt","library","./gone.txt"])
    (by decide +kernel) (by decide +kernel)⟩

end Run
end ImportResolution
