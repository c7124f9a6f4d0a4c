import ImportResolution.Proofs.Reuse
import ImportResolution.Proofs.Sequence
import ImportResolution.Proofs.Taxonomy

/-! A graph that no cap cut is closed. Every edge leads from a node to a node, and a node stands for an
importer or for what some edge leads to; its name tells its kind. -/
namespace ImportResolution

/-- The name that a node of some kind has. -/
def NodeKind.Names : NodeKind → String → Prop
  | .file, id => ∃ rel, id = fileNodeId rel
  | .external, id => ∃ spec, id = externalNodeId spec

namespace NodeKind

theorem names_file (rel : String) : Names .file (fileNodeId rel) := ⟨rel,rfl⟩
theorem names_external (spec : String) : Names .external (externalNodeId spec) := ⟨spec,rfl⟩

theorem startsWith_file (rel : String) :
    Text.startsWith "file:" (fileNodeId rel) = true ∧
      Text.startsWith "ext:" (fileNodeId rel) = false := by
  simp [fileNodeId,Text.startsWith,List.isPrefixOf]

theorem startsWith_external (spec : String) :
    Text.startsWith "ext:" (externalNodeId spec) = true ∧
      Text.startsWith "file:" (externalNodeId spec) = false := by
  simp [externalNodeId,Text.startsWith,List.isPrefixOf]

/-- The kind of a node can be read off its name. -/
theorem Names.iff {kind : NodeKind} {id : String} (h : kind.Names id) :
    (kind = .file ↔ Text.startsWith "file:" id = true) ∧
      (kind = .external ↔ Text.startsWith "ext:" id = true) := by
  cases kind with
  | file =>
    obtain ⟨rel,rfl⟩ := h
    simp [startsWith_file rel]
  | external =>
    obtain ⟨spec,rfl⟩ := h
    simp [startsWith_external spec]

end NodeKind

/-- Nodes rise, each is of the kind that its name tells, edges lead from node to node, and no node is
there without need. -/
structure GraphParts.IsClosed (importers : List String) (p : GraphParts) : Prop where
  ascending : (p.nodes.map (·.id)).Pairwise (· < ·)
  file : ∀ n ∈ p.nodes, n.kind = .file ↔ Text.startsWith "file:" n.id = true
  external : ∀ n ∈ p.nodes, n.kind = .external ↔ Text.startsWith "ext:" n.id = true
  source : ∀ e ∈ p.edges, e.source ∈ p.nodes.map (·.id)
  target : ∀ e ∈ p.edges, ∀ id, e.target = some id → id ∈ p.nodes.map (·.id)
  need : ∀ n ∈ p.nodes, (∃ rel ∈ importers, n.id = fileNodeId rel) ∨
    ∃ e ∈ p.edges, e.target = some n.id

namespace Run

/-- A graph under assembly after some importers: what the caps let through hangs together. -/
structure HangsTogether (importers : List String) (g : GraphBuilder) : Prop where
  named : ∀ id kind, g.nodes.find? id = some kind → kind.Names id
  entered : g.counters.truncatedNodes = 0 →
    ∀ rel ∈ importers, g.nodes.contains (fileNodeId rel) = true
  reached : g.counters.truncatedNodes = 0 →
    ∀ e ∈ g.edges, ∀ id, e.target = some id → g.nodes.contains id = true
  needed : g.counters.truncatedEdges = 0 → ∀ id, g.nodes.contains id = true →
    (∃ rel ∈ importers, id = fileNodeId rel) ∨ ∃ e ∈ g.edges, e.target = some id

namespace HangsTogether
variable {importers : List String} {g : GraphBuilder}

theorem start (limits : Limits) : HangsTogether [] (.of limits) where
  named := by simp [GraphBuilder.of]
  entered := by simp
  reached := by simp [GraphBuilder.of]
  needed := by simp [GraphBuilder.of,Table.contains]

/-- What a graph has after a node was offered it had before, or it is that node. -/
theorem mem_addNode {id k : String} {kind : NodeKind}
    (h : (g.addNode id kind).2.nodes.contains k = true) : g.nodes.contains k = true ∨ k = id := by
  obtain ⟨v,hv⟩ := Option.isSome_iff_exists.mp h
  rcases g.find?_addNode hv with hv | ⟨hk,-⟩
  · exact .inl (Option.isSome_iff_exists.mpr ⟨v,hv⟩)
  · exact .inr hk

theorem named_addNode (h : HangsTogether importers g) {id : String} {kind : NodeKind}
    (hn : kind.Names id) (k : String) (v : NodeKind)
    (hv : (g.addNode id kind).2.nodes.find? k = some v) : v.Names k := by
  rcases g.find?_addNode hv with hv | ⟨rfl,rfl⟩
  · exact h.named k v hv
  · exact hn

theorem enter (h : HangsTogether importers g) (rel : String) :
    HangsTogether (importers ++ [rel]) (g.addNode (fileNodeId rel) .file).2 where
  named := h.named_addNode (NodeKind.names_file rel)
  entered := by
    intro ht other ho
    obtain ⟨hg,hc⟩ := g.contains_addNode ht
    rcases List.mem_append.mp ho with ho | ho
    · exact g.contains_addNode_of (h.entered hg other ho)
    · rwa [List.mem_singleton.mp ho]
  reached := by
    intro ht e he id hid
    rw [GraphBuilder.addNode_edges] at he
    exact g.contains_addNode_of (h.reached (g.contains_addNode ht).1 e he id hid)
  needed := by
    intro ht id hid
    rw [GraphBuilder.addNode_truncatedEdges] at ht
    rw [GraphBuilder.addNode_edges]
    rcases mem_addNode hid with hid | rfl
    · exact (h.needed ht id hid).imp_left fun ⟨other,ho,he⟩ => ⟨other,by simp [ho],he⟩
    · exact .inl ⟨rel,by simp,rfl⟩

/-- An edge is offered right behind the node that it leads to. -/
theorem lead (h : HangsTogether importers g) {id : String} {kind : NodeKind} (hn : kind.Names id)
    {e : Edge} (he : e.target = some id) :
    HangsTogether importers ((g.addNode id kind).2.addEdge e).2 where
  named := by
    rw [GraphBuilder.addEdge_nodes]
    exact h.named_addNode hn
  entered := by
    intro ht rel hr
    rw [GraphBuilder.addEdge_truncatedNodes] at ht
    rw [GraphBuilder.addEdge_nodes]
    exact g.contains_addNode_of (h.entered (g.contains_addNode ht).1 rel hr)
  reached := by
    intro ht d hd k hk
    rw [GraphBuilder.addEdge_truncatedNodes] at ht
    rw [GraphBuilder.addEdge_nodes]
    obtain ⟨hg,hc⟩ := g.contains_addNode ht
    rcases GraphBuilder.mem_addEdge _ hd with rfl | hd
    · rwa [← Option.some.inj (he.symm.trans hk)]
    · rw [GraphBuilder.addNode_edges] at hd
      exact g.contains_addNode_of (h.reached hg d hd k hk)
  needed := by
    intro ht k hk
    obtain ⟨hg,hedges⟩ := GraphBuilder.edges_addEdge _ ht
    rw [GraphBuilder.addNode_truncatedEdges] at hg
    rw [GraphBuilder.addEdge_nodes] at hk
    rw [hedges,GraphBuilder.addNode_edges]
    rcases mem_addNode hk with hk | rfl
    · exact (h.needed hg k hk).imp_right fun ⟨d,hd,ht⟩ => ⟨d,.tail e hd,ht⟩
    · exact .inr ⟨e,.head _,he⟩

/-- An edge that leads nowhere needs no node. -/
theorem stop (h : HangsTogether importers g) {e : Edge} (he : e.target = none) :
    HangsTogether importers (g.addEdge e).2 where
  named := by
    rw [GraphBuilder.addEdge_nodes]
    exact h.named
  entered := by
    intro ht
    rw [GraphBuilder.addEdge_truncatedNodes] at ht
    rw [GraphBuilder.addEdge_nodes]
    exact h.entered ht
  reached := by
    intro ht d hd k hk
    rw [GraphBuilder.addEdge_truncatedNodes] at ht
    rw [GraphBuilder.addEdge_nodes]
    rcases GraphBuilder.mem_addEdge _ hd with rfl | hd
    · rw [he] at hk
      cases hk
    · exact h.reached ht d hd k hk
  needed := by
    intro ht k hk
    obtain ⟨hg,hedges⟩ := GraphBuilder.edges_addEdge _ ht
    rw [GraphBuilder.addEdge_nodes] at hk
    rw [hedges]
    exact (h.needed hg k hk).imp_right fun ⟨d,hd,ht⟩ => ⟨d,.tail e hd,ht⟩

theorem warn (h : HangsTogether importers g) (spec : String) (w : Warning) :
    HangsTogether importers (g.addWarning spec w).2 := by
  obtain ⟨hnodes,hn,he⟩ := g.addWarning_cases spec w
  exact ⟨by rw [hnodes]; exact h.named,by rw [hnodes,hn]; exact h.entered,
    by rw [hnodes,hn,GraphBuilder.addWarning_edges]; exact h.reached,
    by rw [hnodes,he,GraphBuilder.addWarning_edges]; exact h.needed⟩

theorem place {noise : NoiseFilter} (h : HangsTogether importers g) (x : Settled) :
    HangsTogether importers (x.place noise g) := by
  cases hf : x.fate with
  | inside path =>
    simp only [Settled.place,hf]
    exact h.lead (NodeKind.names_file path) (by simp [Settled.edge,hf])
  | outside =>
    simp only [Settled.place,hf]
    exact h.lead (NodeKind.names_external x.query.spec) (by simp [Settled.edge,hf])
  | missing code =>
    have he : x.edge.target = none := by
      simp only [Settled.edge,hf]
      rfl
    simp only [Settled.place,hf]
    split
    · exact ⟨h.named,h.entered,h.reached,h.needed⟩
    · split
      · exact (h.warn _ _).stop he
      · exact h.warn _ _

end HangsTogether

namespace Request
variable {q : Request} {P : List String → GraphBuilder → Prop}

/-- What holds of no graph yet, and is kept by each importer entered and each specifier settled, holds
of the graph of a run after all its importers. -/
theorem importers_induction (h : P [] (.of q.settings.limits))
    (hn : ∀ rels g rel, P rels g → P (rels ++ [rel]) (g.addNode (fileNodeId rel) .file).2)
    (hp : ∀ rels g, ∀ y ∈ q.settled, P rels g → P rels (y.place q.ruled.noise g)) :
    P q.importers q.closed.state.graph := by
  have hrun : ∀ (records : List FileRecord) rels g, (∀ x ∈ records, x ∈ q.trace) → P rels g →
      P (rels ++ records.map (·.rel)) (records.foldl (FileRecord.place q.ruled.noise) g) := by
    intro records
    induction records with
    | nil => exact fun rels g _ hg => by simpa using hg
    | cons x rest ih =>
      intro rels g hr hg
      have hy : ∀ y ∈ x.settled, y ∈ q.settled := fun y hy =>
        List.mem_flatMap.mpr ⟨x,hr x (.head _),hy⟩
      have hx : P (rels ++ [x.rel]) (x.place q.ruled.noise g) :=
        List.foldlRecOn x.settled _ (hn rels g x.rel hg) fun g hg y hm => hp _ g y (hy y hm) hg
      simpa using ih _ _ (fun y hy => hr y (.tail _ hy)) hx
  rw [q.closed_run.1,← q.trace_importers]
  simpa using hrun q.trace [] _ (fun _ hx => hx) h

end Request

theorem hangsTogether_closed (q : Request) : HangsTogether q.importers q.closed.state.graph :=
  Request.importers_induction (.start _) (fun _ _ rel h => h.enter rel) fun _ _ y _ h => h.place y

theorem counters_execute (q : Request) :
    (execute q).parts.counters = q.closed.state.graph.counters := rfl

theorem ids_execute (q : Request) :
    (execute q).parts.nodes.map (·.id) = q.closed.state.graph.nodes.keys := by
  simp [q.execute_eq,finish,GraphBuilder.finish,Table.keys,Function.comp_def]

section Nodes
variable {q : Request}

theorem mem_nodes {n : Node} :
    n ∈ (execute q).parts.nodes ↔ q.closed.state.graph.nodes.find? n.id = some n.kind := by
  simp only [q.execute_eq,finish,GraphBuilder.finish,List.mem_map,Table.find?_eq_some_iff]
  constructor
  · rintro ⟨e,he,rfl⟩
    exact he
  · exact fun hm => ⟨(n.id,n.kind),hm,rfl⟩

theorem mem_ids {id : String} :
    id ∈ (execute q).parts.nodes.map (·.id) ↔ q.closed.state.graph.nodes.contains id = true := by
  rw [Table.contains,Option.isSome_iff_exists,List.mem_map]
  constructor
  · rintro ⟨n,hn,rfl⟩
    exact ⟨n.kind,mem_nodes.mp hn⟩
  · rintro ⟨kind,hk⟩
    exact ⟨⟨id,kind⟩,mem_nodes.mpr hk,rfl⟩

end Nodes

/-- The graph of a run that no cap cut is closed, whatever cache the run is given. -/
theorem isClosed_execute (q : Request)
    (hn : (execute q).parts.counters.truncatedNodes = 0)
    (he : (execute q).parts.counters.truncatedEdges = 0) :
    (execute q).parts.IsClosed q.importers := by
  have h := hangsTogether_closed q
  rw [counters_execute] at hn he
  constructor
  · rw [ids_execute]
    exact q.closed.state.graph.nodes.ordered
  · exact fun n hm => (h.named _ _ (mem_nodes.mp hm)).iff.1
  · exact fun n hm => (h.named _ _ (mem_nodes.mp hm)).iff.2
  · intro e hm
    obtain ⟨x,hx,rfl⟩ := Request.exists_of_mem_edges hm
    obtain ⟨item,hi,raw,-,profile,-,hq⟩ := Request.mem_settled hx
    rw [mem_ids,x.edge_query.1,hq]
    exact h.entered hn _ (List.mem_map_of_mem hi)
  · exact fun e hm id hid => mem_ids.mpr (h.reached hn e (Request.mem_edges.mp hm) id hid)
  · intro n hm
    rcases h.needed he n.id (mem_ids.mp (List.mem_map_of_mem hm)) with hr | ⟨e,hm,ht⟩
    · exact .inl hr
    · exact .inr ⟨e,Request.mem_edges.mpr hm,ht⟩

/-- A page that is run a second time: beside its own node there is one for its part and one for a
library, and none for the file that is gone. -/
theorem uncut_plainPage :
    let q := plainPage.seeded (cacheAfter (some .new) [plainPage])
    (execute q).parts.counters.truncatedNodes = 0 ∧ (execute q).parts.counters.truncatedEdges = 0 ∧
      (execute q).parts.nodes.map (·.id) = ["ext:library","file:page","file:part.txt"] := by
  intro q
  have hq : q = plainPage.anew.later plainPage.entries plainPage.view plainPage.hashes 0
      plainPage.settings.limits.maxCacheEntries := rfl
  rw [ids_execute,counters_execute,hq,Request.closed,Request.later_listed rfl _ _ _ _ rfl,
    Request.later_opened rfl _ _ _ _ rfl files_plainPage,Request.later_imports,
    Request.anew_imports,importersOf_plainPage]
  decide +kernel

theorem isClosed_execute_plainPage :
    let q := plainPage.seeded (cacheAfter (some .new) [plainPage])
    (execute q).parts.counters.truncatedNodes = 0 ∧ (execute q).parts.counters.truncatedEdges = 0 ∧
      (execute q).parts.IsClosed q.importers :=
  have h := uncut_plainPage
  ⟨h.1,h.2.1,isClosed_execute _ h.1 h.2.1⟩

end Run
end ImportResolution
