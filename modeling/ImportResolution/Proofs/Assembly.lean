import ImportResolution.Graph

/-! What an offer changes in a graph under assembly, and what sorting keeps of its lists. -/
namespace ImportResolution

section Sorting
variable {α β : Type} {key : α → String}

theorem sortByKey_perm (xs : List α) : (sortByKey key xs).Perm xs := by
  have h := (List.mergeSort_perm (xs.map fun x => (key x,x)) fun a b => a.1 ≤ b.1).map Prod.snd
  simpa [sortByKey,Function.comp_def] using h

@[simp] theorem mem_sortByKey {x : α} {xs : List α} : x ∈ sortByKey key xs ↔ x ∈ xs := by
  simp [sortByKey]

@[simp] theorem length_sortByKey (xs : List α) : (sortByKey key xs).length = xs.length := by
  simp [sortByKey]

theorem map_sortByKey {f : α → β} {g : β → String} (h : ∀ x, g (f x) = key x) (xs : List α) :
    (sortByKey key xs).map f = sortByKey g (xs.map f) := by
  have hm := List.map_mergeSort (l := xs.map fun x => (key x,x)) (f := fun p => (p.1,f p.2))
    (r := fun a b => decide (a.1 ≤ b.1)) (s := fun a b => decide (a.1 ≤ b.1)) fun _ _ _ _ => rfl
  have hl := congrArg (List.map Prod.snd) hm
  simpa [sortByKey,Function.comp_def,h] using hl

/-- What an order does not tell apart stays as it stood. -/
theorem filter_mergeSort_of_tied {r : α → α → Bool}
    (htrans : ∀ a b c, r a b = true → r b c = true → r a c = true)
    (htotal : ∀ a b, (r a b || r b a) = true) {p : α → Bool} {l : List α}
    (h : ∀ a ∈ l, p a = true → ∀ b ∈ l, p b = true → r a b = true) :
    (l.mergeSort r).filter p = l.filter p := by
  have hs : (l.filter p).Sublist (l.mergeSort r) := by
    apply List.sublist_mergeSort htrans htotal ?_ List.filter_sublist
    apply List.pairwise_of_forall_mem_list
    intro a ha b hb
    rw [List.mem_filter] at ha hb
    exact h a ha.1 ha.2 b hb.1 hb.2
  have hf := hs.filter p
  rw [List.filter_filter] at hf
  simp only [Bool.and_self] at hf
  exact (hf.eq_of_length ((List.mergeSort_perm _ _).filter _).length_eq.symm).symm

/-- Equal keys keep their order. -/
theorem filter_sortByKey (k : String) (xs : List α) :
    (sortByKey key xs).filter (key · == k) = xs.filter (key · == k) := by
  have hs := filter_mergeSort_of_tied (r := fun a b : String × α => decide (a.1 ≤ b.1))
    (p := fun a => a.1 == k) (l := xs.map fun x => (key x,x)) ?_ ?_ ?_
  · have hm := congrArg (List.map Prod.snd) hs
    rw [List.filter_map,List.map_map] at hm
    have hk : ∀ a ∈ (xs.map fun x => (key x,x)).mergeSort fun a b => decide (a.1 ≤ b.1),
        (a.1 == k) = (key a.2 == k) := by
      intro a ha
      obtain ⟨x,-,rfl⟩ := List.mem_map.mp (List.mem_mergeSort.mp ha)
      rfl
    rw [List.filter_congr hk] at hm
    simpa [sortByKey,List.filter_map,Function.comp_def] using hm
  · intro a b c hab hbc
    simp only [decide_eq_true_eq] at hab hbc ⊢
    exact String.le_trans hab hbc
  · intro a b
    simpa using String.le_total a.1 b.1
  · intro a _ ha b _ hb
    rw [beq_iff_eq] at ha hb
    simp [ha,hb]

theorem pairwise_sortByKey (xs : List α) :
    (sortByKey key xs).Pairwise fun a b => key a ≤ key b := by
  have hs : ((xs.map fun x => (key x,x)).mergeSort fun a b => decide (a.1 ≤ b.1)).Pairwise
      fun a b => decide (a.1 ≤ b.1) = true := by
    refine List.pairwise_mergeSort ?_ ?_ _
    · intro a b c hab hbc
      simp only [decide_eq_true_eq] at hab hbc ⊢
      exact String.le_trans hab hbc
    · intro a b
      simpa using String.le_total a.1 b.1
  rw [sortByKey,List.pairwise_map]
  refine hs.imp_of_mem ?_
  intro a b ha hb hab
  obtain ⟨x,-,rfl⟩ := List.mem_map.mp (List.mem_mergeSort.mp ha)
  obtain ⟨y,-,rfl⟩ := List.mem_map.mp (List.mem_mergeSort.mp hb)
  exact of_decide_eq_true hab

end Sorting

section Stability
variable {α κ : Type} [DecidableEq κ] {rank : α → κ} {lt : κ → κ → Prop} {xs ys : List α}

/-- The second list is the first one by rank, where equal ranks keep their order. -/
structure IsStableSort (lt : κ → κ → Prop) (rank : α → κ) (xs ys : List α) : Prop where
  perm : ys.Perm xs
  rises : ys.Pairwise fun a b => ¬lt (rank b) (rank a)
  stable : ∀ k, (ys.filter fun y => rank y = k) = xs.filter fun x => rank x = k

theorem isStableSort_sortByKey (key : α → String) (xs : List α) :
    IsStableSort (· < ·) key xs (sortByKey key xs) where
  perm := sortByKey_perm xs
  rises := (pairwise_sortByKey xs).imp fun {a b} (h : key a ≤ key b) => String.not_lt.mpr h
  stable k := filter_sortByKey k xs

/-- Ranks that compare alike sort alike. -/
theorem IsStableSort.of_iff {μ : Type} [DecidableEq μ] {rank' : α → μ} {lt' : μ → μ → Prop}
    (h : IsStableSort lt rank xs ys)
    (hlt : ∀ a ∈ xs, ∀ b ∈ xs, lt' (rank' a) (rank' b) ↔ lt (rank a) (rank b))
    (heq : ∀ a ∈ xs, ∀ b ∈ xs, rank' a = rank' b ↔ rank a = rank b) :
    IsStableSort lt' rank' xs ys where
  perm := h.perm
  rises := by
    refine h.rises.imp_of_mem fun {a b} ha hb hn hk => hn ?_
    exact (hlt b (h.perm.mem_iff.mp hb) a (h.perm.mem_iff.mp ha)).mp hk
  stable k := by
    by_cases hx : ∃ x ∈ xs, rank' x = k
    · obtain ⟨x,hx,rfl⟩ := hx
      have hy : ∀ y ∈ xs, decide (rank' y = rank' x) = decide (rank y = rank x) := by
        intro y hy
        rw [decide_eq_decide]
        exact heq y hy x hx
      rw [List.filter_congr fun y hm => hy y (h.perm.mem_iff.mp hm),List.filter_congr hy]
      exact h.stable (rank x)
    · have hn : ∀ x ∈ xs, ¬decide (rank' x = k) = true := fun x hm hk =>
        hx ⟨x,hm,of_decide_eq_true hk⟩
      rw [List.filter_eq_nil_iff.mpr fun y hm => hn y (h.perm.mem_iff.mp hm),
        List.filter_eq_nil_iff.mpr hn]

end Stability

namespace GraphBuilder
variable (g : GraphBuilder)

theorem addNode_cases (id : String) (kind : NodeKind) :
    (g.addNode id kind).2 = g ∨ (g.addNode id kind).2 = { g with nodes := g.nodes.insert id kind } ∨
      (g.addNode id kind).2 = { g with
        counters := { g.counters with truncatedNodes := g.counters.truncatedNodes + 1 } } := by
  unfold addNode
  split
  · exact .inl rfl
  · split
    · exact .inr (.inr rfl)
    · exact .inr (.inl rfl)

@[simp] theorem addNode_edges (id : String) (kind : NodeKind) :
    (g.addNode id kind).2.edges = g.edges := by
  rcases g.addNode_cases id kind with h | h | h <;> rw [h]

@[simp] theorem addNode_warnings (id : String) (kind : NodeKind) :
    (g.addNode id kind).2.warnings = g.warnings := by
  rcases g.addNode_cases id kind with h | h | h <;> rw [h]

theorem addEdge_cases (e : Edge) :
    (g.addEdge e).2 = { g with
        edges := e :: g.edges, edgeCount := g.edgeCount + 1
        counters := { g.counters with edgeTotal := g.counters.edgeTotal + 1 } } ∨
      (g.addEdge e).2 = { g with
        counters := { g.counters with
          edgeTotal := g.counters.edgeTotal + 1
          truncatedEdges := g.counters.truncatedEdges + 1 } } := by
  unfold addEdge
  split
  · exact .inr rfl
  · exact .inl rfl

@[simp] theorem addEdge_warnings (e : Edge) : (g.addEdge e).2.warnings = g.warnings := by
  unfold addEdge
  split <;> rfl

theorem mem_addEdge {e x : Edge} (h : x ∈ (g.addEdge e).2.edges) : x = e ∨ x ∈ g.edges := by
  unfold addEdge at h
  split at h
  · exact .inr h
  · exact List.mem_cons.mp h

@[simp] theorem suppressWarning_edges : g.suppressWarning.edges = g.edges := rfl
@[simp] theorem suppressWarning_warnings : g.suppressWarning.warnings = g.warnings := rfl

/-- The graph once a pair of importer and specifier has been heard. -/
def heard (importer spec : String) : GraphBuilder :=
  { g with warningKeys := (importer,spec) :: g.warningKeys }

theorem addWarning_of_mem {spec : String} {w : Warning} (h : (w.importer,spec) ∈ g.warningKeys) :
    g.addWarning spec w = (.duplicate,g.suppressWarning) := by
  simp [addWarning,h]

theorem addWarning_of_not_mem {spec : String} {w : Warning}
    (h : (w.importer,spec) ∉ g.warningKeys) :
    g.addWarning spec w =
      if g.maxWarnings ≤ g.warnings.length then
        (.overflow,(g.heard w.importer spec).suppressWarning)
      else (.recorded,{ g.heard w.importer spec with warnings := w :: g.warnings }) := by
  simp [addWarning,h,heard]

theorem addWarning_ne_duplicate {spec : String} {w : Warning}
    (h : (w.importer,spec) ∉ g.warningKeys) : ((g.addWarning spec w).1 != .duplicate) = true := by
  rw [addWarning_of_not_mem g h]
  split <;> rfl

@[simp] theorem addWarning_edges (spec : String) (w : Warning) :
    (g.addWarning spec w).2.edges = g.edges := by
  by_cases h : (w.importer,spec) ∈ g.warningKeys
  · rw [addWarning_of_mem g h]
    rfl
  · rw [addWarning_of_not_mem g h]
    split <;> rfl

theorem mem_addWarning {spec : String} {w x : Warning}
    (hx : x ∈ (g.addWarning spec w).2.warnings) : x = w ∨ x ∈ g.warnings := by
  by_cases h : (w.importer,spec) ∈ g.warningKeys
  · rw [addWarning_of_mem g h] at hx
    exact .inr hx
  · rw [addWarning_of_not_mem g h] at hx
    split at hx
    · exact .inr hx
    · exact List.mem_cons.mp hx

@[simp] theorem addEdge_nodes (e : Edge) : (g.addEdge e).2.nodes = g.nodes := by
  rcases g.addEdge_cases e with h | h <;> rw [h]

@[simp] theorem addEdge_truncatedNodes (e : Edge) :
    (g.addEdge e).2.counters.truncatedNodes = g.counters.truncatedNodes := by
  rcases g.addEdge_cases e with h | h <;> rw [h]

@[simp] theorem addNode_truncatedEdges (id : String) (kind : NodeKind) :
    (g.addNode id kind).2.counters.truncatedEdges = g.counters.truncatedEdges := by
  rcases g.addNode_cases id kind with h | h | h <;> rw [h]

/-- As long as the cap refuses no edge, an edge offered is there. -/
theorem edges_addEdge {e : Edge} (h : (g.addEdge e).2.counters.truncatedEdges = 0) :
    g.counters.truncatedEdges = 0 ∧ (g.addEdge e).2.edges = e :: g.edges := by
  rcases g.addEdge_cases e with hg | hg <;> rw [hg] at h ⊢
  · exact ⟨h,rfl⟩
  · simp at h

/-- As long as the cap refuses no node, a node offered is there. -/
theorem contains_addNode {id : String} {kind : NodeKind}
    (h : (g.addNode id kind).2.counters.truncatedNodes = 0) :
    g.counters.truncatedNodes = 0 ∧ (g.addNode id kind).2.nodes.contains id = true := by
  unfold addNode at h ⊢
  by_cases hc : g.nodes.contains id = true
  · rw [if_pos hc] at h ⊢
    exact ⟨h,hc⟩
  · rw [if_neg hc] at h ⊢
    by_cases hf : g.nodes.size ≥ g.maxNodes
    · simp [hf] at h
    · rw [if_neg hf] at h ⊢
      exact ⟨h,by simp [Table.contains]⟩

/-- A node offered leaves the others, and is of the kind offered if it is new. -/
theorem find?_addNode {id k : String} {kind v : NodeKind}
    (h : (g.addNode id kind).2.nodes.find? k = some v) :
    g.nodes.find? k = some v ∨ k = id ∧ v = kind := by
  rcases g.addNode_cases id kind with hg | hg | hg <;> rw [hg] at h
  · exact .inl h
  · rw [Table.find?_insert] at h
    split at h
    · next hk => exact .inr ⟨hk,(Option.some.inj h).symm⟩
    · exact .inl h
  · exact .inl h

theorem contains_addNode_of {id k : String} {kind : NodeKind} (h : g.nodes.contains k = true) :
    (g.addNode id kind).2.nodes.contains k = true := by
  rcases g.addNode_cases id kind with hg | hg | hg <;> rw [hg]
  · exact h
  · rw [Table.contains,Table.find?_insert]
    split
    · rfl
    · exact h
  · exact h

/-- Warnings change neither nodes nor edges, nor what caps refused of them. -/
theorem addWarning_cases (spec : String) (w : Warning) :
    let t := (g.addWarning spec w).2
    t.nodes = g.nodes ∧ t.counters.truncatedNodes = g.counters.truncatedNodes ∧
      t.counters.truncatedEdges = g.counters.truncatedEdges := by
  by_cases h : (w.importer,spec) ∈ g.warningKeys
  · rw [addWarning_of_mem g h]
    exact ⟨rfl,rfl,rfl⟩
  · rw [addWarning_of_not_mem g h]
    split <;> exact ⟨rfl,rfl,rfl⟩

end GraphBuilder
end ImportResolution
