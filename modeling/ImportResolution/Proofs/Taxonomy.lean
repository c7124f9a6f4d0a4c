import ImportResolution.Proofs.Assembly
import ImportResolution.Proofs.Trace
import ImportResolution.Report

/-! The taxonomy of the graph. An edge bears a decision where it has no target and only there, and the
decision is a row of the decision table; a warning bears one always. -/
namespace ImportResolution

theorem decisionMembers_some (d : Decision) : ∀ m ∈ decisionMembers (some d), m.2 ≠ .null := by
  intro m hm
  simp only [decisionMembers,List.mem_cons,List.not_mem_nil,or_false] at hm
  rcases hm with rfl | rfl | rfl | rfl <;> simp [Json.optStr,Json.ofOption]

theorem decisionMembers_none : ∀ m ∈ decisionMembers none, m.2 = .null := by
  intro m hm
  simp only [decisionMembers,List.mem_cons,List.not_mem_nil,or_false] at hm
  rcases hm with rfl | rfl | rfl | rfl <;> rfl

/-- What an edge says of how its specifier ended fits together. -/
structure Edge.HasTaxonomy (e : Edge) : Prop where
  state : e.resolvedType = .unresolved ↔ e.state = .unresolved
  target : e.resolvedType = .unresolved ↔ e.target = none
  members : e.resolvedType = .unresolved ↔ ∀ m ∈ decisionMembers e.decision, m.2 ≠ .null
  row : e.resolvedType = .unresolved → ∃ code : ReasonCode, e.decision = some code.decision
  inside : e.resolvedType.isInRepo = true →
    ∃ path, e.resolvedPath = some path ∧ e.target = some (fileNodeId path)
  outside : e.resolvedType = .external →
    e.target = some (externalNodeId (Specifier.normalize e.rawSpecifier))
  nulls : e.resolvedType ≠ .unresolved →
    e.decision = none ∧ ∀ m ∈ decisionMembers e.decision, m.2 = .null

namespace Edge.HasTaxonomy

theorem of_target {e : Edge} {target : String} (hu : e.resolvedType ≠ .unresolved)
    (hs : e.state = e.resolvedType.state) (ht : e.target = some target) (hd : e.decision = none)
    (hi : e.resolvedType.isInRepo = true →
      ∃ path, e.resolvedPath = some path ∧ e.target = some (fileNodeId path))
    (ho : e.resolvedType = .external →
      e.target = some (externalNodeId (Specifier.normalize e.rawSpecifier))) : e.HasTaxonomy where
  state := by
    rw [hs]
    cases h : e.resolvedType <;> simp_all [ResolvedType.state]
  target := by simp [hu,ht]
  members := by
    have hm : ("reasonCode",Json.null) ∈ decisionMembers e.decision := by
      rw [hd]
      exact .head _
    exact ⟨fun h => absurd h hu,fun h => absurd rfl (h _ hm)⟩
  row := fun h => absurd h hu
  inside := hi
  outside := ho
  nulls := fun _ => ⟨hd,hd ▸ decisionMembers_none⟩

theorem of_decision {e : Edge} {code : ReasonCode} (hu : e.resolvedType = .unresolved)
    (hs : e.state = .unresolved) (ht : e.target = none) (hd : e.decision = some code.decision) :
    e.HasTaxonomy where
  state := by simp [hu,hs]
  target := by simp [hu,ht]
  members := by
    rw [hd]
    exact ⟨fun _ => decisionMembers_some _,fun _ => hu⟩
  row := fun _ => ⟨code,hd⟩
  inside := by simp [hu,ResolvedType.isInRepo]
  outside := by simp [hu]
  nulls := fun h => absurd hu h

end Edge.HasTaxonomy

namespace Run

theorem Settled.edge_hasTaxonomy {x : Settled} (hx : x.IsFiled)
    (hs : x.query.spec = Specifier.normalize x.query.raw) : x.edge.HasTaxonomy := by
  cases hf : x.fate with
  | inside path =>
    obtain ⟨ht,hp⟩ := of_fate_inside hf
    have hu : x.entry.resolvedType ≠ .unresolved := by
      intro hc
      simp [hc,ResolvedType.isInRepo] at ht
    have ho : x.entry.resolvedType ≠ .external := by
      intro hc
      simp [hc,ResolvedType.isInRepo] at ht
    rw [edge,hf]
    apply Edge.HasTaxonomy.of_target hu rfl rfl rfl
    · exact fun _ => ⟨path,hp,rfl⟩
    · exact fun h => absurd h ho
  | outside =>
    have ht := of_fate_outside hf
    have hu : x.entry.resolvedType ≠ .unresolved := by simp [ht]
    rw [edge,hf]
    apply Edge.HasTaxonomy.of_target hu rfl rfl rfl
    · intro h
      simp [edgeOf,Edge.of,ht,ResolvedType.isInRepo] at h
    · exact fun _ => by rw [hs]; rfl
  | missing code =>
    obtain ⟨ht,-⟩ := hx code hf
    rw [edge,hf]
    exact Edge.HasTaxonomy.of_decision ht rfl rfl rfl

/-- An edge leaves the importer with the specifier as it is written. -/
theorem Settled.edge_query (x : Settled) :
    x.edge.source = fileNodeId x.query.importer.rel ∧ x.edge.rawSpecifier = x.query.raw := by
  cases h : x.fate <;> simp only [edge,h] <;> exact ⟨rfl,rfl⟩

/-- An edge put into the graph is that of the specifier settled. -/
theorem Settled.mem_place_edges {noise : NoiseFilter} {g : GraphBuilder} {x : Settled} {e : Edge}
    (h : e ∈ (x.place noise g).edges) : e = x.edge ∨ e ∈ g.edges := by
  unfold place at h
  split at h
  · simpa using GraphBuilder.mem_addEdge _ h
  · simpa using GraphBuilder.mem_addEdge _ h
  · split at h
    · exact .inr h
    · dsimp only at h
      split at h
      · simpa using GraphBuilder.mem_addEdge _ h
      · exact .inr (by simpa using h)

/-- A warning put into the graph is that of the specifier settled. -/
theorem Settled.mem_place_warnings {noise : NoiseFilter} {g : GraphBuilder} {x : Settled}
    {w : Warning} (h : w ∈ (x.place noise g).warnings) :
    (∃ code, w = x.warning code) ∨ w ∈ g.warnings := by
  unfold place at h
  split at h
  · exact .inr (by simpa using h)
  · exact .inr (by simpa using h)
  · next code hf =>
    split at h
    · exact .inr h
    · dsimp only at h
      have hw : w ∈ (g.addWarning x.query.spec (x.warning code)).2.warnings := by
        split at h
        · simpa using h
        · exact h
      rcases GraphBuilder.mem_addWarning _ hw with hw | hw
      · exact .inl ⟨code,hw⟩
      · exact .inr hw

/-- Edges and warnings come of specifiers settled. -/
def ComesOf (xs : List Settled) (g : GraphBuilder) : Prop :=
  (∀ e ∈ g.edges, ∃ x ∈ xs, e = x.edge) ∧ ∀ w ∈ g.warnings, ∃ x ∈ xs, ∃ code, w = x.warning code

theorem ComesOf.place {noise : NoiseFilter} {xs : List Settled} {g : GraphBuilder}
    (h : ComesOf xs g) (x : Settled) : ComesOf (xs ++ [x]) (x.place noise g) := by
  constructor
  · intro e he
    rcases Settled.mem_place_edges he with rfl | he
    · exact ⟨x,by simp,rfl⟩
    · obtain ⟨y,hy,hx⟩ := h.1 e he
      exact ⟨y,by simp [hy],hx⟩
  · intro w hw
    rcases Settled.mem_place_warnings hw with ⟨code,rfl⟩ | hw
    · exact ⟨x,by simp,code,rfl⟩
    · obtain ⟨y,hy,hx⟩ := h.2 w hw
      exact ⟨y,by simp [hy],hx⟩

theorem comesOf_closed (q : Request) : ComesOf q.settled q.closed.state.graph := by
  apply Request.graph_induction
  · exact ⟨by simp [GraphBuilder.of],by simp [GraphBuilder.of]⟩
  · intro xs g rel h
    simpa [ComesOf] using h
  · exact fun xs g y _ h => h.place y

theorem Request.exists_of_mem_edges {q : Request} {e : Edge} (h : e ∈ (execute q).parts.edges) :
    ∃ x ∈ q.settled, e = x.edge := by
  rw [q.execute_eq] at h
  exact (comesOf_closed q).1 e (by simpa [finish,GraphBuilder.finish] using h)

theorem Request.exists_of_mem_warnings {q : Request} {w : Warning}
    (h : w ∈ (execute q).parts.warnings) : ∃ x ∈ q.settled, ∃ code, w = x.warning code := by
  rw [q.execute_eq] at h
  exact (comesOf_closed q).2 w (by simpa [finish,GraphBuilder.finish] using h)

/-- Every edge fits together and every warning bears a row of the decision table, whatever an earlier
run left in the cache. -/
theorem taxonomy_complete (q : Request) :
    (∀ e ∈ (execute q).parts.edges, e.HasTaxonomy) ∧
      ∀ w ∈ (execute q).parts.warnings, ∃ code : ReasonCode, w.decision = code.decision := by
  constructor
  · intro e he
    obtain ⟨x,hx,rfl⟩ := Request.exists_of_mem_edges he
    exact Settled.edge_hasTaxonomy (q.closed_run.2.2.isFiled x hx) (Request.spec_of_mem_settled hx)
  · intro w hw
    obtain ⟨x,-,code,rfl⟩ := Request.exists_of_mem_warnings hw
    exact ⟨code,rfl⟩

end Run
end ImportResolution
