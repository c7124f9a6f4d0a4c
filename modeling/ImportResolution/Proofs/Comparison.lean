import ImportResolution.Proofs.Recall

/-! Two runs that settle alike. What an outcome means fixes nodes, edges, relations and the counts of
outcomes; the reasons that an entry remembers show in decisions alone. -/
namespace ImportResolution

def Edge.undecided (e : Edge) : Edge := { e with decision := none }

def Warning.undecided (w : Warning) : Warning := { w with decision := ReasonCode.unknown.decision }

theorem Edge.undecided_comp : Edge.undecided ∘ Edge.undecided = Edge.undecided := rfl
theorem Warning.undecided_comp : Warning.undecided ∘ Warning.undecided = Warning.undecided := rfl

namespace GraphBuilder

/-- A graph without its decisions. -/
def undecided (g : GraphBuilder) : GraphBuilder :=
  { g with edges := g.edges.map Edge.undecided, warnings := g.warnings.map Warning.undecided }

variable (g : GraphBuilder)

@[simp] theorem undecided_undecided : g.undecided.undecided = g.undecided := by
  simp [undecided,Edge.undecided_comp,Warning.undecided_comp]

@[simp] theorem undecided_suppressWarning :
    g.suppressWarning.undecided = g.undecided.suppressWarning := rfl

theorem undecided_addNode (id : String) (kind : NodeKind) :
    (g.addNode id kind).2.undecided = (g.undecided.addNode id kind).2 := by
  by_cases hc : g.nodes.contains id = true
  · simp [addNode,undecided,hc]
  · by_cases hm : g.maxNodes ≤ g.nodes.size <;> simp [addNode,undecided,hc,hm]

theorem undecided_addEdge {e d : Edge} (h : e.undecided = d.undecided) :
    (g.addEdge e).2.undecided = (g.undecided.addEdge d).2.undecided := by
  by_cases hm : g.maxEdges ≤ g.edgeCount <;>
    simp [addEdge,undecided,hm,h,Edge.undecided_comp,Warning.undecided_comp]

theorem undecided_addWarning (spec : String) {w v : Warning} (h : w.undecided = v.undecided) :
    (g.addWarning spec w).1 = (g.undecided.addWarning spec v).1 ∧
      (g.addWarning spec w).2.undecided = (g.undecided.addWarning spec v).2.undecided := by
  have hi : w.importer = v.importer := by
    have hw := congrArg Warning.importer h
    exact hw
  by_cases hk : (w.importer,spec) ∈ g.warningKeys
  · have hv : (v.importer,spec) ∈ g.undecided.warningKeys := by rwa [← hi]
    rw [addWarning_of_mem g hk,addWarning_of_mem g.undecided hv]
    simp
  · have hv : (v.importer,spec) ∉ g.undecided.warningKeys := by rwa [← hi]
    have hl : g.undecided.warnings.length = g.warnings.length := List.length_map ..
    have hv' : (g.heard w.importer spec).undecided = g.undecided.heard v.importer spec := by
      rw [hi]
      rfl
    rw [addWarning_of_not_mem g hk,addWarning_of_not_mem g.undecided hv,hl]
    by_cases hm : g.maxWarnings ≤ g.warnings.length
    · have hm' : g.undecided.maxWarnings ≤ g.warnings.length := hm
      simp only [hm,hm',if_true,undecided_suppressWarning,hv',true_and]
      rw [← hv',undecided_undecided]
    · simp [hm,undecided,heard,hi,h,Edge.undecided_comp,Warning.undecided_comp]

end GraphBuilder
namespace Run
namespace Settled
variable {x : Settled}

theorem bare_inside {path : String} (h : x.fate = .inside path) : x.bare.fate = .inside path := by
  obtain ⟨ht,hp⟩ := of_fate_inside h
  exact fate_inside ht hp

theorem bare_outside (h : x.fate = .outside) : x.bare.fate = .outside :=
  fate_outside (of_fate_outside h)

theorem bare_missing {code : ReasonCode} (h : x.fate = .missing code) :
    x.bare.fate = .missing .unknown := by
  unfold fate at h ⊢
  split at h
  · cases h
  · next hn =>
    split at h
    · cases h
    · next ho =>
      split
      · next ht hp => exact absurd hp (hn _ ht)
      · rw [if_neg (show x.bare.entry.resolvedType ≠ .external from ho)]
        rfl

theorem bare_link? : x.bare.link? = x.link? := by
  cases h : x.fate with
  | inside path => simp [link?,h,bare_inside h]
  | outside => simp [link?,h,bare_outside h]
  | missing code => simp [link?,h,bare_missing h]

theorem bare_external? : x.bare.external? = x.external? := by
  cases h : x.fate with
  | inside path => simp [external?,h,bare_inside h]
  | outside => simp [external?,h,bare_outside h]; rfl
  | missing code => simp [external?,h,bare_missing h]

theorem bare_isMissing : x.bare.isMissing = x.isMissing := by
  cases h : x.fate with
  | inside path => simp [isMissing,h,bare_inside h]
  | outside => simp [isMissing,h,bare_outside h]
  | missing code => simp [isMissing,h,bare_missing h]

theorem undecided_edge : x.edge.undecided = x.bare.edge.undecided := by
  cases h : x.fate with
  | inside path => simp only [edge,h,bare_inside h]; rfl
  | outside => simp only [edge,h,bare_outside h]; rfl
  | missing code => simp only [edge,h,bare_missing h]; rfl

theorem undecided_place (noise : NoiseFilter) (g : GraphBuilder) :
    (x.place noise g).undecided = (x.bare.place noise g.undecided).undecided := by
  cases h : x.fate with
  | inside path =>
    simp only [place,h,bare_inside h]
    rw [GraphBuilder.undecided_addEdge _ undecided_edge,GraphBuilder.undecided_addNode]
  | outside =>
    simp only [place,h,bare_outside h]
    rw [GraphBuilder.undecided_addEdge _ undecided_edge,GraphBuilder.undecided_addNode]
    rfl
  | missing code =>
    obtain ⟨hd,hw⟩ := g.undecided_addWarning x.query.spec (w := x.warning code)
      (v := x.bare.warning .unknown) rfl
    have hq : x.bare.query = x.query := rfl
    have hn : x.bare.isNoise noise = x.isNoise noise := rfl
    simp only [place,h,bare_missing h,hq,hn,← hd]
    cases x.isNoise noise with
    | true => simp
    | false =>
      simp only [Bool.false_eq_true,if_false]
      cases (g.addWarning x.query.spec (x.warning code)).1 != .duplicate with
      | true =>
        simp only [if_true]
        rw [GraphBuilder.undecided_addEdge _ undecided_edge,hw,← GraphBuilder.undecided_addEdge _ rfl]
      | false => simpa only [Bool.false_eq_true,if_false] using hw

end Settled

/-- Records that are alike put the same graph together, decisions apart. -/
theorem undecided_places (noise : NoiseFilter) (xs : List Settled) (g : GraphBuilder) :
    (xs.foldl (Settled.place noise) g).undecided =
      ((xs.map Settled.bare).foldl (fun g x => (x.place noise g).undecided) g.undecided) := by
  induction xs generalizing g with
  | nil => rfl
  | cons x xs ih => rw [List.foldl_cons,List.map_cons,List.foldl_cons,ih,Settled.undecided_place]

theorem FileRecord.undecided_place (noise : NoiseFilter) (x : FileRecord) (g : GraphBuilder) :
    (x.place noise g).undecided =
      (x.bare.settled.foldl (fun g x => (x.place noise g).undecided)
        (g.undecided.addNode (fileNodeId x.bare.rel) .file).2) := by
  rw [FileRecord.place,undecided_places,GraphBuilder.undecided_addNode]
  rfl

theorem undecided_files (noise : NoiseFilter) {xs ys : List FileRecord}
    (h : xs.map FileRecord.bare = ys.map FileRecord.bare) {g k : GraphBuilder}
    (hg : g.undecided = k.undecided) :
    (xs.foldl (FileRecord.place noise) g).undecided =
      (ys.foldl (FileRecord.place noise) k).undecided := by
  induction xs generalizing ys g k with
  | nil =>
    cases ys with
    | nil => exact hg
    | cons y ys => cases h
  | cons x xs ih =>
    cases ys with
    | nil => cases h
    | cons y ys =>
      obtain ⟨hx,hr⟩ := List.cons.inj h
      apply ih hr
      rw [x.undecided_place,y.undecided_place,hx,hg]

theorem FileRecord.bare_relations (x : FileRecord) : x.bare.relations = x.relations := by
  simp [relations,bare,List.filterMap_map,Function.comp_def,Settled.bare_link?,
    Settled.bare_external?]

theorem FileRecord.bare_relate (t : Table FileRelations) (x : FileRecord) :
    relate t x.bare = relate t x := by
  rw [relate,bare_relations]
  rfl

theorem foldl_relate_bare (xs : List FileRecord) (t : Table FileRelations) :
    (xs.map FileRecord.bare).foldl FileRecord.relate t = xs.foldl FileRecord.relate t := by
  rw [List.foldl_map]
  congr 1
  funext t x
  exact FileRecord.bare_relate t x

/-- What a run says apart from its decisions is what another says. -/
structure Alike (o t : Outcome) : Prop where
  nodes : o.parts.nodes = t.parts.nodes
  edges : o.parts.edges.map Edge.undecided = t.parts.edges.map Edge.undecided
  relations : o.relations = t.relations
  resolved : o.stats.tally.resolved = t.stats.tally.resolved
  external : o.stats.tally.external = t.stats.tally.external
  unresolved : o.stats.tally.unresolved = t.stats.tally.unresolved

theorem settled_bare (q : Request) :
    q.settled.map Settled.bare = (q.trace.map FileRecord.bare).flatMap (·.settled) := by
  simp [Request.settled,List.map_flatMap,List.flatMap_map,FileRecord.bare]

theorem countP_bare {p : Settled → Bool} (hp : ∀ x, p x.bare = p x) {xs ys : List Settled}
    (h : xs.map Settled.bare = ys.map Settled.bare) : xs.countP p = ys.countP p := by
  have hc := congrArg (List.countP p) h
  simpa [List.countP_map,Function.comp_def,hp] using hc

/-- Runs that settle alike say alike. -/
theorem alike_of_trace {q t : Request}
    (h : q.trace.map FileRecord.bare = t.trace.map FileRecord.bare)
    (hn : q.ruled.noise = t.ruled.noise)
    (hg : GraphBuilder.of q.settings.limits = GraphBuilder.of t.settings.limits) :
    Alike (execute q) (execute t) := by
  obtain ⟨hgq,hrq,-⟩ := q.closed_run
  obtain ⟨hgt,hrt,-⟩ := t.closed_run
  obtain ⟨kr,ke,ku⟩ := q.closed_counts
  obtain ⟨lr,le,lu⟩ := t.closed_counts
  have hs : q.settled.map Settled.bare = t.settled.map Settled.bare := by
    rw [settled_bare,settled_bare,h]
  have hu : q.closed.state.graph.undecided = t.closed.state.graph.undecided := by
    rw [hgq,hgt,hn]
    exact undecided_files _ h (by rw [hg])
  rw [q.execute_eq,t.execute_eq]
  constructor
  · exact congrArg (fun g : GraphBuilder => g.nodes.entries.map fun e => (⟨e.1,e.2⟩ : Node)) hu
  · have hk : ∀ xs : List Edge,
        (sortByKey Edge.sortKey xs).map Edge.undecided =
          sortByKey Edge.sortKey (xs.map Edge.undecided) := map_sortByKey fun _ => rfl
    have he := congrArg (fun g : GraphBuilder => sortByKey Edge.sortKey g.edges.reverse) hu
    simp only [GraphBuilder.undecided,← List.map_reverse,← hk] at he
    exact he
  · exact hrq.trans ((foldl_relate_bare q.trace _).symm.trans
      ((congrArg _ h).trans ((foldl_relate_bare t.trace _).trans hrt.symm)))
  · exact kr.trans ((countP_bare (fun _ => by rw [Settled.bare_link?]) hs).trans lr.symm)
  · exact ke.trans ((countP_bare (fun _ => by rw [Settled.bare_external?]) hs).trans le.symm)
  · exact ku.trans ((countP_bare (fun _ => Settled.bare_isMissing) hs).trans lu.symm)

end Run
end ImportResolution
