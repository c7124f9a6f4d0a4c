import ImportResolution.Proofs.Assembly
import ImportResolution.Proofs.ByteOrder

/-! A graph told by what was offered to it. Of the nodes and of the warnings it keeps the first of
each key, of the edges all, each up to a cap; what a cap refuses is counted, and a warning whose key
was heard is not heard again, even where the cap refused the first one. -/
namespace ImportResolution

section Firsts
variable {α κ : Type} [DecidableEq κ] {key : α → κ}

/-- The first of each key. -/
def firstsBy (key : α → κ) : List α → List α
  | [] => []
  | x :: xs => x :: (firstsBy key xs).filter fun y => key y ≠ key x

theorem firstsBy_sublist (xs : List α) : (firstsBy key xs).Sublist xs := by
  induction xs with
  | nil => exact .slnil
  | cons x xs ih => exact (List.filter_sublist.trans ih).cons_cons x

theorem mem_keys_firstsBy {k : κ} {xs : List α} :
    k ∈ (firstsBy key xs).map key ↔ k ∈ xs.map key := by
  induction xs with
  | nil => rfl
  | cons x xs ih =>
    by_cases hk : k = key x
    · simp [firstsBy,hk]
    · have hf : k ∈ ((firstsBy key xs).filter fun y => key y ≠ key x).map key ↔
          k ∈ (firstsBy key xs).map key := by
        simp only [List.mem_map,List.mem_filter,decide_eq_true_eq]
        constructor
        · rintro ⟨y,⟨hy,-⟩,rfl⟩
          exact ⟨y,hy,rfl⟩
        · rintro ⟨y,hy,rfl⟩
          exact ⟨y,⟨hy,hk⟩,rfl⟩
      rw [firstsBy,List.map_cons,List.map_cons,List.mem_cons,List.mem_cons,hf,ih]

theorem nodup_firstsBy (xs : List α) : ((firstsBy key xs).map key).Nodup := by
  induction xs with
  | nil => exact List.nodup_nil
  | cons x xs ih =>
    rw [firstsBy,List.map_cons,List.nodup_cons]
    constructor
    · intro h
      obtain ⟨y,hy,hk⟩ := List.mem_map.mp h
      exact (of_decide_eq_true (List.mem_filter.mp hy).2) hk
    · exact ih.sublist (List.filter_sublist.map key)

theorem firstsBy_append (xs : List α) (x : α) :
    firstsBy key (xs ++ [x]) =
      if key x ∈ xs.map key then firstsBy key xs else firstsBy key xs ++ [x] := by
  induction xs with
  | nil => simp [firstsBy]
  | cons y xs ih =>
    rw [List.cons_append,firstsBy,ih,firstsBy,List.map_cons]
    by_cases hm : key x ∈ xs.map key
    · rw [if_pos hm,if_pos (List.mem_cons_of_mem _ hm)]
    · rw [if_neg hm,List.filter_append]
      by_cases hk : key x = key y <;> simp [hm,hk]

theorem firstsBy_eq_self {xs : List α} (h : (xs.map key).Nodup) : firstsBy key xs = xs := by
  induction xs with
  | nil => rfl
  | cons x xs ih =>
    rw [List.map_cons,List.nodup_cons] at h
    rw [firstsBy,ih h.2,List.filter_eq_self.mpr]
    intro y hy
    exact decide_eq_true fun hk => h.1 (hk ▸ List.mem_map_of_mem hy)

/-- The first of each key, as many as the cap allows. -/
def keptBy (cap : Nat) (key : α → κ) (xs : List α) : List α := (firstsBy key xs).take cap

variable {cap : Nat} {xs : List α} {x : α}

theorem keptBy_nil : keptBy cap key [] = [] := List.take_nil

theorem keptBy_sublist : (keptBy cap key xs).Sublist xs :=
  (List.take_sublist _ _).trans (firstsBy_sublist xs)

theorem length_firstsBy_lt (h : (keptBy cap key xs).length < cap) :
    (firstsBy key xs).length < cap := by
  rw [keptBy,List.length_take] at h
  omega

theorem keptBy_of_length_le (h : (firstsBy key xs).length ≤ cap) :
    keptBy cap key xs = firstsBy key xs := List.take_of_length_le h

theorem keptBy_of_room (h : (keptBy cap key xs).length < cap) :
    keptBy cap key xs = firstsBy key xs :=
  keptBy_of_length_le (Nat.le_of_lt (length_firstsBy_lt h))

theorem keptBy_append_of_mem (h : key x ∈ xs.map key) :
    keptBy cap key (xs ++ [x]) = keptBy cap key xs := by
  rw [keptBy,firstsBy_append,if_pos h,keptBy]

theorem keptBy_append_of_full (h : cap ≤ (keptBy cap key xs).length) :
    keptBy cap key (xs ++ [x]) = keptBy cap key xs := by
  have hl : cap ≤ (firstsBy key xs).length := by
    rw [keptBy,List.length_take] at h
    omega
  rw [keptBy,firstsBy_append]
  split
  · rfl
  · rw [List.take_append_of_le_length hl,keptBy]

theorem keptBy_append_of_room (hn : key x ∉ xs.map key) (h : (keptBy cap key xs).length < cap) :
    keptBy cap key (xs ++ [x]) = keptBy cap key xs ++ [x] := by
  have hk := keptBy_of_room h
  rw [hk] at h ⊢
  rw [keptBy,firstsBy_append,if_neg hn,List.take_of_length_le]
  rw [List.length_append,List.length_singleton]
  exact h

/-- How many were offered under a key that is not among those kept. -/
def refusedBy (cap : Nat) (key : α → κ) (xs : List α) : Nat :=
  xs.countP fun x => key x ∉ (keptBy cap key xs).map key

theorem refusedBy_append_of_mem (h : key x ∈ (keptBy cap key xs).map key) :
    refusedBy cap key (xs ++ [x]) = refusedBy cap key xs := by
  have hm : key x ∈ xs.map key := by
    obtain ⟨y,hy,hk⟩ := List.mem_map.mp h
    exact List.mem_map.mpr ⟨y,keptBy_sublist.subset hy,hk⟩
  rw [refusedBy,keptBy_append_of_mem hm,List.countP_append,refusedBy,
    List.countP_cons_of_neg (by simpa using h),List.countP_nil,Nat.add_zero]

theorem refusedBy_append_of_full (hf : cap ≤ (keptBy cap key xs).length)
    (h : key x ∉ (keptBy cap key xs).map key) :
    refusedBy cap key (xs ++ [x]) = refusedBy cap key xs + 1 := by
  rw [refusedBy,keptBy_append_of_full hf,List.countP_append,refusedBy,
    List.countP_cons_of_pos (by simpa using h),List.countP_nil]

/-- As long as there is room, nothing is refused. -/
theorem refusedBy_eq_zero (h : (firstsBy key xs).length ≤ cap) : refusedBy cap key xs = 0 := by
  rw [refusedBy,List.countP_eq_zero]
  intro x hx
  have hm : key x ∈ (keptBy cap key xs).map key := by
    rw [keptBy_of_length_le h,mem_keys_firstsBy]
    exact List.mem_map_of_mem hx
  simp [hm]

end Firsts

namespace Table
variable {α : Type} {t : Table α} {key : String} {value : α}

theorem perm_insertEntry {xs : List (String × α)} (h : key ∉ xs.map Prod.fst) :
    (insertEntry key value xs).Perm ((key,value) :: xs) := by
  induction xs with
  | nil => exact .refl _
  | cons e xs ih =>
    rw [List.map_cons,List.mem_cons,not_or] at h
    rw [insertEntry,if_neg h.1]
    split
    · exact .refl _
    · exact ((ih h.2).cons e).trans (.swap _ _ _)

/-- A new entry joins the others. -/
theorem perm_insert (h : t.contains key = false) :
    (t.insert key value).entries.Perm ((key,value) :: t.entries) := by
  refine perm_insertEntry fun hm => ?_
  obtain ⟨e,he,rfl⟩ := List.mem_map.mp hm
  rw [contains,find?_eq_some_iff.mpr he] at h
  cases h

end Table

/-- The texts by which edges are sorted; what an edge lacks counts as empty. -/
def Edge.fields (e : Edge) : List String :=
  [e.source,e.target.getD "",e.rawSpecifier,e.resolvedType.name,e.resolvedPath.getD ""]

/-- The texts by which warnings are sorted. -/
def Warning.fields (w : Warning) : List String := [w.importer,w.specifier,w.decision.reason.name]

namespace GraphBuilder

/-- What is said to a graph under assembly. -/
inductive Call
  | node (id : String) (kind : NodeKind)
  | edge (e : Edge)
  /-- A warning with its specifier in the normal form. -/
  | warning (spec : String) (w : Warning)
  /-- A warning that is not worth an offer. -/
  | suppress
  deriving DecidableEq, Repr

def perform (g : GraphBuilder) : Call → GraphBuilder
  | .node id kind => (g.addNode id kind).2
  | .edge e => (g.addEdge e).2
  | .warning spec w => (g.addWarning spec w).2
  | .suppress => g.suppressWarning

/-- The graph after some calls. -/
def assembled (limits : Limits) (calls : List Call) : GraphBuilder :=
  calls.foldl perform (of limits)

namespace Call

def node? : Call → Option (String × NodeKind)
  | node id kind => some (id,kind)
  | _ => none

def edge? : Call → Option Edge
  | edge e => some e
  | _ => none

def warning? : Call → Option (String × Warning)
  | warning spec w => some (spec,w)
  | _ => none

end Call

def nodesOf (calls : List Call) : List (String × NodeKind) := calls.filterMap Call.node?
def edgesOf (calls : List Call) : List Edge := calls.filterMap Call.edge?
def warningsOf (calls : List Call) : List (String × Warning) := calls.filterMap Call.warning?

section Appending
variable (calls more : List Call)

theorem nodesOf_append : nodesOf (calls ++ more) = nodesOf calls ++ nodesOf more :=
  List.filterMap_append

theorem edgesOf_append : edgesOf (calls ++ more) = edgesOf calls ++ edgesOf more :=
  List.filterMap_append

theorem warningsOf_append : warningsOf (calls ++ more) = warningsOf calls ++ warningsOf more :=
  List.filterMap_append

end Appending

/-- What a warning is about: its importer and its specifier in the normal form. -/
def subject (offer : String × Warning) : String × String := (offer.2.importer,offer.1)

section Frames
variable (g : GraphBuilder)

theorem exists_addNode (id : String) (kind : NodeKind) : ∃ nodes n, (g.addNode id kind).2 =
    { g with nodes, counters := { g.counters with truncatedNodes := n } } := by
  rcases g.addNode_cases id kind with h | h | h
  · exact ⟨_,_,h⟩
  · exact ⟨_,_,h⟩
  · exact ⟨_,_,h⟩

theorem exists_addEdge (e : Edge) : ∃ edges count total n, (g.addEdge e).2 =
    { g with edges, edgeCount := count
             counters := { g.counters with edgeTotal := total, truncatedEdges := n } } := by
  rcases g.addEdge_cases e with h | h
  · exact ⟨_,_,_,_,h⟩
  · exact ⟨_,_,_,_,h⟩

theorem exists_addWarning (spec : String) (w : Warning) : ∃ warnings keys n,
    (g.addWarning spec w).2 =
      { g with warnings, warningKeys := keys
               counters := { g.counters with warningSuppressed := n } } := by
  by_cases h : (w.importer,spec) ∈ g.warningKeys
  · rw [addWarning_of_mem g h]
    exact ⟨_,_,_,rfl⟩
  · rw [addWarning_of_not_mem g h]
    split
    · exact ⟨_,_,_,rfl⟩
    · exact ⟨_,_,_,rfl⟩

end Frames

section Nodes
variable {cap : Nat} {offers : List (String × NodeKind)} {g : GraphBuilder}

/-- The nodes of a graph are the first of those offered. -/
structure HasNodes (cap : Nat) (offers : List (String × NodeKind)) (g : GraphBuilder) : Prop where
  allowed : g.maxNodes = cap
  kept : g.nodes.entries.Perm (keptBy cap Prod.fst offers)
  refused : g.counters.truncatedNodes = refusedBy cap Prod.fst offers

namespace HasNodes
variable (h : HasNodes cap offers g)
include h

theorem contains_iff (id : String) :
    g.nodes.contains id = true ↔ id ∈ (keptBy cap Prod.fst offers).map Prod.fst := by
  rw [Table.contains,Option.isSome_iff_exists,List.mem_map]
  constructor
  · rintro ⟨kind,hk⟩
    exact ⟨(id,kind),h.kept.mem_iff.mp (Table.find?_eq_some_iff.mp hk),rfl⟩
  · rintro ⟨⟨i,kind⟩,hm,rfl⟩
    exact ⟨kind,Table.find?_eq_some_iff.mpr (h.kept.mem_iff.mpr hm)⟩

theorem add (id : String) (kind : NodeKind) :
    HasNodes cap (offers ++ [(id,kind)]) (g.addNode id kind).2 := by
  have hsize : g.nodes.size = (keptBy cap Prod.fst offers).length := h.kept.length_eq
  by_cases hc : g.nodes.contains id = true
  · have hm := (h.contains_iff id).mp hc
    have hk : keptBy cap Prod.fst (offers ++ [(id,kind)]) = keptBy cap Prod.fst offers := by
      obtain ⟨o,ho,hi⟩ := List.mem_map.mp hm
      exact keptBy_append_of_mem (List.mem_map.mpr ⟨o,keptBy_sublist.subset ho,hi⟩)
    rw [addNode,if_pos hc]
    exact ⟨h.allowed,hk ▸ h.kept,h.refused.trans (refusedBy_append_of_mem hm).symm⟩
  · have hm : id ∉ (keptBy cap Prod.fst offers).map Prod.fst :=
      fun hi => hc ((h.contains_iff id).mpr hi)
    rw [addNode,if_neg hc,h.allowed,hsize]
    by_cases hf : cap ≤ (keptBy cap Prod.fst offers).length
    · have hk : keptBy cap Prod.fst (offers ++ [(id,kind)]) = keptBy cap Prod.fst offers :=
        keptBy_append_of_full hf
      rw [if_pos hf]
      refine ⟨rfl,hk ▸ h.kept,?_⟩
      rw [refusedBy_append_of_full hf hm,h.refused]
    · rw [if_neg hf]
      rw [Nat.not_le] at hf
      have hn : id ∉ offers.map Prod.fst := by
        rw [keptBy_of_room hf,mem_keys_firstsBy] at hm
        exact hm
      have hk : keptBy cap Prod.fst (offers ++ [(id,kind)]) =
          keptBy cap Prod.fst offers ++ [(id,kind)] := keptBy_append_of_room hn hf
      refine ⟨rfl,?_,?_⟩
      · have hp : (g.nodes.insert id kind).entries.Perm ((id,kind) :: g.nodes.entries) :=
          Table.perm_insert (by simpa using hc)
        rw [hk]
        exact hp.trans ((h.kept.cons _).trans (List.perm_append_singleton _ _).symm)
      · -- The cap was not reached before, and the newcomer may at most reach it.
        have hl := length_firstsBy_lt hf
        have hz : refusedBy cap Prod.fst (offers ++ [(id,kind)]) = 0 := by
          apply refusedBy_eq_zero
          rw [firstsBy_append,if_neg hn,List.length_append,List.length_singleton]
          exact hl
        exact (h.refused.trans (refusedBy_eq_zero (Nat.le_of_lt hl))).trans hz.symm

end HasNodes
end Nodes

section Edges
variable {cap : Nat} {offers : List Edge} {g : GraphBuilder}

/-- The edges of a graph are the first of those offered. -/
structure HasEdges (cap : Nat) (offers : List Edge) (g : GraphBuilder) : Prop where
  allowed : g.maxEdges = cap
  kept : g.edges = (offers.take cap).reverse
  count : g.edgeCount = (offers.take cap).length
  total : g.counters.edgeTotal = offers.length
  refused : g.counters.truncatedEdges = (offers.drop cap).length

theorem HasEdges.add (h : HasEdges cap offers g) (e : Edge) :
    HasEdges cap (offers ++ [e]) (g.addEdge e).2 := by
  obtain ⟨hcap,hkept,hcount,htotal,hrefused⟩ := h
  have hl : (offers ++ [e]).length = offers.length + 1 := by simp
  have hreached : g.maxEdges ≤ g.edgeCount ↔ cap ≤ offers.length := by
    rw [hcap,hcount,List.length_take]
    omega
  rw [addEdge]
  by_cases hf : cap ≤ offers.length
  · rw [if_pos (hreached.mpr hf)]
    have ht : (offers ++ [e]).take cap = offers.take cap := List.take_append_of_le_length hf
    refine ⟨hcap,ht ▸ hkept,ht ▸ hcount,?_,?_⟩
    · rw [hl,← htotal]
    · rw [List.drop_append_of_le_length hf,List.length_append,List.length_singleton,← hrefused]
  · rw [if_neg fun hr => hf (hreached.mp hr)]
    have hle : offers.length ≤ cap := by omega
    have hlt : (offers ++ [e]).length ≤ cap := by omega
    have ht : (offers ++ [e]).take cap = offers.take cap ++ [e] := by
      rw [List.take_of_length_le hlt,List.take_of_length_le hle]
    refine ⟨hcap,?_,?_,?_,?_⟩
    · rw [ht,List.reverse_append,← hkept]
      rfl
    · rw [ht,List.length_append,← hcount]
      rfl
    · rw [hl,← htotal]
    · rw [List.drop_of_length_le hle] at hrefused
      rw [List.drop_of_length_le hlt]
      exact hrefused

end Edges

section Warnings
variable {cap silenced : Nat} {offers : List (String × Warning)} {g : GraphBuilder}

/-- The warnings of a graph are the first of those offered about each subject. -/
structure HasWarnings (cap : Nat) (offers : List (String × Warning)) (silenced : Nat)
    (g : GraphBuilder) : Prop where
  allowed : g.maxWarnings = cap
  kept : g.warnings = ((keptBy cap subject offers).map Prod.snd).reverse
  heard : ∀ p, p ∈ g.warningKeys ↔ p ∈ offers.map subject
  suppressed : g.counters.warningSuppressed + (keptBy cap subject offers).length =
    offers.length + silenced

namespace HasWarnings
variable (h : HasWarnings cap offers silenced g)
include h

theorem suppress : HasWarnings cap offers (silenced + 1) g.suppressWarning := by
  refine ⟨h.allowed,h.kept,h.heard,?_⟩
  have hs := h.suppressed
  simp only [suppressWarning]
  omega

theorem add (spec : String) (w : Warning) :
    HasWarnings cap (offers ++ [(spec,w)]) silenced (g.addWarning spec w).2 := by
  have hs := h.suppressed
  have hl : (offers ++ [(spec,w)]).length = offers.length + 1 := by simp
  by_cases hm : (w.importer,spec) ∈ g.warningKeys
  · have hk : keptBy cap subject (offers ++ [(spec,w)]) = keptBy cap subject offers :=
      keptBy_append_of_mem ((h.heard _).mp hm)
    rw [addWarning_of_mem g hm]
    refine ⟨h.allowed,hk ▸ h.kept,?_,?_⟩
    · intro p
      rw [List.map_append,List.mem_append,← h.heard p]
      constructor
      · exact .inl
      · rintro (hp | hp)
        · exact hp
        · rw [List.mem_singleton.mp hp]
          exact hm
    · rw [hk,hl]
      simp only [suppressWarning]
      omega
  · have hn : subject (spec,w) ∉ offers.map subject := fun hp => hm ((h.heard _).mpr hp)
    have hheard (p : String × String) :
        p ∈ (w.importer,spec) :: g.warningKeys ↔ p ∈ (offers ++ [(spec,w)]).map subject := by
      rw [List.map_append,List.mem_append,← h.heard p,List.mem_cons,or_comm,List.map_singleton,
        List.mem_singleton]
      rfl
    have hc : g.warnings.length = (keptBy cap subject offers).length := by
      rw [h.kept,List.length_reverse,List.length_map]
    rw [addWarning_of_not_mem g hm,h.allowed,hc]
    by_cases hf : cap ≤ (keptBy cap subject offers).length
    · have hk : keptBy cap subject (offers ++ [(spec,w)]) = keptBy cap subject offers :=
        keptBy_append_of_full hf
      rw [if_pos hf]
      refine ⟨h.allowed,hk ▸ h.kept,hheard,?_⟩
      rw [hk,hl]
      simp only [suppressWarning,GraphBuilder.heard]
      omega
    · have hk : keptBy cap subject (offers ++ [(spec,w)]) =
          keptBy cap subject offers ++ [(spec,w)] :=
        keptBy_append_of_room hn (Nat.lt_of_not_le hf)
      rw [if_neg hf]
      refine ⟨h.allowed,?_,hheard,?_⟩
      · rw [hk,List.map_append,List.reverse_append,h.kept]
        rfl
      · rw [hk,hl,List.length_append,List.length_singleton]
        simp only [GraphBuilder.heard]
        omega

end HasWarnings
end Warnings

section Runs
variable {limits : Limits} {calls : List Call} {g : GraphBuilder}

/-- A graph is what the calls made of it. -/
structure Follows (limits : Limits) (calls : List Call) (g : GraphBuilder) : Prop where
  nodes : HasNodes limits.maxNodes (nodesOf calls) g
  edges : HasEdges limits.maxEdges (edgesOf calls) g
  warnings : HasWarnings limits.maxWarnings (warningsOf calls) (calls.count .suppress) g

theorem follows_of (limits : Limits) : Follows limits [] (of limits) where
  nodes := ⟨rfl,by rw [nodesOf,List.filterMap_nil,keptBy_nil]; exact .refl _,rfl⟩
  edges := by
    refine ⟨rfl,?_,?_,rfl,?_⟩ <;> simp [edgesOf,of]
  warnings := by
    refine ⟨rfl,?_,fun _ => Iff.rfl,?_⟩ <;> simp [warningsOf,keptBy_nil,of]

/-- Each kind of call changes its own part of the graph and leaves the other two. -/
theorem Follows.next (h : Follows limits calls g) (c : Call) :
    Follows limits (calls ++ [c]) (g.perform c) := by
  obtain ⟨hn,he,hw⟩ := h
  have hcount : (calls ++ [c]).count .suppress = calls.count .suppress + [c].count .suppress :=
    List.count_append
  cases c with
  | node id kind =>
    have hnodes : nodesOf (calls ++ [.node id kind]) = nodesOf calls ++ [(id,kind)] :=
      nodesOf_append _ _
    have hedges : edgesOf (calls ++ [.node id kind]) = edgesOf calls :=
      (edgesOf_append _ _).trans (List.append_nil _)
    have hwarnings : warningsOf (calls ++ [.node id kind]) = warningsOf calls :=
      (warningsOf_append _ _).trans (List.append_nil _)
    obtain ⟨nodes,n,hg⟩ := g.exists_addNode id kind
    refine ⟨hnodes ▸ hn.add id kind,?_,?_⟩
    · rw [hedges,perform,hg]
      exact ⟨he.allowed,he.kept,he.count,he.total,he.refused⟩
    · rw [hwarnings,hcount,perform,hg]
      exact ⟨hw.allowed,hw.kept,hw.heard,hw.suppressed⟩
  | edge e =>
    have hnodes : nodesOf (calls ++ [.edge e]) = nodesOf calls :=
      (nodesOf_append _ _).trans (List.append_nil _)
    have hedges : edgesOf (calls ++ [.edge e]) = edgesOf calls ++ [e] := edgesOf_append _ _
    have hwarnings : warningsOf (calls ++ [.edge e]) = warningsOf calls :=
      (warningsOf_append _ _).trans (List.append_nil _)
    obtain ⟨edges,count,total,n,hg⟩ := g.exists_addEdge e
    refine ⟨?_,hedges ▸ he.add e,?_⟩
    · rw [hnodes,perform,hg]
      exact ⟨hn.allowed,hn.kept,hn.refused⟩
    · rw [hwarnings,hcount,perform,hg]
      exact ⟨hw.allowed,hw.kept,hw.heard,hw.suppressed⟩
  | warning spec w =>
    have hnodes : nodesOf (calls ++ [.warning spec w]) = nodesOf calls :=
      (nodesOf_append _ _).trans (List.append_nil _)
    have hedges : edgesOf (calls ++ [.warning spec w]) = edgesOf calls :=
      (edgesOf_append _ _).trans (List.append_nil _)
    have hwarnings : warningsOf (calls ++ [.warning spec w]) = warningsOf calls ++ [(spec,w)] :=
      warningsOf_append _ _
    obtain ⟨warnings,keys,n,hg⟩ := g.exists_addWarning spec w
    refine ⟨?_,?_,?_⟩
    · rw [hnodes,perform,hg]
      exact ⟨hn.allowed,hn.kept,hn.refused⟩
    · rw [hedges,perform,hg]
      exact ⟨he.allowed,he.kept,he.count,he.total,he.refused⟩
    · rw [hwarnings,hcount]
      exact hw.add spec w
  | suppress =>
    have hnodes : nodesOf (calls ++ [.suppress]) = nodesOf calls :=
      (nodesOf_append _ _).trans (List.append_nil _)
    have hedges : edgesOf (calls ++ [.suppress]) = edgesOf calls :=
      (edgesOf_append _ _).trans (List.append_nil _)
    have hwarnings : warningsOf (calls ++ [.suppress]) = warningsOf calls :=
      (warningsOf_append _ _).trans (List.append_nil _)
    refine ⟨?_,?_,?_⟩
    · rw [hnodes]
      exact ⟨hn.allowed,hn.kept,hn.refused⟩
    · rw [hedges]
      exact ⟨he.allowed,he.kept,he.count,he.total,he.refused⟩
    · rw [hwarnings,hcount]
      exact hw.suppress

theorem Follows.foldl (h : Follows limits calls g) (more : List Call) :
    Follows limits (calls ++ more) (more.foldl perform g) := by
  induction more generalizing calls g with
  | nil => simpa using h
  | cons c more ih => simpa using ih (h.next c)

theorem follows_assembled (limits : Limits) (calls : List Call) :
    Follows limits calls (assembled limits calls) := (follows_of limits).foldl calls

end Runs

section Results
variable (limits : Limits) (calls : List Call)

/-- The first nodes with different ids, each as it was offered first. -/
def keptNodes : List (String × NodeKind) := keptBy limits.maxNodes Prod.fst (nodesOf calls)

def keptEdges : List Edge := (edgesOf calls).take limits.maxEdges

/-- The first warnings about different subjects. -/
def keptWarnings : List Warning :=
  (keptBy limits.maxWarnings subject (warningsOf calls)).map Prod.snd

/-- A graph is what the calls amount to. -/
structure Yields (limits : Limits) (calls : List Call) (parts : GraphParts) : Prop where
  mem_nodes : ∀ n, n ∈ parts.nodes ↔ (n.id,n.kind) ∈ keptNodes limits calls
  nodes_rise : parts.nodes.Pairwise fun a b => BytesLt a.id b.id
  edges : IsStableSort (· < ·) Edge.sortKey (keptEdges limits calls) parts.edges
  edges_by_fields : (∀ e ∈ keptEdges limits calls, ∀ s ∈ e.fields, IsSingle s) →
    IsStableSort (List.Lex BytesLt) Edge.fields (keptEdges limits calls) parts.edges
  warnings : IsStableSort (· < ·) Warning.sortKey (keptWarnings limits calls) parts.warnings
  warnings_by_fields : (∀ w ∈ keptWarnings limits calls, ∀ s ∈ w.fields, IsSingle s) →
    IsStableSort (List.Lex BytesLt) Warning.fields (keptWarnings limits calls) parts.warnings
  edgeTotal : parts.counters.edgeTotal = (edgesOf calls).length
  truncatedNodes : parts.counters.truncatedNodes =
    refusedBy limits.maxNodes Prod.fst (nodesOf calls)
  truncatedEdges : parts.counters.truncatedEdges =
    (edgesOf calls).length - (keptEdges limits calls).length
  warningSuppressed : parts.counters.warningSuppressed =
    (warningsOf calls).length - (keptWarnings limits calls).length + calls.count .suppress

theorem HasNodes.mem_iff {cap : Nat} {offers : List (String × NodeKind)} {g : GraphBuilder}
    (h : HasNodes cap offers g) (n : Node) :
    n ∈ g.finish.nodes ↔ (n.id,n.kind) ∈ keptBy cap Prod.fst offers := by
  rw [← h.kept.mem_iff,finish,List.mem_map]
  constructor
  · rintro ⟨e,he,rfl⟩
    exact he
  · exact fun hm => ⟨_,hm,rfl⟩

theorem nodes_rise (g : GraphBuilder) : g.finish.nodes.Pairwise fun a b => BytesLt a.id b.id := by
  have ho := List.pairwise_map.mp g.nodes.ordered
  exact List.pairwise_map.mpr (ho.imp fun h => bytesLt_iff.mpr h)

/-- Whatever is offered under whatever caps, a graph has the first nodes, edges and warnings, in the
order of their keys, and counts exactly what it has not. -/
theorem yields_assembled : Yields limits calls (assembled limits calls).finish := by
  obtain ⟨hn,he,hw⟩ := follows_assembled limits calls
  have hedges : (assembled limits calls).finish.edges =
      sortByKey Edge.sortKey (keptEdges limits calls) := by
    rw [finish,he.kept,List.reverse_reverse,keptEdges]
  have hwarnings : (assembled limits calls).finish.warnings =
      sortByKey Warning.sortKey (keptWarnings limits calls) := by
    rw [finish,hw.kept,List.reverse_reverse,keptWarnings]
  constructor
  · exact hn.mem_iff
  · exact nodes_rise _
  · rw [hedges]
    exact isStableSort_sortByKey _ _
  · intro hs
    rw [hedges]
    exact isStableSort_joinKey Edge.fields (n := 5) (fun _ => rfl) hs
  · rw [hwarnings]
    exact isStableSort_sortByKey _ _
  · intro hs
    rw [hwarnings]
    exact isStableSort_joinKey Warning.fields (n := 3) (fun _ => rfl) hs
  · exact he.total
  · exact hn.refused
  · have hr := he.refused
    rw [List.length_drop] at hr
    rw [keptEdges,List.length_take]
    simp only [finish]
    omega
  · have hs := hw.suppressed
    have hl : (keptBy limits.maxWarnings subject (warningsOf calls)).length ≤
        (warningsOf calls).length := keptBy_sublist.length_le
    rw [keptWarnings,List.length_map]
    simp only [finish]
    omega

end Results
end GraphBuilder
end ImportResolution
