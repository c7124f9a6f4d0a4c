import Mathlib.Data.List.Nodup
import ImportResolution.Proofs.Offers

/-! Graphs under their caps. Where no cap is exceeded and keys tell apart what is offered, the order
of the calls leaves no trace in the graph. -/
namespace ImportResolution

-- No text is computed here, and no unifier should try to.
attribute [local irreducible] String.toList

/-- Where no two keys are equal, there is one way to sort. -/
theorem sortByKey_of_perm {α : Type} {key : α → String} {xs ys : List α} (h : xs.Perm ys)
    (hd : (xs.map key).Nodup) : sortByKey key xs = sortByKey key ys := by
  have hp : (sortByKey key xs).Perm (sortByKey key ys) :=
    (sortByKey_perm xs).trans (h.trans (sortByKey_perm ys).symm)
  refine hp.eq_of_pairwise ?_ (pairwise_sortByKey xs) (pairwise_sortByKey ys)
  intro a b ha hb hab hba
  have hx : b ∈ xs := h.mem_iff.mpr (mem_sortByKey.mp hb)
  exact List.inj_on_of_nodup_map hd (mem_sortByKey.mp ha) hx (String.le_antisymm hab hba)

theorem Table.eq_of_perm {α : Type} {s t : Table α} (h : s.entries.Perm t.entries) : s = t := by
  have hs := List.pairwise_map.mp s.ordered
  have ht := List.pairwise_map.mp t.ordered
  refine Table.ext (h.eq_of_pairwise ?_ hs ht)
  intro a b _ _ hab hba
  exact absurd hba (String.lt_asymm hab)

section Firsts
variable {α κ : Type} [DecidableEq κ] {key : α → κ} {xs ys : List α}

/-- What is offered again under its key is the same. -/
def AgreeBy (key : α → κ) (xs : List α) : Prop := ∀ a ∈ xs, ∀ b ∈ xs, key a = key b → a = b

instance [DecidableEq α] : Decidable (AgreeBy key xs) :=
  inferInstanceAs (Decidable (∀ a ∈ xs, ∀ b ∈ xs, key a = key b → a = b))

theorem AgreeBy.mem_firstsBy (h : AgreeBy key xs) {x : α} : x ∈ firstsBy key xs ↔ x ∈ xs := by
  constructor
  · exact fun hx => (firstsBy_sublist xs).subset hx
  · intro hx
    obtain ⟨y,hy,hk⟩ := List.mem_map.mp (mem_keys_firstsBy.mpr (List.mem_map_of_mem (f := key) hx))
    rw [← h y ((firstsBy_sublist xs).subset hy) x hx hk]
    exact hy

theorem AgreeBy.perm_firstsBy (h : AgreeBy key xs) (hp : xs.Perm ys) :
    (firstsBy key xs).Perm (firstsBy key ys) := by
  have hy : AgreeBy key ys := fun a ha b hb =>
    h a (hp.mem_iff.mpr ha) b (hp.mem_iff.mpr hb)
  rw [List.perm_ext_iff_of_nodup (nodup_firstsBy xs).of_map (nodup_firstsBy ys).of_map]
  intro x
  rw [h.mem_firstsBy,hy.mem_firstsBy,hp.mem_iff]

end Firsts

namespace GraphBuilder
variable {limits : Limits} {calls others : List Call}

/-- No cap is exceeded. -/
structure Fits (limits : Limits) (calls : List Call) : Prop where
  nodes : (firstsBy Prod.fst (nodesOf calls)).length ≤ limits.maxNodes
  edges : (edgesOf calls).length ≤ limits.maxEdges
  warnings : (warningsOf calls).length ≤ limits.maxWarnings

/-- Keys tell apart what is offered: an id has one kind, each subject has one warning, and no two
edges or warnings are sorted by the same text. -/
structure AreDistinct (calls : List Call) : Prop where
  nodes : AgreeBy Prod.fst (nodesOf calls)
  subjects : ((warningsOf calls).map subject).Nodup
  edges : ((edgesOf calls).map Edge.sortKey).Nodup
  warnings : ((warningsOf calls).map fun o => o.2.sortKey).Nodup

section Permuted
variable (hp : calls.Perm others)
include hp

theorem perm_nodesOf : (nodesOf calls).Perm (nodesOf others) := hp.filterMap _

theorem perm_edgesOf : (edgesOf calls).Perm (edgesOf others) := hp.filterMap _

theorem perm_warningsOf : (warningsOf calls).Perm (warningsOf others) := hp.filterMap _

theorem AreDistinct.of_perm (h : AreDistinct calls) : AreDistinct others where
  nodes a ha b hb :=
    h.nodes a ((perm_nodesOf hp).mem_iff.mpr ha) b ((perm_nodesOf hp).mem_iff.mpr hb)
  subjects := ((perm_warningsOf hp).map _).nodup_iff.mp h.subjects
  edges := ((perm_edgesOf hp).map _).nodup_iff.mp h.edges
  warnings := ((perm_warningsOf hp).map _).nodup_iff.mp h.warnings

theorem Fits.of_perm (h : Fits limits calls) (hd : AreDistinct calls) : Fits limits others where
  nodes := (hd.nodes.perm_firstsBy (perm_nodesOf hp)).length_eq ▸ h.nodes
  edges := (perm_edgesOf hp).length_eq ▸ h.edges
  warnings := (perm_warningsOf hp).length_eq ▸ h.warnings

end Permuted

section Uncut
variable {g : GraphBuilder}

/-- A graph that no cap cuts has all that is offered. -/
structure HasAll (calls : List Call) (g : GraphBuilder) : Prop where
  nodes : g.nodes.entries.Perm (firstsBy Prod.fst (nodesOf calls))
  edges : g.edges.reverse = edgesOf calls
  warnings : g.warnings.reverse = (warningsOf calls).map Prod.snd
  counters : g.counters = ⟨(edgesOf calls).length,0,0,calls.count .suppress⟩

theorem hasAll_assembled (hf : Fits limits calls) (hd : AreDistinct calls) :
    HasAll calls (assembled limits calls) := by
  obtain ⟨hn,he,hw⟩ := follows_assembled limits calls
  have hkept : keptBy limits.maxWarnings subject (warningsOf calls) = warningsOf calls := by
    have hself := firstsBy_eq_self hd.subjects
    have hl := hf.warnings
    rw [← hself] at hl
    rw [keptBy_of_length_le hl,hself]
  constructor
  · exact keptBy_of_length_le hf.nodes ▸ hn.kept
  · rw [he.kept,List.reverse_reverse,List.take_of_length_le hf.edges]
  · rw [hw.kept,List.reverse_reverse,hkept]
  · have hz := hn.refused.trans (refusedBy_eq_zero hf.nodes)
    have hr := he.refused
    rw [List.drop_of_length_le hf.edges,List.length_nil] at hr
    have hs := hw.suppressed
    rw [hkept] at hs
    have ht := he.total
    generalize (assembled limits calls).counters = counters at hz hr hs ht ⊢
    obtain ⟨total,nodes,edges,suppressed⟩ := counters
    simp only at hz hr hs ht
    rw [hz,hr,ht,GraphCounters.mk.injEq]
    exact ⟨rfl,rfl,rfl,by omega⟩

end Uncut

/-- Below the caps, where keys tell apart what is offered, the order of the calls does not count. -/
theorem finish_of_perm (hp : calls.Perm others) (hf : Fits limits calls) (hd : AreDistinct calls) :
    (assembled limits calls).finish = (assembled limits others).finish := by
  have ha := hasAll_assembled hf hd
  have hb := hasAll_assembled (hf.of_perm hp hd) (hd.of_perm hp)
  have hnodes : (assembled limits calls).nodes = (assembled limits others).nodes :=
    Table.eq_of_perm (ha.nodes.trans
      ((hd.nodes.perm_firstsBy (perm_nodesOf hp)).trans hb.nodes.symm))
  have hedges : sortByKey Edge.sortKey (edgesOf calls) = sortByKey Edge.sortKey (edgesOf others) :=
    sortByKey_of_perm (perm_edgesOf hp) hd.edges
  have hwarnings : sortByKey Warning.sortKey ((warningsOf calls).map Prod.snd) =
      sortByKey Warning.sortKey ((warningsOf others).map Prod.snd) := by
    refine sortByKey_of_perm ((perm_warningsOf hp).map _) ?_
    rw [List.map_map]
    exact hd.warnings
  have hcounters : (assembled limits calls).counters = (assembled limits others).counters := by
    rw [ha.counters,hb.counters,(perm_edgesOf hp).length_eq,hp.count_eq]
  rw [finish,finish,ha.edges,hb.edges,ha.warnings,hb.warnings,hnodes,hedges,hwarnings,hcounters]

/-- A page that imports a part and a library, and misses two more. -/
def pageCalls : List Call :=
  [.node "file:page" .file,
   .node "file:part" .file,
   .edge { Edge.of "file:page" "./part" .relative with target := some "file:part" },
   .node "ext:lib" .external,
   .edge { Edge.of "file:page" "lib" .external with target := some "ext:lib" },
   .warning "./gone" ⟨"page","./gone",ReasonCode.missingFileRelative.decision⟩,
   .warning "./lost" ⟨"page","./lost",ReasonCode.missingFileRelative.decision⟩,
   .node "file:page" .file,.suppress]

def pageLimits : Limits := { maxNodes := 3, maxEdges := 2, maxWarnings := 2 }

theorem finish_of_perm_pageCalls :
    pageCalls.Perm pageCalls.reverse ∧ Fits pageLimits pageCalls ∧ AreDistinct pageCalls ∧
      (assembled pageLimits pageCalls).finish =
        (assembled pageLimits pageCalls.reverse).finish := by
  have hp : pageCalls.Perm pageCalls.reverse := pageCalls.reverse_perm.symm
  have hf : Fits pageLimits pageCalls := ⟨by decide,by decide,by decide⟩
  have hd : AreDistinct pageCalls := ⟨by decide,by decide,by decide,by decide⟩
  exact ⟨hp,hf,hd,finish_of_perm hp hf hd⟩

end GraphBuilder
end ImportResolution
