import Mathlib
import ImportResolution.Proofs.Trace

/-! The books of a run. Each specifier asked for is counted once as resolved, external or unresolved,
and every other count is tied to these, whatever caps, duplicates and caches do. -/
namespace ImportResolution

namespace Table

theorem lookup_eq_none_of_lt {α : Type} {key : String} {xs : List (String × α)}
    (h : ∀ x ∈ xs.map Prod.fst, key < x) : xs.lookup key = none := by
  rw [List.lookup_eq_none_iff]
  intro e he
  have hl := h e.1 (List.mem_map_of_mem he)
  have hn : key ≠ e.1 := fun hk => String.lt_irrefl _ (hk ▸ hl)
  simpa using hn

theorem sum_insertEntry (key : String) (value : Nat) {xs : List (String × Nat)}
    (h : (xs.map Prod.fst).Pairwise (· < ·)) :
    ((insertEntry key value xs).map Prod.snd).sum + (xs.lookup key).getD 0 =
      (xs.map Prod.snd).sum + value := by
  induction xs with
  | nil => simp [insertEntry]
  | cons e r ih =>
    obtain ⟨ek,ev⟩ := e
    rw [List.map_cons] at h
    obtain ⟨he,hr⟩ := List.pairwise_cons.mp h
    have hi := ih hr
    simp only [insertEntry]
    split
    · next hlt =>
      have hn : List.lookup key ((ek,ev) :: r) = none := by
        apply lookup_eq_none_of_lt
        intro x hx
        rcases List.mem_cons.mp hx with rfl | hx
        · exact hlt
        · exact String.lt_trans hlt (he x hx)
      rw [hn]
      simp only [List.map_cons,List.sum_cons,Option.getD_none]
      omega
    · split
      · next heq =>
        subst heq
        simp only [List.map_cons,List.sum_cons,List.lookup_cons,BEq.rfl,Option.getD_some]
        omega
      · next hne =>
        have hb : (key == ek) = false := by simpa using hne
        simp only [List.map_cons,List.sum_cons,List.lookup_cons,hb]
        omega

theorem sum_values_insert (t : Table Nat) (key : String) (value : Nat) :
    (t.insert key value).values.sum + (t.find? key).getD 0 = t.values.sum + value :=
  sum_insertEntry key value t.ordered

end Table
namespace Run

theorem sum_bump (t : Table Nat) (key : String) : (bump t key).values.sum = t.values.sum + 1 := by
  have h := t.sum_values_insert key ((t.find? key).getD 0 + 1)
  have hb : bump t key = t.insert key ((t.find? key).getD 0 + 1) := rfl
  rw [hb]
  omega

theorem find?_bump (t : Table Nat) (key k : String) :
    ((bump t key).find? k).getD 0 = (t.find? k).getD 0 + if k = key then 1 else 0 := by
  have hb : bump t key = t.insert key ((t.find? key).getD 0 + 1) := rfl
  rw [hb,Table.find?_insert]
  by_cases hk : k = key <;> simp [hk]

theorem dispositionName_inj {a b : Disposition} (h : a.name = b.name) :
    a = b := by
  cases a <;> cases b <;> first | rfl | exact absurd h (by decide)

/-- Every specifier settled is counted once, and once more under each head of an unresolved one. -/
structure Tally.Conserves (t : Tally) (xs : List Settled) : Prop where
  total : t.resolved + t.external + t.unresolved = xs.length
  byReason : t.byReason.values.sum = t.unresolved
  byCause : t.byCause.values.sum = t.unresolved
  byDisposition : t.byDisposition.values.sum = t.unresolved
  actionable : t.actionable = (t.byDisposition.find? Disposition.actionable.name).getD 0

namespace Tally.Conserves

theorem empty : Conserves {} [] where
  total := rfl
  byReason := rfl
  byCause := rfl
  byDisposition := rfl
  actionable := rfl

theorem addExhausted {t : Tally} {xs : List Settled} (h : t.Conserves xs)
    (kinds : List BudgetKind) : (t.addExhausted kinds).Conserves xs :=
  ⟨h.total,h.byReason,h.byCause,h.byDisposition,h.actionable⟩

theorem addUnresolved {t : Tally} {xs : List Settled} (h : t.Conserves xs) (d : Decision)
    (x : Settled) : (t.addUnresolved d).Conserves (xs ++ [x]) where
  total := by
    have ht := h.total
    simp only [Tally.addUnresolved,List.length_append,List.length_singleton]
    omega
  byReason := by simp only [Tally.addUnresolved,sum_bump,h.byReason]
  byCause := by simp only [Tally.addUnresolved,sum_bump,h.byCause]
  byDisposition := by simp only [Tally.addUnresolved,sum_bump,h.byDisposition]
  actionable := by
    simp only [Tally.addUnresolved,find?_bump,h.actionable]
    by_cases hd : d.disposition = .actionable
    · simp [hd]
    · have hn : Disposition.actionable.name ≠ d.disposition.name := fun hc =>
        hd (dispositionName_inj hc).symm
      simp [hd,hn]

theorem addResolved {t : Tally} {xs : List Settled} (h : t.Conserves xs) (x : Settled) :
    Conserves { t with resolved := t.resolved + 1 } (xs ++ [x]) where
  total := by
    have ht := h.total
    simp only [List.length_append,List.length_singleton]
    omega
  byReason := h.byReason
  byCause := h.byCause
  byDisposition := h.byDisposition
  actionable := h.actionable

theorem addExternal {t : Tally} {xs : List Settled} (h : t.Conserves xs) (x : Settled) :
    Conserves { t with external := t.external + 1 } (xs ++ [x]) where
  total := by
    have ht := h.total
    simp only [List.length_append,List.length_singleton]
    omega
  byReason := h.byReason
  byCause := h.byCause
  byDisposition := h.byDisposition
  actionable := h.actionable

theorem count {t : Tally} {xs : List Settled} (h : t.Conserves xs) (x : Settled) :
    (x.count t).Conserves (xs ++ [x]) := by
  unfold Settled.count
  split
  · exact h.addResolved x
  · exact h.addExternal x
  · next code hf =>
    split
    · exact (h.addExhausted _).addUnresolved code.decision x
    · exact h.addUnresolved code.decision x

theorem foldl {t : Tally} {xs : List Settled} (h : t.Conserves xs) (ys : List Settled) :
    (ys.foldl Settled.count t).Conserves (xs ++ ys) := by
  induction ys generalizing t xs with
  | nil => simpa using h
  | cons y ys ih => simpa using ih (h.count y)

end Tally.Conserves

theorem conserves_closed (q : Request) : q.closed.state.tally.Conserves q.settled := by
  obtain ⟨-,-,ht⟩ := q.closed_run
  rw [ht.tally]
  exact Tally.Conserves.empty.foldl q.settled

/-- Unresolved, and noise at that. -/
def Settled.isSilenced (noise : NoiseFilter) (x : Settled) : Bool := x.isMissing && x.isNoise noise

/-- Unresolved, and worth a warning. -/
def Settled.isDue (noise : NoiseFilter) (x : Settled) : Bool := x.isMissing && !x.isNoise noise

/-- The importer with the specifier in its normal form, for which one warning is enough. -/
def Settled.subject (x : Settled) : String × String := (x.query.importer.rel,x.query.spec)

/-- The subjects that a warning is due for, as often as they come up. -/
def subjectsOf (noise : NoiseFilter) (xs : List Settled) : List (String × String) :=
  (xs.filter (·.isDue noise)).map (·.subject)

/-- The counters of a graph are those of the specifiers settled. -/
structure Balances (noise : NoiseFilter) (xs : List Settled) (g : GraphBuilder) : Prop where
  edges : g.edges.length + g.counters.truncatedEdges = g.counters.edgeTotal
  warnings : g.warnings.length + g.counters.warningSuppressed = xs.countP (·.isMissing)
  heard : ∀ p, p ∈ g.warningKeys ↔ p ∈ subjectsOf noise xs
  nodup : g.warningKeys.Nodup
  total : g.counters.edgeTotal + xs.countP (·.isSilenced noise) + (subjectsOf noise xs).length =
    xs.length + g.warningKeys.length

namespace Balances
variable {noise : NoiseFilter} {xs : List Settled} {g : GraphBuilder}

theorem start (limits : Limits) : Balances noise [] (.of limits) where
  edges := rfl
  warnings := rfl
  heard := by simp [GraphBuilder.of,subjectsOf]
  nodup := List.nodup_nil
  total := rfl

theorem addNode (h : Balances noise xs g) (id : String) (kind : NodeKind) :
    Balances noise xs (g.addNode id kind).2 := by
  rcases g.addNode_cases id kind with he | he | he <;> rw [he]
  · exact h
  · exact ⟨h.edges,h.warnings,h.heard,h.nodup,h.total⟩
  · exact ⟨h.edges,h.warnings,h.heard,h.nodup,h.total⟩

/-- A specifier with a target adds its edge and no more. -/
theorem target (h : Balances noise xs g) {x : Settled} (hx : x.isMissing = false) (e : Edge) :
    Balances noise (xs ++ [x]) (g.addEdge e).2 := by
  have hs : x.isSilenced noise = false := by simp [Settled.isSilenced,hx]
  have hd : x.isDue noise = false := by simp [Settled.isDue,hx]
  have he := h.edges
  have ht := h.total
  have hw : xs.countP (·.isMissing) = (xs ++ [x]).countP (·.isMissing) := by simp [hx]
  have hp : subjectsOf noise (xs ++ [x]) = subjectsOf noise xs := by simp [subjectsOf,hd]
  rcases g.addEdge_cases e with hg | hg <;> rw [hg]
  all_goals
    refine ⟨?_,h.warnings.trans hw,?_,h.nodup,?_⟩
    · simp only [List.length_cons]
      omega
    · simpa only [hp] using h.heard
    · simp only [hp,List.countP_append,List.countP_singleton,hs,List.length_append,
        List.length_singleton,Bool.false_eq_true,if_false]
      omega

/-- Noise is suppressed without an edge. -/
theorem silence (h : Balances noise xs g) {x : Settled} (hx : x.isMissing = true)
    (hn : x.isNoise noise = true) : Balances noise (xs ++ [x]) g.suppressWarning := by
  have hs : x.isSilenced noise = true := by simp [Settled.isSilenced,hx,hn]
  have hd : x.isDue noise = false := by simp [Settled.isDue,hn]
  have hp : subjectsOf noise (xs ++ [x]) = subjectsOf noise xs := by simp [subjectsOf,hd]
  have hw := h.warnings
  have ht := h.total
  refine ⟨h.edges,?_,?_,h.nodup,?_⟩
  · simp only [GraphBuilder.suppressWarning,List.countP_append,List.countP_singleton,hx,if_true]
    omega
  · rw [hp]
    exact h.heard
  · simp only [GraphBuilder.suppressWarning,hp,List.countP_append,List.countP_singleton,hs,
      List.length_append,List.length_singleton,if_true]
    omega

theorem subjectsOf_append (xs : List Settled) {x : Settled} (hd : x.isDue noise = true) :
    subjectsOf noise (xs ++ [x]) = subjectsOf noise xs ++ [x.subject] := by
  simp [subjectsOf,hd]

/-- A subject that was heard before is suppressed without an edge. -/
theorem duplicate (h : Balances noise xs g) {x : Settled} (hx : x.isMissing = true)
    (hn : x.isNoise noise = false) (hk : x.subject ∈ g.warningKeys) :
    Balances noise (xs ++ [x]) g.suppressWarning := by
  have hs : x.isSilenced noise = false := by simp [Settled.isSilenced,hn]
  have hd : x.isDue noise = true := by simp [Settled.isDue,hx,hn]
  have hp := subjectsOf_append xs hd
  have hw := h.warnings
  have ht := h.total
  refine ⟨h.edges,?_,?_,h.nodup,?_⟩
  · simp only [GraphBuilder.suppressWarning,List.countP_append,List.countP_singleton,hx,if_true]
    omega
  · intro p
    rw [hp,List.mem_append,List.mem_singleton,← h.heard]
    exact ⟨.inl,fun hm => hm.elim id fun he => he ▸ hk⟩
  · simp only [GraphBuilder.suppressWarning,hp,List.countP_append,List.countP_singleton,hs,
      List.length_append,List.length_singleton,Bool.false_eq_true,if_false]
    omega

/-- A subject that is new leaves an edge and, if there is room, a warning. -/
theorem fresh (h : Balances noise xs g) {x : Settled} (hx : x.isMissing = true)
    (hn : x.isNoise noise = false) (hk : x.subject ∉ g.warningKeys) (w : Warning)
    (hw : (w.importer,x.query.spec) = x.subject) (e : Edge) :
    Balances noise (xs ++ [x]) ((g.addWarning x.query.spec w).2.addEdge e).2 := by
  have hs : x.isSilenced noise = false := by simp [Settled.isSilenced,hn]
  have hd : x.isDue noise = true := by simp [Settled.isDue,hx,hn]
  have hp := subjectsOf_append xs hd
  have he := h.edges
  have hv := h.warnings
  have ht := h.total
  have hh : ∀ p, p ∈ x.subject :: g.warningKeys ↔ p ∈ subjectsOf noise (xs ++ [x]) := by
    intro p
    rw [hp,List.mem_append,List.mem_singleton,List.mem_cons,h.heard,or_comm]
  rw [GraphBuilder.addWarning_of_not_mem g (by rwa [hw]),GraphBuilder.heard,hw]
  split
  all_goals
    dsimp only
    rcases GraphBuilder.addEdge_cases _ e with hg | hg <;> rw [hg]
  all_goals
    refine ⟨?_,?_,hh,List.nodup_cons.mpr ⟨hk,h.nodup⟩,?_⟩
    · simp only [GraphBuilder.suppressWarning,List.length_cons]
      omega
    · simp only [GraphBuilder.suppressWarning,List.length_cons,List.countP_append,
        List.countP_singleton,hx,if_true]
      omega
    · simp only [GraphBuilder.suppressWarning,hp,List.countP_append,List.countP_singleton,hs,
        List.length_append,List.length_cons,List.length_nil,Bool.false_eq_true,if_false]
      omega

theorem place (h : Balances noise xs g) (x : Settled) :
    Balances noise (xs ++ [x]) (x.place noise g) := by
  unfold Settled.place
  split
  · next path hf =>
    exact (h.addNode _ _).target (by simp [Settled.isMissing,hf]) x.edge
  · next hf =>
    exact (h.addNode _ _).target (by simp [Settled.isMissing,hf]) x.edge
  · next code hf =>
    have hx : x.isMissing = true := by simp [Settled.isMissing,hf]
    cases hn : x.isNoise noise with
    | true => simpa using h.silence hx hn
    | false =>
      by_cases hk : x.subject ∈ g.warningKeys
      · have hw : g.addWarning x.query.spec (x.warning code) = (.duplicate,g.suppressWarning) :=
          g.addWarning_of_mem hk
        simpa [hw] using h.duplicate hx hn hk
      · have hw := h.fresh hx hn hk (x.warning code) rfl x.edge
        have hq : ((g.addWarning x.query.spec (x.warning code)).1 != .duplicate) = true :=
          g.addWarning_ne_duplicate hk
        simpa only [Bool.false_eq_true,if_false,hq,if_true] using hw

end Balances

theorem balances_closed (q : Request) :
    Balances q.ruled.noise q.settled q.closed.state.graph :=
  Request.graph_induction (.start q.settings.limits) (fun _ _ _ h => h.addNode _ _)
    fun _ _ y _ h => h.place y

namespace Request

/-- The importers of a request with their distinct specifiers, less the paths and specifiers that name
nothing. -/
def pairs (q : Request) : Finset (String × String) :=
  (q.imports.entries.flatMap fun e => e.2.map fun raw => (e.1,raw)).toFinset.filter fun p =>
    Path.normalize p.1 ≠ "" ∧ Text.isAllBlank p.2 = false ∧ Specifier.normalize p.2 ≠ ""

/-- The pairs as a list, importer by importer. -/
def pairList (q : Request) : List (String × String) :=
  (q.imports.entries.filter fun e => Path.normalize e.1 != "").flatMap fun e =>
    ((specifiersOf e.2).filter fun raw => Specifier.normalize raw ≠ "").map fun raw => (e.1,raw)

theorem nodup_pairList (q : Request) : q.pairList.Nodup := by
  unfold pairList
  rw [List.nodup_flatMap]
  constructor
  · intro e _
    have hs : (specifiersOf e.2).Nodup :=
      (Text.pairwise_distinctSorted _).imp fun h => String.ne_of_lt h
    exact (hs.filter _).map fun a b h => (Prod.mk.inj h).2
  · have ho : q.imports.entries.Pairwise fun a b => a.1 < b.1 := by
      simpa [List.pairwise_map] using q.imports.ordered
    refine (ho.sublist List.filter_sublist).imp ?_
    intro a b hab p hp hq
    obtain ⟨_,_,rfl⟩ := List.mem_map.mp hp
    obtain ⟨_,_,he⟩ := List.mem_map.mp hq
    exact String.ne_of_lt hab (Prod.mk.inj he).1.symm

theorem toFinset_pairList (q : Request) : q.pairList.toFinset = q.pairs := by
  ext ⟨importer,raw⟩
  simp only [pairList,pairs,specifiersOf,List.mem_toFinset,Finset.mem_filter,List.mem_flatMap,
    List.mem_map,List.mem_filter,Text.mem_distinctSorted,Prod.mk.injEq]
  constructor
  · rintro ⟨e,⟨he,hk⟩,s,⟨⟨hs,hb⟩,hn⟩,rfl,rfl⟩
    exact ⟨⟨e,he,s,hs,rfl,rfl⟩,by simpa using hk,by simpa using hb,by simpa using hn⟩
  · rintro ⟨⟨e,he,s,hs,rfl,rfl⟩,hk,hb,hn⟩
    exact ⟨e,⟨he,by simpa using hk⟩,s,⟨⟨hs,by simpa using hb⟩,by simpa using hn⟩,rfl,rfl⟩

/-- Sorting importers by their normal forms changes the order and the names of the pairs alone. -/
theorem length_asked (q : Request) : q.asked.length = q.pairs.card := by
  rw [← toFinset_pairList,List.toFinset_card_of_nodup q.nodup_pairList]
  have hp := (importersOf_perm q.imports).flatMap_right fun item =>
    ((specifiersOf item.2).filter fun raw => Specifier.normalize raw ≠ "").map
      fun raw => (item.1,raw)
  rw [asked,hp.length_eq]
  simp [pairList,List.filter_map,List.flatMap_map,List.length_flatMap,Function.comp_def]

end Request

theorem invalidateStale_usage (c : Cache.Persisted) (usage : CacheUsage) (package : Option String)
    (fileSet key : String) :
    let t := (invalidateStale c usage package fileSet key).2
    t.specs = usage.specs ∧ t.specsReused = usage.specsReused
      ∧ t.specsComputed = usage.specsComputed := by
  unfold invalidateStale
  split
  · exact ⟨rfl,rfl,rfl⟩
  · dsimp only
    split <;> exact ⟨rfl,rfl,rfl⟩

/-- Uses are counted where a cache was given, from nothing. -/
theorem opened_usage (q : Request) :
    q.opened.state.cacheUsage.isSome = q.cache.isSome ∧
      ∀ c ∈ q.opened.state.cacheUsage, c.specs = 0 ∧ c.specsReused = 0 ∧ c.specsComputed = 0 := by
  unfold Request.opened Request.start Request.openCache
  cases q.cache with
  | none => simp
  | some c =>
    simp only [Option.map_some,Option.isSome_some,Option.mem_some,true_and]
    rintro usage rfl
    exact invalidateStale_usage c _ _ _ _

theorem gate_totals_le (g : Gate) (ws : List (String × Disposition)) :
    (g.totals ws).actionableGateEligible ≤ (g.totals ws).gateEligible ∧
      (g.totals ws).gateEligible ≤ (g.totals ws).liveEligible ∧
      (g.totals ws).liveEligible ≤ ws.length := by
  refine ⟨?_,?_,List.countP_le_length⟩
  · apply List.countP_mono_left
    intro w _ h
    exact (Bool.and_eq_true_iff.mp h).1
  · apply List.countP_mono_left
    intro w _ h
    exact (Bool.and_eq_true_iff.mp h).1

/-- The books of a run agree with each other and with what was asked. -/
structure Accounts (q : Request) (o : Outcome) : Prop where
  total : o.stats.tally.resolved + o.stats.tally.external + o.stats.tally.unresolved = q.pairs.card
  byReason : o.stats.tally.byReason.values.sum = o.stats.tally.unresolved
  byCause : o.stats.tally.byCause.values.sum = o.stats.tally.unresolved
  byDisposition : o.stats.tally.byDisposition.values.sum = o.stats.tally.unresolved
  actionable : o.stats.tally.actionable =
    (o.stats.tally.byDisposition.find? Disposition.actionable.name).getD 0
  warnings : o.parts.warnings.length + o.stats.counters.warningSuppressed = o.stats.tally.unresolved
  edges : o.parts.edges.length + o.stats.counters.truncatedEdges = o.stats.counters.edgeTotal
  /-- What has no edge is noise, or came after another specifier with the same subject. -/
  silent : q.pairs.card = o.stats.counters.edgeTotal +
    (q.settled.countP (·.isSilenced q.ruled.noise) +
      ((subjectsOf q.ruled.noise q.settled).length -
        (subjectsOf q.ruled.noise q.settled).dedup.length))
  stages : o.stats.stages.IsBalanced
  normalize : (o.stats.stages.get .normalize).hits = q.pairs.card
  classify : (o.stats.stages.get .classify).attempts = o.stats.tally.unresolved
  caching : o.cacheUsage.isSome = q.cache.isSome
  specs : ∀ c ∈ o.cacheUsage, c.specs = q.pairs.card ∧ c.specs = c.specsReused + c.specsComputed
  actionableGate : o.stats.gate.actionableGateEligible ≤ o.stats.gate.gateEligible
  gate : o.stats.gate.gateEligible ≤ o.stats.gate.liveEligible
  live : o.stats.gate.liveEligible ≤ o.parts.warnings.length

theorem Balances.silent {noise : NoiseFilter} {xs : List Settled} {g : GraphBuilder}
    (h : Balances noise xs g) :
    xs.length = g.counters.edgeTotal + (xs.countP (·.isSilenced noise) +
      ((subjectsOf noise xs).length - (subjectsOf noise xs).dedup.length)) := by
  have hp : g.warningKeys.Perm (subjectsOf noise xs).dedup := by
    rw [List.perm_ext_iff_of_nodup h.nodup (List.nodup_dedup _)]
    intro p
    rw [h.heard,List.mem_dedup]
  have hl := hp.length_eq
  have hd := (List.dedup_sublist (subjectsOf noise xs)).length_le
  have ht := h.total
  omega

/-- Accounting is conserved in every run. -/
theorem accounts_execute (q : Request) : Accounts q (execute q) := by
  obtain ⟨-,-,ht⟩ := q.closed_run
  have hb := balances_closed q
  have hc := conserves_closed q
  obtain ⟨-,-,hm⟩ := q.closed_counts
  have hn : q.settled.length = q.pairs.card := by
    rw [← Request.length_asked,← q.settled_asked,List.length_map]
  obtain ⟨hs,hz⟩ := opened_usage q
  have hw : (execute q).parts.warnings.length = q.closed.state.graph.warnings.length := by
    simp [q.execute_eq,finish,GraphBuilder.finish]
  have he : (execute q).parts.edges.length = q.closed.state.graph.edges.length := by
    simp [q.execute_eq,finish,GraphBuilder.finish]
  have hg := gate_totals_le (Gate.of q.settings.gateSegments)
    ((execute q).parts.warnings.map fun w => (w.importer,w.decision.disposition))
  have hu : q.closed.state.cacheUsage.map (·.specs) =
      q.opened.state.cacheUsage.map fun _ => q.pairs.card := by
    rw [ht.specs,hn]
    exact Option.map_congr fun c hm => by rw [(hz c hm).1,Nat.zero_add]
  constructor
  · exact hc.total.trans hn
  · exact hc.byReason
  · exact hc.byCause
  · exact hc.byDisposition
  · exact hc.actionable
  · rw [hw]
    exact hb.warnings.trans hm.symm
  · rw [he]
    exact hb.edges
  · rw [← hn]
    exact hb.silent
  · exact ht.balanced StageTracker.isBalanced_empty
  · rw [← hn]
    exact ht.normalize.trans (Nat.zero_add _)
  · exact (ht.classify.trans (Nat.zero_add _)).trans hm.symm
  · have hi : q.closed.state.cacheUsage.isSome = q.opened.state.cacheUsage.isSome := by
      simpa using congrArg Option.isSome hu
    exact hi.trans hs
  · intro c hm
    have hc : q.closed.state.cacheUsage = some c := hm
    refine ⟨?_,ht.shares (fun d hd => ?_) c hm⟩
    · rw [hc,eq_comm,Option.map_some] at hu
      obtain ⟨-,-,hp⟩ := Option.map_eq_some_iff.mp hu
      exact hp.symm
    · obtain ⟨h₁,h₂,h₃⟩ := hz d hd
      rw [h₁,h₂,h₃]
  · exact hg.1
  · exact hg.2.1
  · exact hg.2.2.trans (by rw [List.length_map])

end Run
end ImportResolution
