import ImportResolution.Proofs.Search

/-! One specifier once it is settled: what it came to, the edge or warning it leaves in the graph, and
what it adds to the counts. A step of a run acts on the graph and the counts by this alone. -/
namespace ImportResolution.Run

/-- What a specifier came to. -/
inductive Fate
  | inside (path : String)
  | outside
  | missing (code : ReasonCode)
  deriving DecidableEq, Repr

/-- A specifier with the entry that it was filed under. -/
structure Settled where
  query : Query
  entry : Cache.Entry

namespace Settled

def fate (x : Settled) : Fate :=
  match x.entry.resolvedType.isInRepo, x.entry.resolvedPath with
  | true, some path => .inside path
  | _, _ =>
    if x.entry.resolvedType = .external then .outside
    else .missing (x.entry.reason.getD .unknown)

/-- A specifier without a target is filed as unresolved, for a reason. -/
def IsFiled (x : Settled) : Prop :=
  ∀ code, x.fate = .missing code → x.entry.resolvedType = .unresolved ∧ x.entry.reason = some code

def edge (x : Settled) : Edge :=
  match x.fate with
  | .inside path => { edgeOf x.query x.entry with target := some (fileNodeId path) }
  | .outside => { edgeOf x.query x.entry with target := some (externalNodeId x.query.spec) }
  | .missing code => (edgeOf x.query x.entry).withDecision code.decision

def warning (x : Settled) (code : ReasonCode) : Warning :=
  ⟨x.query.importer.rel,x.query.raw,code.decision⟩

def isNoise (x : Settled) (noise : NoiseFilter) : Bool :=
  noise.isNoise x.query.spec x.query.raw x.query.importer

/-- The file that a specifier leads to. -/
def link? (x : Settled) : Option String :=
  match x.fate with
  | .inside path => some path
  | _ => none

/-- The specifier as written, where it leads outside. -/
def external? (x : Settled) : Option String :=
  match x.fate with
  | .outside => some x.query.raw
  | _ => none

def isMissing (x : Settled) : Bool :=
  match x.fate with
  | .missing _ => true
  | _ => false

/-- Puts a specifier into the graph. -/
def place (noise : NoiseFilter) (g : GraphBuilder) (x : Settled) : GraphBuilder :=
  match x.fate with
  | .inside path => ((g.addNode (fileNodeId path) .file).2.addEdge x.edge).2
  | .outside => ((g.addNode (externalNodeId x.query.spec) .external).2.addEdge x.edge).2
  | .missing code =>
    if x.isNoise noise then g.suppressWarning
    else
      let heard := g.addWarning x.query.spec (x.warning code)
      if heard.1 != .duplicate then (heard.2.addEdge x.edge).2 else heard.2

/-- Puts a specifier into the counts. -/
def count (t : Tally) (x : Settled) : Tally :=
  match x.fate with
  | .inside _ => { t with resolved := t.resolved + 1 }
  | .outside => { t with external := t.external + 1 }
  | .missing code =>
    (if code = .resolverBudgetExhausted then t.addExhausted x.entry.exhausted
      else t).addUnresolved code.decision

/-- Puts a specifier with the files and names that its importer leads to. -/
def link (f : FileState) (x : Settled) : FileState :=
  match x.fate with
  | .inside path => { f with links := Text.insertSorted path f.links }
  | .outside => { f with externals := Text.insertSorted x.query.raw f.externals }
  | .missing _ => f

/-- Puts a specifier with all that is gathered for its importer. -/
def gather (f : FileState) (x : Settled) : FileState :=
  let f := x.link f
  { f with next := f.next.map (·.insert x.query.spec x.entry) }

theorem fate_inside {q : Query} {e : Cache.Entry} {path : String}
    (ht : e.resolvedType.isInRepo = true) (hp : e.resolvedPath = some path) :
    fate ⟨q,e⟩ = .inside path := by
  simp [fate,ht,hp]

theorem of_fate_inside {x : Settled} {path : String} (h : x.fate = .inside path) :
    x.entry.resolvedType.isInRepo = true ∧ x.entry.resolvedPath = some path := by
  unfold fate at h
  split at h
  · next ht hp => exact ⟨ht,by rw [hp,Fate.inside.inj h]⟩
  · split at h <;> cases h

theorem of_fate_outside {x : Settled} (h : x.fate = .outside) :
    x.entry.resolvedType = .external := by
  unfold fate at h
  split at h
  · cases h
  · split at h
    · next ht => exact ht
    · cases h

theorem fate_outside {q : Query} {e : Cache.Entry} (h : e.resolvedType = .external) :
    fate ⟨q,e⟩ = .outside := by
  simp [fate,h,ResolvedType.isInRepo]

theorem fate_missing {q : Query} {e : Cache.Entry} {code : ReasonCode}
    (ht : e.resolvedType = .unresolved) (hc : e.reason = some code) :
    fate ⟨q,e⟩ = .missing code := by
  simp [fate,ht,hc,ResolvedType.isInRepo]

end Settled

variable (r : Rules) (q : Query)

/-- The state after a reason was sought. -/
theorem reasonOf_state (noise : Bool) (kept : Option ReasonCode) (e : Effort) (s : State) :
    (reasonOf r q noise kept e s).2.2 = s ∨
      (reasonOf r q noise kept e s).2.2 = (askBuild r q e s).2.2 := by
  unfold reasonOf
  split
  · exact .inl rfl
  · cases noise || Diagnosis.escapes q.spec q.importer with
    | true => exact .inl rfl
    | false => exact .inr rfl

theorem reasonOf_searched (noise : Bool) (kept : Option ReasonCode) (e : Effort) (s : State) :
    Searched s (reasonOf r q noise kept e s).2.2 := by
  rcases reasonOf_state r q noise kept e s with h | h <;> rw [h]
  · exact .refl s
  · exact askBuild_searched r q e s

theorem reasonOf_packages (noise : Bool) (kept : Option ReasonCode) (e : Effort) (s : State) :
    (reasonOf r q noise kept e s).2.2.packages = s.packages := by
  rcases reasonOf_state r q noise kept e s with h | h <;> rw [h]
  exact askBuild_packages r q e s

/-- The step from `s` to `t` puts `x` into the counts and leaves the graph. -/
structure Counts (x : Settled) (s t : State) : Prop where
  isFiled : x.IsFiled
  tally : t.tally = x.count s.tally
  configs : t.configs = s.configs
  packages : t.packages = s.packages
  memory : t.memory = s.memory ∨
    ∃ key code kinds, t.memory = s.memory.record key code kinds
  cacheUsage : t.cacheUsage = s.cacheUsage
  normalize : t.stages.get .normalize = s.stages.get .normalize
  classify : (t.stages.get .classify).attempts =
    (s.stages.get .classify).attempts + if x.isMissing then 1 else 0
  balanced : s.stages.IsBalanced → t.stages.IsBalanced

theorem Counts.withGraph {x : Settled} {s t : State} (h : Counts x s t) (g : GraphBuilder) :
    Counts x s { t with graph := g } :=
  { h with }

/-- A specifier with a target is counted as it is. -/
theorem counts_of_target {x : Settled} (hx : x.isMissing = false) (s : State) (g : GraphBuilder) :
    Counts x s { s with graph := g, tally := x.count s.tally } where
  isFiled := by
    intro code hc
    simp [Settled.isMissing,hc] at hx
  tally := rfl
  configs := rfl
  packages := rfl
  memory := .inl rfl
  cacheUsage := rfl
  normalize := rfl
  classify := by simp [hx]
  balanced := id

variable {entry : Cache.Entry} (noise : Bool) (key : Option String) (e : Effort) (s : State)

/-- An unresolved specifier comes to the reason found, and leaves the graph for later. -/
theorem countUnresolved_counts (ht : entry.resolvedType = .unresolved) :
    let filed := countUnresolved r q noise entry key e s
    let x : Settled := ⟨q,filed.2.1⟩
    x.fate = .missing filed.1 ∧ filed.2.2.graph = s.graph ∧ Counts x s filed.2.2 := by
  intro filed x
  have hf : x.fate = .missing filed.1 := Settled.fate_missing ht rfl
  have hs := reasonOf_searched r q noise entry.reason e s
  refine ⟨hf,hs.graph,?_⟩
  constructor
  · intro code hc
    rw [hf] at hc
    cases hc
    exact ⟨ht,rfl⟩
  · rw [Settled.count,hf,← hs.tally]
    rfl
  · exact hs.configs
  · exact reasonOf_packages r q noise entry.reason e s
  · rw [← hs.memory]
    cases key with
    | none => exact .inl rfl
    | some k => exact .inr ⟨k,_,_,rfl⟩
  · exact hs.cacheUsage
  · rw [← hs.normalize]
    exact StageTracker.get_attempted_of_ne _ (s := .classify) (by decide) true
  · rw [← hs.classify]
    simp only [Settled.isMissing,hf]
    rfl
  · exact fun hb => (hs.balanced hb).attempted .classify true

/-- The edge is added by the caller, as the answer tells it. -/
theorem recordUnresolved_counts (ht : entry.resolvedType = .unresolved) :
    let filed := recordUnresolved r q entry key e s
    let x : Settled := ⟨q,filed.2.1⟩
    Counts x s filed.2.2 ∧
      (∃ code, x.fate = .missing code ∧ x.edge = (edgeOf q entry).withDecision code.decision) ∧
      (if filed.1 then (filed.2.2.graph.addEdge x.edge).2 else filed.2.2.graph) =
        x.place r.noise s.graph := by
  intro filed x
  obtain ⟨hf,hg,hc⟩ :=
    countUnresolved_counts r q (r.noise.isNoise q.spec q.raw q.importer) key e s ht
  cases hn : r.noise.isNoise q.spec q.raw q.importer with
  | true =>
    rw [hn] at hf hg hc
    simp only [x,filed,recordUnresolved,hn,if_true]
    refine ⟨hc.withGraph _,⟨_,hf,by simp only [Settled.edge,hf]; rfl⟩,?_⟩
    simp only [Settled.place,hf,Settled.isNoise,hn,hg]
    rfl
  | false =>
    rw [hn] at hf hg hc
    simp only [x,filed,recordUnresolved,hn,Bool.false_eq_true,if_false]
    refine ⟨hc.withGraph _,⟨_,hf,by simp only [Settled.edge,hf]; rfl⟩,?_⟩
    simp only [Settled.place,hf,Settled.isNoise,hn,hg,Bool.false_eq_true,if_false]
    rfl

/-- Every outcome is filed with its edge, its warning and its counts. -/
theorem settle_counts (entry : Cache.Entry) (f : FileState) :
    let filed := settle r q entry key e f s
    let x : Settled := ⟨q,filed.1⟩
    filed.2.1 = x.link f ∧ filed.2.2.graph = x.place r.noise s.graph ∧ Counts x s filed.2.2 := by
  unfold settle
  split
  · next path ht hp =>
    have hf := Settled.fate_inside (q := q) ht hp
    have hc := counts_of_target (x := ⟨q,entry⟩) (by simp [Settled.isMissing,hf]) s
    simp only [Settled.link,Settled.place,Settled.edge,Settled.count,hf,true_and] at hc ⊢
    exact hc _
  · by_cases hx : entry.resolvedType = .external
    · have hf := Settled.fate_outside (q := q) hx
      have hc := counts_of_target (x := ⟨q,entry⟩) (by simp [Settled.isMissing,hf]) s
      simp only [hx,if_true]
      simp only [Settled.link,Settled.place,Settled.edge,Settled.count,hf,true_and] at hc ⊢
      exact hc _
    · simp only [hx,if_false]
      generalize hk : (if entry.resolvedType = .unresolved then entry
        else { resolvedType := .unresolved }) = kept
      have ht : kept.resolvedType = .unresolved := by
        rw [← hk]
        split <;> simp_all
      have hu := recordUnresolved_counts r q key e s ht
      generalize recordUnresolved r q kept key e s = out at hu ⊢
      obtain ⟨isKept,last,t⟩ := out
      obtain ⟨hc,⟨code,hf,he⟩,hg⟩ := hu
      obtain ⟨-,hr⟩ := hc.isFiled code hf
      simp only at hr he hg
      simp only [hr,← he,Settled.link,hf,true_and]
      cases isKept with
      | true => exact ⟨hg,hc.withGraph _⟩
      | false => exact ⟨hg,hc⟩

/-- The specifier that a step of the run files. -/
def settled (r : Rules) (q : Query) (f : FileState) (s : State) : Settled :=
  let found := outcome r q f { purse := Purse.of r.policy } s
  ⟨q,(settle r q found.1 found.2.1 found.2.2.1 f found.2.2.2).1⟩

/-- An outcome out of memory or by the rules is found by a search, memory apart. -/
theorem fromMemory_searched (key : String) :
    ∃ memory, Searched { s with memory } (fromMemory r q key e s).2.2 := by
  unfold fromMemory
  split
  · exact ⟨_,.refl _⟩
  · next memory hm =>
    have hc := compute_searched r q e { s with memory }
    exact ⟨_,hc.withMemory _⟩

theorem outcome_searched (f : FileState) :
    ∃ reused memory, Searched { s.countSpec reused with memory } (outcome r q f e s).2.2.2 := by
  unfold outcome
  split
  · exact ⟨true,s.memory,.refl _⟩
  · exact ⟨false,fromMemory_searched r q e _ _⟩

end ImportResolution.Run
