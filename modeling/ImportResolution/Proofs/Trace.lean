import ImportResolution.Proofs.Assembly
import ImportResolution.Proofs.Settling
import ImportResolution.Run

/-! The trace of a run: its importers in their order, each with the specifiers that were settled for
it. The graph, the relations and the counts of the run are folds over its trace. -/
namespace ImportResolution.Run

/-- The specifiers that are settled on the way through `raws`. -/
def settledRaws (r : Rules) (importer : Importer) (profile : Option TsConfig.Profile) :
    List String → FileState × State → List Settled
  | [], _ => []
  | raw :: rest, acc =>
    let later := settledRaws r importer profile rest (resolveRaw r importer profile acc raw)
    if Specifier.normalize raw = "" then later
    else
      settled r ⟨importer,raw,Specifier.normalize raw,profile⟩ acc.1 (acc.2.normalized true)
        :: later

/-- One importer of a run. -/
structure FileRecord where
  rel : String
  raws : List String
  settled : List Settled

namespace FileRecord

def place (noise : NoiseFilter) (g : GraphBuilder) (x : FileRecord) : GraphBuilder :=
  x.settled.foldl (Settled.place noise) (g.addNode (fileNodeId x.rel) .file).2

def relations (x : FileRecord) : FileRelations where
  imports := x.raws
  importLinks := Text.distinctSorted (x.settled.filterMap (·.link?))
  externalImports := Text.distinctSorted (x.settled.filterMap (·.external?))

def relate (t : Table FileRelations) (x : FileRecord) : Table FileRelations :=
  t.insert x.rel x.relations

end FileRecord

/-- The importer of one step. -/
def recordOf (r : Rules) (hashes : Table String) (p : Progress) (item : String × List String) :
    FileRecord :=
  let raws := specifiersOf item.2
  let entered := enterFile r hashes p item
  ⟨item.1,raws,settledRaws r (Importer.of item.1) entered.1 raws entered.2⟩

/-- The importers on the way through `items`. -/
def recordsOf (r : Rules) (hashes : Table String) :
    List (String × List String) → Progress → List FileRecord
  | [], _ => []
  | item :: rest, p =>
    recordOf r hashes p item :: recordsOf r hashes rest (resolveFile r hashes p item)

namespace Request
variable (q : Request)

/-- The rules that a run of the request goes by. -/
def ruled : Rules :=
  q.rules ((storedFiles? q.root q.fileSet.fingerprint q.cache).getD q.fileSet)
    (Manifest.facts q.view q.root)

/-- Where a run of the request starts out. -/
def opened : Progress :=
  q.start (q.openCache q.ruled (Manifest.facts q.view q.root) q.fileSet.fingerprint
    (storedFiles? q.root q.fileSet.fingerprint q.cache).isSome)

/-- Where a run of the request ends. -/
def closed : Progress := (importersOf q.imports).foldl (resolveFile q.ruled q.hashes) q.opened

def trace : List FileRecord := recordsOf q.ruled q.hashes (importersOf q.imports) q.opened

/-- All that a run of the request settles. -/
def settled : List Settled := q.trace.flatMap (·.settled)

theorem execute_eq : execute q = finish q q.ruled q.closed := rfl

end Request

/-- The step from `s` to `t` puts `xs` into the counts. -/
structure Tallies (xs : List Settled) (s t : State) : Prop where
  isFiled : ∀ x ∈ xs, x.IsFiled
  tally : t.tally = xs.foldl Settled.count s.tally
  normalize : (t.stages.get .normalize).hits = (s.stages.get .normalize).hits + xs.length
  classify : (t.stages.get .classify).attempts =
    (s.stages.get .classify).attempts + xs.countP (·.isMissing)
  balanced : s.stages.IsBalanced → t.stages.IsBalanced
  specs : t.cacheUsage.map (·.specs) = s.cacheUsage.map (·.specs + xs.length)
  shares : (∀ c ∈ s.cacheUsage, c.specs = c.specsReused + c.specsComputed) →
    ∀ c ∈ t.cacheUsage, c.specs = c.specsReused + c.specsComputed

namespace Tallies

theorem refl (s : State) : Tallies [] s s where
  isFiled := by simp
  tally := rfl
  normalize := rfl
  classify := rfl
  balanced := id
  specs := rfl
  shares := id

theorem append {xs ys : List Settled} {s t u : State} (h : Tallies xs s t) (k : Tallies ys t u) :
    Tallies (xs ++ ys) s u where
  isFiled := by
    intro x hx
    rcases List.mem_append.mp hx with hx | hx
    · exact h.isFiled x hx
    · exact k.isFiled x hx
  tally := by rw [k.tally,h.tally,List.foldl_append]
  normalize := by rw [k.normalize,h.normalize,List.length_append,Nat.add_assoc]
  classify := by rw [k.classify,h.classify,List.countP_append,Nat.add_assoc]
  balanced := fun hb => k.balanced (h.balanced hb)
  specs := by
    have hs := congrArg (Option.map (· + ys.length)) h.specs
    rw [k.specs]
    simpa [Option.map_map,Function.comp_def,Nat.add_assoc] using hs
  shares := fun hc => k.shares (h.shares hc)

/-- A specifier that is empty in its normal form is a miss and no more. -/
theorem of_miss (s : State) : Tallies [] s (s.normalized false) where
  isFiled := by simp
  tally := rfl
  normalize := by simp [State.normalized,StageTracker.get_attempted_self]
  classify := by simp [State.normalized]
  balanced := fun hb => hb.attempted .normalize false
  specs := rfl
  shares := id

end Tallies

section Steps
variable (r : Rules)

/-- One step of a run, told by the specifier that it settles. -/
theorem resolveSpec_step (q : Query) (f : FileState) (s : State) :
    let x := settled r q f (s.normalized true)
    let t := resolveSpec r q f (s.normalized true)
    t.1 = x.gather f ∧ t.2.graph = x.place r.noise s.graph ∧ Tallies [x] s t.2 := by
  obtain ⟨reused,memory,hs⟩ :=
    outcome_searched r q { purse := Purse.of r.policy } (s.normalized true) f
  unfold settled resolveSpec
  generalize outcome r q f { purse := Purse.of r.policy } (s.normalized true) = found at hs ⊢
  obtain ⟨entry,key,e,t⟩ := found
  have hc := settle_counts r q key e t entry f
  simp only at hs ⊢
  generalize settle r q entry key e f t = filed at hc ⊢
  obtain ⟨last,g,u⟩ := filed
  obtain ⟨hf,hg,hc⟩ := hc
  simp only at hf hg hc ⊢
  refine ⟨?_,?_,?_⟩
  · simp only [hf,Settled.gather]
  · rw [hg,hs.graph]
    rfl
  · constructor
    · simpa using hc.isFiled
    · rw [hc.tally,hs.tally]
      rfl
    · rw [hc.normalize,hs.normalize]
      simp [State.countSpec,State.normalized,StageTracker.get_attempted_self]
    · rw [hc.classify,hs.classify]
      simp [State.countSpec,State.normalized,List.countP_cons]
    · intro hb
      exact hc.balanced (hs.balanced (hb.attempted .normalize true))
    · rw [hc.cacheUsage,hs.cacheUsage]
      cases reused <;> simp [State.countSpec,State.normalized,Function.comp_def]
    · intro hu c hm
      rw [hc.cacheUsage,hs.cacheUsage] at hm
      obtain ⟨d,hd,rfl⟩ := Option.map_eq_some_iff.mp hm
      have := hu d hd
      cases reused <;> simp <;> omega

theorem resolveRaw_step (importer : Importer) (profile : Option TsConfig.Profile) (raw : String)
    (acc : FileState × State) :
    let xs := settledRaws r importer profile [raw] acc
    let t := resolveRaw r importer profile acc raw
    t.1 = xs.foldl Settled.gather acc.1 ∧
      t.2.graph = xs.foldl (Settled.place r.noise) acc.2.graph ∧ Tallies xs acc.2 t.2 := by
  unfold settledRaws settledRaws resolveRaw
  by_cases h : Specifier.normalize raw = ""
  · simp only [h,if_true]
    exact ⟨rfl,rfl,.of_miss acc.2⟩
  · simp only [h,if_false]
    exact resolveSpec_step r ⟨importer,raw,Specifier.normalize raw,profile⟩ acc.1 acc.2

theorem settledRaws_cons (importer : Importer) (profile : Option TsConfig.Profile) (raw : String)
    (rest : List String) (acc : FileState × State) :
    settledRaws r importer profile (raw :: rest) acc =
      settledRaws r importer profile [raw] acc ++
        settledRaws r importer profile rest (resolveRaw r importer profile acc raw) := by
  by_cases h : Specifier.normalize raw = "" <;> simp [settledRaws,h]

theorem settledRaws_run (importer : Importer) (profile : Option TsConfig.Profile)
    (raws : List String) (acc : FileState × State) :
    let xs := settledRaws r importer profile raws acc
    let t := raws.foldl (resolveRaw r importer profile) acc
    t.1 = xs.foldl Settled.gather acc.1 ∧
      t.2.graph = xs.foldl (Settled.place r.noise) acc.2.graph ∧ Tallies xs acc.2 t.2 := by
  induction raws generalizing acc with
  | nil => exact ⟨rfl,rfl,.refl acc.2⟩
  | cons raw rest ih =>
    obtain ⟨hf,hg,ht⟩ := resolveRaw_step r importer profile raw acc
    obtain ⟨kf,kg,kt⟩ := ih (resolveRaw r importer profile acc raw)
    rw [settledRaws_cons,List.foldl_cons]
    refine ⟨?_,?_,ht.append kt⟩
    · rw [List.foldl_append,← hf,kf]
    · rw [List.foldl_append,← hg,kg]

/-- The specifiers of an importer as they are asked for, in their normal form. -/
def Query.of (importer : Importer) (profile : Option TsConfig.Profile) (raw : String) : Query :=
  ⟨importer,raw,Specifier.normalize raw,profile⟩

theorem query_settledRaws (importer : Importer) (profile : Option TsConfig.Profile)
    (raws : List String) (acc : FileState × State) :
    (settledRaws r importer profile raws acc).map (·.query) =
      (raws.filter fun raw => Specifier.normalize raw ≠ "").map (Query.of importer profile) := by
  induction raws generalizing acc with
  | nil => rfl
  | cons raw rest ih =>
    by_cases h : Specifier.normalize raw = ""
    · simp [settledRaws,h,ih]
    · simp [settledRaws,h,ih,settled,Query.of]

theorem configOf_state (importer : Importer) (raws : List String) (s : State) :
    ∃ configs, (configOf r importer raws s).2 = { s with configs } := by
  unfold configOf
  split
  · exact ⟨_,rfl⟩
  · exact ⟨s.configs,rfl⟩

/-- Opening an importer counts files, not specifiers. -/
theorem openFile_usage (rel : String) (hash config : Option String) (c : Option Cache.Persisted)
    (usage : CacheUsage) :
    let t := (openFile rel hash config c usage).2
    t.specs = usage.specs ∧ t.specsReused = usage.specsReused
      ∧ t.specsComputed = usage.specsComputed := by
  unfold openFile
  split
  · split
    · exact ⟨rfl,rfl,rfl⟩
    · split <;> exact ⟨rfl,rfl,rfl⟩
  · exact ⟨rfl,rfl,rfl⟩

theorem openCached_usage (rel : String) (hash config : Option String)
    (c : Option Cache.Persisted) (usage : Option CacheUsage) :
    let t := (openCached rel hash config c usage).2
    t.map (·.specs) = usage.map (·.specs) ∧
      ((∀ c ∈ usage, c.specs = c.specsReused + c.specsComputed) →
        ∀ c ∈ t, c.specs = c.specsReused + c.specsComputed) := by
  cases usage with
  | none => simp [openCached]
  | some usage =>
    obtain ⟨hs,hr,hc⟩ := openFile_usage rel hash config c usage
    simp [openCached,hs,hr,hc]

theorem enterFile_step (hashes : Table String) (p : Progress) (item : String × List String) :
    let t := (enterFile r hashes p item).2.2
    t.graph = (p.state.graph.addNode (fileNodeId item.1) .file).2 ∧ Tallies [] p.state t := by
  obtain ⟨configs,hc⟩ := configOf_state r (Importer.of item.1) (specifiersOf item.2)
    { p.state with graph := (p.state.graph.addNode (fileNodeId item.1) .file).2 }
  simp only [enterFile,hc]
  refine ⟨trivial,?_⟩
  obtain ⟨hs,hb⟩ := openCached_usage item.1 (hashes.find? item.1)
    ((configOf r (Importer.of item.1) (specifiersOf item.2)
      { p.state with graph := (p.state.graph.addNode (fileNodeId item.1) .file).2 }).1.map
        (·.fingerprint)) p.cache p.state.cacheUsage
  exact { Tallies.refl p.state with specs := hs, shares := hb }

theorem gather_links (xs : List Settled) (f : FileState) :
    (xs.foldl Settled.gather f).links =
      (xs.filterMap (·.link?)).foldl (fun acc path => Text.insertSorted path acc) f.links := by
  induction xs generalizing f with
  | nil => rfl
  | cons x xs ih =>
    rw [List.foldl_cons,ih]
    cases h : x.fate <;> simp [Settled.gather,Settled.link,Settled.link?,h]

theorem gather_externals (xs : List Settled) (f : FileState) :
    (xs.foldl Settled.gather f).externals =
      (xs.filterMap (·.external?)).foldl (fun acc raw => Text.insertSorted raw acc)
        f.externals := by
  induction xs generalizing f with
  | nil => rfl
  | cons x xs ih =>
    rw [List.foldl_cons,ih]
    cases h : x.fate <;> simp [Settled.gather,Settled.link,Settled.external?,h]

theorem enterFile_links (hashes : Table String) (p : Progress) (item : String × List String) :
    (enterFile r hashes p item).2.1.links = [] ∧ (enterFile r hashes p item).2.1.externals = [] := by
  simp only [enterFile,and_self]

theorem resolveFile_step (hashes : Table String) (p : Progress) (item : String × List String) :
    let x := recordOf r hashes p item
    let t := resolveFile r hashes p item
    t.state.graph = x.place r.noise p.state.graph ∧ t.relations = x.relate p.relations ∧
      Tallies x.settled p.state t.state := by
  obtain ⟨hg,ht⟩ := enterFile_step r hashes p item
  obtain ⟨hl,he⟩ := enterFile_links r hashes p item
  unfold recordOf resolveFile
  generalize enterFile r hashes p item = entered at hg ht hl he ⊢
  obtain ⟨profile,f,s⟩ := entered
  simp only at hg ht hl he ⊢
  obtain ⟨kf,kg,kt⟩ := settledRaws_run r (Importer.of item.1) profile (specifiersOf item.2) (f,s)
  refine ⟨?_,?_,ht.append kt⟩
  · rw [kg,FileRecord.place,← hg]
  · rw [kf,FileRecord.relate,FileRecord.relations,gather_links,gather_externals,hl,he]
    rfl

/-- The run over `items`, told by its importers. -/
theorem resolveFile_run (hashes : Table String) (items : List (String × List String))
    (p : Progress) :
    let xs := recordsOf r hashes items p
    let t := items.foldl (resolveFile r hashes) p
    t.state.graph = xs.foldl (FileRecord.place r.noise) p.state.graph ∧
      t.relations = xs.foldl FileRecord.relate p.relations ∧
      Tallies (xs.flatMap (·.settled)) p.state t.state := by
  induction items generalizing p with
  | nil => exact ⟨rfl,rfl,.refl p.state⟩
  | cons item rest ih =>
    obtain ⟨hg,hr,ht⟩ := resolveFile_step r hashes p item
    obtain ⟨kg,kr,kt⟩ := ih (resolveFile r hashes p item)
    refine ⟨?_,?_,ht.append kt⟩
    · rw [List.foldl_cons,kg,hg]
      rfl
    · rw [List.foldl_cons,kr,hr]
      rfl

theorem mem_recordsOf {hashes : Table String} {items : List (String × List String)} {p : Progress}
    {x : FileRecord} (h : x ∈ recordsOf r hashes items p) :
    ∃ item ∈ items, ∃ p, x = recordOf r hashes p item := by
  induction items generalizing p with
  | nil => simp [recordsOf] at h
  | cons item rest ih =>
    rcases List.mem_cons.mp h with rfl | h
    · exact ⟨item,.head _,p,rfl⟩
    · obtain ⟨i,hi,hx⟩ := ih h
      exact ⟨i,.tail _ hi,hx⟩

end Steps

/-- What the last record of an importer puts into a table stays there. -/
theorem FileRecord.find?_foldl_append {α : Type} {step : Table α → FileRecord → Table α}
    {x : FileRecord} {v : α}
    (ho : ∀ t y, y.rel ≠ x.rel → (step t y).find? x.rel = t.find? x.rel)
    (hv : ∀ t, (step t x).find? x.rel = some v) (before : List FileRecord)
    {later : List FileRecord} (hl : ∀ y ∈ later, y.rel ≠ x.rel) (t : Table α) :
    ((before ++ x :: later).foldl step t).find? x.rel = some v := by
  have hskip : ∀ (ys : List FileRecord) t, (∀ y ∈ ys, y.rel ≠ x.rel) →
      (ys.foldl step t).find? x.rel = t.find? x.rel := by
    intro ys
    induction ys with
    | nil => exact fun _ _ => rfl
    | cons y ys ih =>
      intro t hy
      rw [List.foldl_cons,ih _ fun z hz => hy z (.tail _ hz),ho t y (hy y (.head _))]
  rw [List.foldl_append,List.foldl_cons,hskip later _ hl,hv]

/-- Where no importer is entered twice, what its record puts into a table stays there. -/
theorem FileRecord.find?_foldl {α : Type} {step : Table α → FileRecord → Table α}
    {xs : List FileRecord} (hn : (xs.map (·.rel)).Nodup) {x : FileRecord} (hx : x ∈ xs) {v : α}
    (ho : ∀ t y, y.rel ≠ x.rel → (step t y).find? x.rel = t.find? x.rel)
    (hv : ∀ t, (step t x).find? x.rel = some v) (t : Table α) :
    (xs.foldl step t).find? x.rel = some v := by
  obtain ⟨before,later,rfl⟩ := List.append_of_mem hx
  rw [List.map_append,List.map_cons] at hn
  refine find?_foldl_append ho hv before (fun y hy he => ?_) t
  exact (List.nodup_cons.mp (List.nodup_append.mp hn).2.1).1 (he ▸ List.mem_map_of_mem hy)

theorem FileRecord.find?_relate (t : Table FileRelations) (y : FileRecord) (rel : String) :
    (y.relate t).find? rel = if rel = y.rel then some y.relations else t.find? rel :=
  Table.find?_insert t y.rel rel y.relations

theorem importersOf_perm (imports : Table (List String)) :
    (importersOf imports).Perm
      ((imports.entries.map fun e => (Path.normalize e.1,e.2)).filter fun e => e.1 != "") :=
  sortByKey_perm _

theorem Settled.count_outcomes (x : Settled) (t : Tally) :
    (x.count t).resolved = t.resolved + (if x.link?.isSome then 1 else 0) ∧
      (x.count t).external = t.external + (if x.external?.isSome then 1 else 0) ∧
      (x.count t).unresolved = t.unresolved + (if x.isMissing then 1 else 0) := by
  cases h : x.fate with
  | inside path => simp [count,link?,external?,isMissing,h]
  | outside => simp [count,link?,external?,isMissing,h]
  | missing code =>
    by_cases hc : code = .resolverBudgetExhausted <;>
      simp [count,link?,external?,isMissing,h,hc,Tally.addUnresolved,Tally.addExhausted]

/-- The counts of outcomes are those of the specifiers settled. -/
theorem foldl_count (xs : List Settled) (t : Tally) :
    let u := xs.foldl Settled.count t
    u.resolved = t.resolved + xs.countP (·.link?.isSome) ∧
      u.external = t.external + xs.countP (·.external?.isSome) ∧
      u.unresolved = t.unresolved + xs.countP (·.isMissing) := by
  induction xs generalizing t with
  | nil => exact ⟨rfl,rfl,rfl⟩
  | cons x xs ih =>
    obtain ⟨hr,he,hu⟩ := x.count_outcomes t
    obtain ⟨kr,ke,ku⟩ := ih (x.count t)
    simp only [List.foldl_cons,List.countP_cons,kr,ke,ku,hr,he,hu]
    omega

namespace Request
variable (q : Request)

/-- The specifiers worth a look, each with its importer. -/
def asked : List (String × String) :=
  (importersOf q.imports).flatMap fun item =>
    ((specifiersOf item.2).filter fun raw => Specifier.normalize raw ≠ "").map fun raw =>
      (item.1,raw)

theorem asked_recordsOf (r : Rules) (hashes : Table String)
    (items : List (String × List String)) (p : Progress) :
    ((recordsOf r hashes items p).flatMap (·.settled)).map
        (fun x => (x.query.importer.rel,x.query.raw)) =
      items.flatMap fun item =>
        ((specifiersOf item.2).filter fun raw => Specifier.normalize raw ≠ "").map fun raw =>
          (item.1,raw) := by
  induction items generalizing p with
  | nil => rfl
  | cons item rest ih =>
    rw [recordsOf,List.flatMap_cons,List.map_append,ih,List.flatMap_cons]
    have hq := congrArg (List.map fun q : Query => (q.importer.rel,q.raw))
      (query_settledRaws r (Importer.of item.1) (enterFile r hashes p item).1
        (specifiersOf item.2) (enterFile r hashes p item).2)
    rw [List.map_map,List.map_map] at hq
    exact congrArg (· ++ _) hq

/-- A run settles what is asked, all of it and in order. -/
theorem settled_asked :
    q.settled.map (fun x => (x.query.importer.rel,x.query.raw)) = q.asked :=
  asked_recordsOf q.ruled q.hashes (importersOf q.imports) q.opened

theorem mem_settled {q : Request} {x : Settled} (h : x ∈ q.settled) :
    ∃ item ∈ importersOf q.imports, ∃ raw ∈ specifiersOf item.2, ∃ profile,
      Specifier.normalize raw ≠ "" ∧ x.query = Query.of (Importer.of item.1) profile raw := by
  obtain ⟨record,hr,hx⟩ := List.mem_flatMap.mp h
  obtain ⟨item,hi,p,rfl⟩ := mem_recordsOf q.ruled hr
  have hq := List.mem_map_of_mem (f := fun x : Settled => x.query) hx
  rw [recordOf,query_settledRaws] at hq
  obtain ⟨raw,hm,hq⟩ := List.mem_map.mp hq
  obtain ⟨hm,hn⟩ := List.mem_filter.mp hm
  exact ⟨item,hi,raw,hm,_,by simpa using hn,hq.symm⟩

theorem spec_of_mem_settled {q : Request} {x : Settled} (h : x ∈ q.settled) :
    x.query.spec = Specifier.normalize x.query.raw := by
  obtain ⟨item,-,raw,-,profile,-,hx⟩ := mem_settled h
  rw [hx]
  rfl

/-- A run acts on graph, relations and counts as its trace tells. -/
theorem closed_run :
    q.closed.state.graph = q.trace.foldl (FileRecord.place q.ruled.noise) (.of q.settings.limits) ∧
      q.closed.relations = q.trace.foldl FileRecord.relate Table.empty ∧
      Tallies q.settled q.opened.state q.closed.state :=
  resolveFile_run q.ruled q.hashes (importersOf q.imports) q.opened

theorem closed_counts :
    q.closed.state.tally.resolved = q.settled.countP (·.link?.isSome) ∧
      q.closed.state.tally.external = q.settled.countP (·.external?.isSome) ∧
      q.closed.state.tally.unresolved = q.settled.countP (·.isMissing) := by
  obtain ⟨-,-,ht⟩ := q.closed_run
  have hc := foldl_count q.settled {}
  simp only [Nat.zero_add] at hc
  rw [ht.tally]
  exact hc

section Induction
variable {q : Request} {P : List Settled → GraphBuilder → Prop}

theorem place_induction {ys : List Settled} (hy : ∀ y ∈ ys, y ∈ q.settled)
    (hp : ∀ xs g, ∀ y ∈ q.settled, P xs g → P (xs ++ [y]) (y.place q.ruled.noise g))
    {xs : List Settled} {g : GraphBuilder} (h : P xs g) :
    P (xs ++ ys) (ys.foldl (Settled.place q.ruled.noise) g) := by
  induction ys generalizing xs g with
  | nil => simpa using h
  | cons y ys ih =>
    have hs := hp xs g y (hy y (.head _)) h
    have hr := ih (fun z hz => hy z (.tail _ hz)) hs
    simpa using hr

theorem records_induction {records : List FileRecord} (hr : ∀ x ∈ records, x ∈ q.trace)
    (hn : ∀ xs g rel, P xs g → P xs (g.addNode (fileNodeId rel) .file).2)
    (hp : ∀ xs g, ∀ y ∈ q.settled, P xs g → P (xs ++ [y]) (y.place q.ruled.noise g))
    {xs : List Settled} {g : GraphBuilder} (h : P xs g) :
    P (xs ++ records.flatMap (·.settled)) (records.foldl (FileRecord.place q.ruled.noise) g) := by
  induction records generalizing xs g with
  | nil => simpa using h
  | cons x records ih =>
    have hy : ∀ y ∈ x.settled, y ∈ q.settled := fun y hy =>
      List.mem_flatMap.mpr ⟨x,hr x (.head _),hy⟩
    have hx : P (xs ++ x.settled) (x.place q.ruled.noise g) :=
      place_induction hy hp (hn xs g x.rel h)
    have hs := ih (fun z hz => hr z (.tail _ hz)) hx
    simpa using hs

/-- What holds of no graph yet, and is kept by a node for an importer and by each specifier settled,
holds of the graph of a run. -/
theorem graph_induction (h : P [] (.of q.settings.limits))
    (hn : ∀ xs g rel, P xs g → P xs (g.addNode (fileNodeId rel) .file).2)
    (hp : ∀ xs g, ∀ y ∈ q.settled, P xs g → P (xs ++ [y]) (y.place q.ruled.noise g)) :
    P q.settled q.closed.state.graph := by
  rw [q.closed_run.1]
  simpa [settled] using records_induction (fun _ hx => hx) hn hp h

end Induction
end Request
end ImportResolution.Run
