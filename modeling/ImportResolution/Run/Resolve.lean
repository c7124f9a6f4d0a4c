import ImportResolution.Run.Compute

/-! One specifier within a run: its outcome comes from the cache of an earlier run, from this run's
memory or from the rules, and goes into the graph, the counts and the caches. -/
namespace ImportResolution.Run

/-- What is gathered for one importer. -/
structure FileState where
  persisted : Option Cache.FileEntry
  configFingerprint : Option String
  /-- Outcomes to keep, where they are kept. -/
  next : Option (Table Cache.Entry)
  links : List String := []
  externals : List String := []

/-- Whether an outcome of an earlier run still holds. -/
def isStillValid (r : Rules) (e : Cache.Entry) : Bool :=
  if e.resolvedType.isInRepo then e.resolvedPath.any r.files.contains
  else if e.isEphemeral then
    !e.isExpired r.now && Probe.isStillValid r.site r.files e.fallbackPath
  else true

def persisted? (r : Rules) (q : Query) (f : FileState) : Option Cache.Entry :=
  (f.persisted.bind fun p => p.specs.find? q.spec).filter (isStillValid r)

/-- The entry in memory, if it is live and, for a file outside the index, still true. -/
def remembered (r : Rules) (key : String) (m : Cache.Memory) : Option Cache.Entry × Cache.Memory :=
  match m.get key r.now with
  | (some e,m) =>
    if e.isEphemeral && !Probe.isStillValid r.site r.files e.fallbackPath then (none,m.remove key)
    else (some e,m)
  | (none,m) => (none,m)

def State.countSpec (s : State) (reused : Bool) : State :=
  { s with cacheUsage := s.cacheUsage.map fun c =>
      if reused then { c with specs := c.specs + 1, specsReused := c.specsReused + 1 }
      else { c with specs := c.specs + 1, specsComputed := c.specsComputed + 1 } }

/-- The outcome from this run's memory, or else from the rules and then put there. -/
def fromMemory (r : Rules) (q : Query) (key : String) (e : Effort) (s : State) :
    Cache.Entry × Effort × State :=
  match remembered r key s.memory with
  | (some entry,memory) => (entry,e,{ s with memory })
  | (none,memory) =>
    let (entry,e,s) := compute r q e { s with memory }
    (entry,e,{ s with memory := s.memory.insert key entry })

/-- Where the outcome of a specifier comes from; the key is that of its place in memory. -/
def outcome (r : Rules) (q : Query) (f : FileState) (e : Effort) (s : State) :
    Cache.Entry × Option String × Effort × State :=
  match persisted? r q f with
  | some entry => (entry,none,e,s.countSpec true)
  | none =>
    let key := Cache.key q.importer.rel q.spec f.configFingerprint
    let (entry,e,s) := fromMemory r q key e (s.countSpec false)
    (entry,some key,e,s)

/-- The edge of an outcome, before its target is known. -/
def edgeOf (q : Query) (e : Cache.Entry) : Edge :=
  { Edge.of (fileNodeId q.importer.rel) q.raw e.resolvedType with
    resolvedPath := e.resolvedPath
    fallbackPath := e.fallbackPath
    packageName := e.packageName
    tsconfigPath := e.tsconfigPath
    tsPathPattern := e.tsPathPattern }

/-- The reason of an unresolved specifier. One that is kept from before stands, except against
noise, which depends on the way the specifier is written. -/
def reasonOf (r : Rules) (q : Query) (noise : Bool) (kept : Option ReasonCode) (e : Effort)
    (s : State) : ReasonCode × Effort × State :=
  match if noise then none else kept with
  | some code => (code,e,s)
  | none =>
    let (plugin,e,s) :=
      if noise || Diagnosis.escapes q.spec q.importer then (none,e,s) else askBuild r q e s
    let d : Diagnosis := ⟨q.spec,q.importer,noise,plugin.map (·.reason),e.purse.isExhausted⟩
    (d.reason,e,s)

/-- The kinds that ran out: those of this search, or else those kept from before. -/
def exhaustedKinds (code : ReasonCode) (e : Effort) (entry : Cache.Entry) : List BudgetKind :=
  if code ≠ .resolverBudgetExhausted then []
  else if e.purse.isExhausted then e.purse.exhausted
  else entry.exhausted

/-- Finds the reason of an unresolved specifier and counts it. -/
def countUnresolved (r : Rules) (q : Query) (noise : Bool) (entry : Cache.Entry)
    (key : Option String) (e : Effort) (s : State) : ReasonCode × Cache.Entry × State :=
  let (code,e,s) := reasonOf r q noise entry.reason e s
  let exhausted := exhaustedKinds code e entry
  let tally :=
    if code = .resolverBudgetExhausted then s.tally.addExhausted exhausted else s.tally
  (code,{ entry with reason := some code, exhausted },
    { s with
      stages := s.stages.attempted .classify true
      tally := tally.addUnresolved code.decision
      memory := match key with
        | some k => s.memory.record k code exhausted
        | none => s.memory })

/-- Files an unresolved specifier. The answer says whether its edge is kept. -/
def recordUnresolved (r : Rules) (q : Query) (entry : Cache.Entry) (key : Option String)
    (e : Effort) (s : State) : Bool × Cache.Entry × State :=
  let noise := r.noise.isNoise q.spec q.raw q.importer
  let (code,entry,s) := countUnresolved r q noise entry key e s
  if noise then (false,entry,{ s with graph := s.graph.suppressWarning })
  else
    let (heard,graph) := s.graph.addWarning q.spec ⟨q.importer.rel,q.raw,code.decision⟩
    (heard != .duplicate,entry,{ s with graph })

/-- Puts an outcome into the graph and the counts. -/
def settle (r : Rules) (q : Query) (entry : Cache.Entry) (key : Option String) (e : Effort)
    (f : FileState) (s : State) : Cache.Entry × FileState × State :=
  match entry.resolvedType.isInRepo, entry.resolvedPath with
  | true, some path =>
    let target := fileNodeId path
    let graph := ((s.graph.addNode target .file).2.addEdge
      { edgeOf q entry with target := some target }).2
    (entry,{ f with links := Text.insertSorted path f.links },
      { s with graph, tally := { s.tally with resolved := s.tally.resolved + 1 } })
  | _, _ =>
    if entry.resolvedType = .external then
      let target := externalNodeId q.spec
      let graph := ((s.graph.addNode target .external).2.addEdge
        { edgeOf q entry with target := some target }).2
      (entry,{ f with externals := Text.insertSorted q.raw f.externals },
        { s with graph, tally := { s.tally with external := s.tally.external + 1 } })
    else
      let entry : Cache.Entry :=
        if entry.resolvedType = .unresolved then entry else { resolvedType := .unresolved }
      let edge := edgeOf q entry
      let (isKept,entry,s) := recordUnresolved r q entry key e s
      let edge := match entry.reason with
        | some code => edge.withDecision code.decision
        | none => edge
      (entry,f,if isKept then { s with graph := (s.graph.addEdge edge).2 } else s)

def resolveSpec (r : Rules) (q : Query) (f : FileState) (s : State) : FileState × State :=
  let (entry,key,e,s) := outcome r q f { purse := Purse.of r.policy } s
  let (entry,f,s) := settle r q entry key e f s
  ({ f with next := f.next.map (·.insert q.spec entry) },s)

end ImportResolution.Run
