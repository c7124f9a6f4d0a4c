import ImportResolution.Gate
import ImportResolution.Run.Resolve
import ImportResolution.Timestamp

/-! A run over all importers of a request. Importers go in the order of their paths and specifiers in
the order of their texts, so that the order in which they were found leaves no trace. -/
namespace ImportResolution.Run

/-- Normalized specifiers that are worth a look, in the order of their texts as written. -/
def specifiersOf (raws : List String) : List String :=
  Text.distinctSorted (raws.filter fun raw => !Text.isAllBlank raw)

/-- Configurations matter to bare names, and to the emitted files of one ecosystem. -/
def needsConfig (importer : Importer) (raws : List String) : Bool :=
  importer.ecosystem == .javaScript ||
    raws.any fun raw =>
      let spec := Specifier.normalize raw
      spec != "" && !Specifier.isPathBased spec

def configOf (r : Rules) (importer : Importer) (raws : List String) (s : State) :
    Option TsConfig.Profile × State :=
  if needsConfig importer raws then
    let (profile,configs) := s.configs.find r.site.view r.site.root importer.rel
    (profile,{ s with configs })
  else (none,s)

/-- Finds what an earlier run knew of an importer. -/
def openFile (importerRel : String) (hash : Option String) (configFingerprint : Option String)
    (cache : Option Cache.Persisted) (usage : CacheUsage) : Option Cache.FileEntry × CacheUsage :=
  let usage := { usage with files := usage.files + 1 }
  match cache, hash with
  | some c, some h =>
    let usage := { usage with filesHashed := usage.filesHashed + 1 }
    match c.fileEntry? importerRel h configFingerprint with
    | some f => (some f,{ usage with filesReused := usage.filesReused + 1 })
    | none =>
      if c.files.contains importerRel then
        (none,{ usage with filesInvalidated := usage.filesInvalidated + 1 })
      else (none,usage)
  | _, _ => (none,usage)

/-- The same where uses are counted, which is where a cache was given. -/
def openCached (importerRel : String) (hash : Option String) (configFingerprint : Option String)
    (cache : Option Cache.Persisted) :
    Option CacheUsage → Option Cache.FileEntry × Option CacheUsage
  | some usage =>
    let (persisted,usage) := openFile importerRel hash configFingerprint cache usage
    (persisted,some usage)
  | none => (none,none)

def State.normalized (s : State) (hit : Bool) : State :=
  { s with stages := s.stages.attempted .normalize hit }

/-- One specifier as it is written; one that is empty in its normal form is a miss. -/
def resolveRaw (r : Rules) (importer : Importer) (profile : Option TsConfig.Profile)
    (acc : FileState × State) (raw : String) : FileState × State :=
  let spec := Specifier.normalize raw
  if spec = "" then (acc.1,acc.2.normalized false)
  else resolveSpec r ⟨importer,raw,spec,profile⟩ acc.1 (acc.2.normalized true)

/-- What is carried from importer to importer. -/
structure Progress where
  cache : Option Cache.Persisted
  relations : Table FileRelations := Table.empty
  state : State

/-- An importer before its first specifier, with the configuration that its specifiers fall under. -/
def enterFile (r : Rules) (hashes : Table String) (p : Progress) (item : String × List String) :
    Option TsConfig.Profile × FileState × State :=
  let s := p.state
  let s := { s with graph := (s.graph.addNode (fileNodeId item.1) .file).2 }
  let (profile,s) := configOf r (Importer.of item.1) (specifiersOf item.2) s
  let fingerprint := profile.map (·.fingerprint)
  let hash := hashes.find? item.1
  let (persisted,usage) := openCached item.1 hash fingerprint p.cache s.cacheUsage
  (profile,
    { persisted
      configFingerprint := fingerprint
      next := if p.cache.isSome && hash.isSome then some Table.empty else none },
    { s with cacheUsage := usage })

/-- The cache with what was gathered for an importer, where that is kept. -/
def keepFile (importerRel : String) (hash : Option String) (f : FileState) (c : Cache.Persisted) :
    Cache.Persisted :=
  match hash, f.next with
  | some h, some specs =>
    { c with files := c.files.insert importerRel ⟨h,f.configFingerprint,specs⟩ }
  | _, _ => c

def resolveFile (r : Rules) (hashes : Table String) (p : Progress)
    (item : String × List String) : Progress :=
  let raws := specifiersOf item.2
  let (profile,f,s) := enterFile r hashes p item
  let (f,s) := raws.foldl (resolveRaw r (Importer.of item.1) profile) (f,s)
  { cache := p.cache.map (keepFile item.1 (hashes.find? item.1) f)
    relations := p.relations.insert item.1 ⟨raws,f.links,f.externals⟩
    state := s }

/-! The cache of an earlier run. -/

def pathConvention : String := "posix"
def flag (b : Bool) : String := if b then "true" else "false"

/-- Digest of all that changes outcomes wholesale. -/
def cacheKey (settings : Settings) (aliases : AliasRules) (build : BuildContext)
    (policy : BudgetPolicy) (package : Option String) (repository fileSet : String) : String :=
  let resolver := settings.resolver
  Digest.ofParts Cache.Persisted.currentVersion
    ["repo:" ++ repository,"package:" ++ package.getD "none","mode:" ++ resolver.mode,
     "paths:" ++ pathConvention,"tsPaths:" ++ flag resolver.enableTsPaths,
     "packageEntries:" ++ flag resolver.enablePackageEntries,
     "buildContext:" ++ build.fingerprint,"aliases:" ++ aliases.fingerprint.getD "none",
     "budgets:" ++ policy.fingerprint,"expectedArtifacts:" ++ build.expected.fingerprint,
     "fileSet:" ++ fileSet]

/-- Drops what no longer holds. A changed manifest, file set or key drops all outcomes, another
version the whole cache. -/
def invalidateStale (c : Cache.Persisted) (usage : CacheUsage) (package : Option String)
    (fileSet key : String) : Cache.Persisted × CacheUsage :=
  if !c.isCompatible then (.new,usage)
  else
    let usage :=
      { usage with
        packageInvalidated := c.packageFingerprint.isSome && c.packageFingerprint != package
        fileSetInvalidated := c.fileSetFingerprint.any (· != fileSet)
        cacheKeyInvalidated := c.cacheKey.any (· != key) }
    if usage.packageInvalidated || usage.fileSetInvalidated || usage.cacheKeyInvalidated then
      ({ c with files := Table.empty, lookup := none },usage)
    else (c,usage)

/-- The stored index, if it was made of the same files under the same root. -/
def storedFiles? (root fileSet : String) (cache : Option Cache.Persisted) : Option FileSet :=
  ((cache.bind (·.lookup)).filter fun s => s.fileSetFingerprint == fileSet).bind
    (Snapshot.restore? root (FileSet.compatibility (FileSet.rootHash root) fileSet))

/-! The whole run. -/

/-- What a run has to say about itself. -/
structure Stats where
  files : Nat
  nodes : Nat
  counters : GraphCounters
  tally : Tally
  gate : GateTotals
  limits : Limits
  index : Option Existence.Summary
  usage : IndexUsage
  policy : BudgetPolicy
  stages : StageTracker

structure Outcome where
  generatedAt : String
  stats : Stats
  parts : GraphParts
  relations : Table FileRelations
  /-- Present where an earlier cache was given. -/
  cacheUsage : Option CacheUsage
  /-- The cache for the next run. -/
  cache : Option Cache.Persisted
  /-- Whether stages are timed. -/
  isTimed : Bool
  /-- What is said in the course of the run, for those who look for faults. -/
  notices : List String

/-- Importers by normalized path; keys that normalize to one path are each taken. -/
def importersOf (imports : Table (List String)) : List (String × List String) :=
  sortByKey Prod.fst
    ((imports.entries.map fun e => (Path.normalize e.1,e.2)).filter fun e => e.1 != "")

def Request.fileSet (q : Request) : FileSet := FileSet.ofEntries q.root q.entries

/-- The rules of a run over the given files. -/
def Request.rules (q : Request) (files : FileSet) (facts : Manifest.Facts) : Rules where
  settings := q.settings
  now := q.now
  files := FileIndex.of files
  site := ⟨q.root,q.view,if q.settings.existence.enabled then q.index else none⟩
  aliases := AliasRules.of q.settings.resolver.aliases
  build := BuildContext.of files.paths q.settings.resolver.enableBuildContext
  noise := NoiseFilter.of q.settings.resolver
  policy := BudgetPolicy.of q.settings.budgets q.signals
  names := ⟨facts.goModule,facts.dartPackage⟩

/-- The cache and its usage as a run starts out. -/
def Request.openCache (q : Request) (r : Rules) (facts : Manifest.Facts) (fileSet : String)
    (isStored : Bool) : Option (Cache.Persisted × CacheUsage) :=
  q.cache.map fun c =>
    let usage : CacheUsage :=
      { prefetchedPaths := q.view.memo.prefetched
        lookupReused := isStored
        lookupInvalidated := c.lookup.isSome && !isStored }
    let key := cacheKey q.settings r.aliases r.build r.policy facts.packageFingerprint
      (FileSet.rootHash q.root) fileSet
    let (c,usage) := invalidateStale c usage facts.packageFingerprint fileSet key
    ({ c with
        packageFingerprint := facts.packageFingerprint
        fileSetFingerprint := some fileSet
        cacheKey := some key
        lookup := some (Snapshot.of q.root fileSet r.files.files) },usage)

def Request.start (q : Request) (opened : Option (Cache.Persisted × CacheUsage)) : Progress where
  cache := opened.map Prod.fst
  state :=
    { memory := .ofCapacity q.settings.limits.maxCacheEntries
      graph := .of q.settings.limits
      cacheUsage := opened.map Prod.snd }

def finish (q : Request) (r : Rules) (p : Progress) : Outcome :=
  let s := p.state
  let parts := s.graph.finish
  let gate := Gate.of q.settings.gateSegments
  { generatedAt := Timestamp.text q.now
    stats :=
      { files := q.imports.size
        nodes := parts.nodes.length
        counters := parts.counters
        tally := s.tally
        gate := gate.totals (parts.warnings.map fun w => (w.importer,w.decision.disposition))
        limits := q.settings.limits
        index := r.site.index.map (·.summary)
        usage := s.usage
        policy := r.policy
        stages := s.stages }
    parts
    relations := p.relations
    cacheUsage := s.cacheUsage
    cache := p.cache
    isTimed := q.settings.resolver.stageTimings
    notices := s.packages.malformed.reverse.map PackageEntry.notice }

/-- Resolves every specifier of every importer. -/
def execute (q : Request) : Outcome :=
  let fileSet := q.fileSet
  let fingerprint := fileSet.fingerprint
  let stored := storedFiles? q.root fingerprint q.cache
  let facts := Manifest.facts q.view q.root
  let r := q.rules (stored.getD fileSet) facts
  let start := q.start (q.openCache r facts fingerprint stored.isSome)
  finish q r ((importersOf q.imports).foldl (resolveFile r q.hashes) start)

end ImportResolution.Run
