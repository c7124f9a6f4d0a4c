import ImportResolution.Run.State

/-! The resolution of one specifier from nothing. A path goes to the rules of the language, the file
index, package entries and the disk; a bare name to path mappings, aliases, the rules of the language
and at last outside. -/
namespace ImportResolution.Run

/-- Asks the build context, once for each specifier. -/
def askBuild (r : Rules) (q : Query) (e : Effort) (s : State) :
    Option Classification × Effort × State :=
  match e.verdict with
  | some v => (v,e,s)
  | none =>
    if r.build.isEnabled then
      let v := r.build.classify? r.files ⟨q.importer,q.spec,q.raw,q.profile⟩
      (v,{ e with verdict := some v },
        { s with stages := s.stages.attempted .buildSystemResolver v.isSome })
    else (none,{ e with verdict := some none },s)

/-- What the specifier would be generated as. -/
def generatedMatch (r : Rules) (q : Query) (e : Effort) (s : State) :
    Option Artifact.Match × Effort × State :=
  let (v,e,s) := askBuild r q e s
  let expected :=
    if r.build.isEnabled then r.build.expected.match? q.importer.rel q.spec else none
  ((v.bind (·.artifact)).or expected,e,s)

/-- The entry of a directory, where package entries are wanted. -/
def packageEntry (r : Rules) (dir : String) (s : State) : Option String × State :=
  if Path.hasExtension dir || !r.settings.resolver.enablePackageEntries then (none,s)
  else
    let (found,packages) := s.packages.find r.files r.site.view r.site.root dir
    (found,{ s with packages })

/-- Outside the index: an absolute external, a file on the disk, or nothing. -/
def probe (r : Rules) (q : Query) (e : Effort) (s : State) : Cache.Entry × Effort × State :=
  if External.isAbsoluteExternal r.files q.spec q.importer then
    ({ resolvedType := .external },e,
      { s with stages := s.stages.attempted .filesystemProbe false })
  else
    let (found,p) := Probe.find r.site q.spec q.importer { purse := e.purse, usage := s.usage }
    let entry : Cache.Entry :=
      match found with
      | some path =>
        { resolvedType := .external, fallbackPath := some path, isEphemeral := true }
      | none => { resolvedType := .unresolved }
    (entry,{ e with purse := p.purse },
      { s with usage := p.usage, stages := s.stages.attempted .filesystemProbe found.isSome })

/-- The file that a path means by the rules of the language, the index or the package entries. -/
def locate (r : Rules) (q : Query) (s : State) : Option String × State :=
  let base := Relative.base q.spec q.importer
  let byLanguage := Relative.resolve? r.files q.spec base q.importer
  let s := { s with stages := s.stages.attempted .languageResolver byLanguage.isSome }
  match byLanguage.or (r.files.candidate? base) with
  | some path => (some path,s)
  | none => packageEntry r base s

/-- A path without a file in the index: awaited from a generator, or else looked for on the disk. -/
def seek (r : Rules) (q : Query) (e : Effort) (s : State) : Cache.Entry × Effort × State :=
  let (generated,e,s) := generatedMatch r q e s
  if generated.any (·.isIndexed) then ({ resolvedType := .unresolved },e,s)
  else
    let (entry,e,s) := probe r q e s
    if e.purse.isExhausted then
      (entry,e,{ s with stages := s.stages.markExhausted .filesystemProbe })
    else (entry,e,s)

def computePath (r : Rules) (q : Query) (e : Effort) (s : State) :
    Cache.Entry × Effort × State :=
  match locate r q s with
  | (some path,s) => (.found .relative path,e,s)
  | (none,s) => seek r q e s

/-- The file or package that a target of an alias names. -/
def aliased (r : Rules) (target : String) (s : State) : Option String × State :=
  match r.files.candidate? target with
  | some path => (some path,s)
  | none => packageEntry r target s

/-- The first of the targets that is a file or a package. -/
def firstAliased (r : Rules) : List String → State → Option String × State
  | [], s => (none,s)
  | target :: rest, s =>
    let found := aliased r target s
    if found.1.isSome then found else firstAliased r rest found.2

def mappedPath? (r : Rules) (q : Query) : Option TsConfig.PathHit :=
  if r.settings.resolver.enableTsPaths then q.profile.bind fun p => p.resolve? r.files q.spec
  else none

def computeBare (r : Rules) (q : Query) (s : State) : Cache.Entry × State :=
  match mappedPath? r q with
  | some hit =>
    ({ Cache.Entry.found .tsPath hit.path with
        tsPathPattern := hit.pattern, tsconfigPath := some hit.tsconfigRel },s)
  | none =>
    match firstAliased r (r.aliases.candidates q.spec) s with
    | (some path,s) => (.found .pluginAlias path,s)
    | (none,s) =>
      let hit := Bare.resolve? r.files q.spec q.importer r.names
      let s := { s with stages := s.stages.attempted .languageResolver hit.isSome }
      match hit with
      | some h => (.found h.type h.path,s)
      | none =>
        ({ resolvedType := .external, packageName := Specifier.packageName? q.spec },s)

/-- The moment `ttl` milliseconds from now, in 64 bits with a sign. -/
def expiry (now : Int) (ttl : Nat) : Int := Int.bmod (now + ttl) (Nat.pow 2 64)

def expiresAt (r : Rules) (e : Cache.Entry) : Option Int :=
  if e.resolvedType = .unresolved then some (expiry r.now r.settings.limits.negativeTtl)
  else if e.isEphemeral then some (expiry r.now r.settings.limits.ephemeralTtl)
  else none

def compute (r : Rules) (q : Query) (e : Effort) (s : State) : Cache.Entry × Effort × State :=
  let (entry,e,s) :=
    if Specifier.isPathBased q.spec then computePath r q e s
    else
      let (entry,s) := computeBare r q s
      (entry,e,s)
  ({ entry with expiresAt := expiresAt r entry },e,s)

end ImportResolution.Run
