import ImportResolution.Alias
import ImportResolution.Budget

/-! What a run can be told from outside, with the value of everything that is left unsaid. -/
namespace ImportResolution

structure ResolverSettings where
  mode : String := "full"
  enableTsPaths : Bool := true
  enablePackageEntries : Bool := true
  enableBuildContext : Bool := true
  /-- Unresolved specifiers that start with one of these are noise. -/
  noiseHeads : List String := ["node:","@types/","internal/"]
  /-- Specifiers that are noise as they stand. -/
  noiseIgnore : List String := []
  aliases : List AliasSpec := []
  stageTimings : Bool := true
  deriving DecidableEq, Repr

structure ExistenceSettings where
  enabled : Bool := true
  maxScanFiles : Nat := 200000
  concurrency : Nat := 8
  exactVerification : Bool := true
  skipDirs : List String :=
    [".git",".hg",".svn","node_modules","dist","build","out","target",".next",".turbo",
     ".importgraph","__pycache__"]
  deriving DecidableEq, Repr

structure Limits where
  maxNodes : Nat := 200000
  maxEdges : Nat := 500000
  maxWarnings : Nat := 200
  maxCacheEntries : Nat := 50000
  /-- Milliseconds for which an unresolved result is kept. -/
  negativeTtl : Nat := 60000
  /-- Milliseconds for which a file found on disk outside the index is kept. -/
  ephemeralTtl : Nat := 30000
  deriving DecidableEq, Repr

structure IndexingSettings where
  parallelThreads : Nat := 1
  ignorePatterns : List String := []
  deriving DecidableEq, Repr

structure Settings where
  version : Nat := 1
  cachePath : String := ".importgraph/cache"
  workspaceRoot : Option String := none
  debug : Bool := false
  resolver : ResolverSettings := {}
  budgets : BudgetConfig := {}
  existence : ExistenceSettings := {}
  limits : Limits := {}
  gateSegments : List String :=
    ["/test/","/tests/","/__tests__/","/fixtures/","/__fixtures__/","/spec/","/specs/",
     "/testdata/","/__mocks__/"]
  indexing : IndexingSettings := {}
  deriving DecidableEq, Repr

end ImportResolution
