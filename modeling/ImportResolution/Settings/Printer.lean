import ImportResolution.Settings.Basic
import ImportResolution.Toml.Printer

/-! Settings as a document. What is unset is not written. -/
namespace ImportResolution.Settings
open Toml (Value)

def texts (xs : List String) : Value := .list (xs.map .text)
def count (n : Nat) : Value := .int n

def optional {α : Type} (key : String) (f : α → Value) : Option α → List (String × Value)
  | some a => [(key,f a)]
  | none => []

def aliasValue (a : AliasSpec) : Value := .table [("prefix",.text a.head),("target",.text a.target)]

def resolverMembers (r : ResolverSettings) : List (String × Value) :=
  [("mode",.text r.mode),("enable_ts_paths",.flag r.enableTsPaths),
   ("enable_package_entries",.flag r.enablePackageEntries),
   ("enable_build_context",.flag r.enableBuildContext),("noise_prefixes",texts r.noiseHeads),
   ("noise_ignore",texts r.noiseIgnore),("aliases",.list (r.aliases.map aliasValue)),
   ("stage_timings",.flag r.stageTimings)]

def budgetMembers (b : BudgetConfig) : List (String × Value) :=
  optional "max_filesystem_probes" count b.maxFilesystemProbes
    ++ optional "max_fallback_candidates" count b.maxFallbackCandidates
    ++ optional "max_fallback_depth" count b.maxFallbackDepth
    ++ optional "adaptive" .flag b.adaptive

def existenceMembers (e : ExistenceSettings) : List (String × Value) :=
  [("enabled",.flag e.enabled),("max_scan_files",count e.maxScanFiles),
   ("concurrency",count e.concurrency),("exact_verification",.flag e.exactVerification),
   ("skip_dirs",texts e.skipDirs)]

def limitMembers (l : Limits) : List (String × Value) :=
  [("max_nodes",count l.maxNodes),("max_edges",count l.maxEdges),
   ("max_warnings",count l.maxWarnings),("max_cache_entries",count l.maxCacheEntries),
   ("negative_ttl_ms",count l.negativeTtl),("ephemeral_external_ttl_ms",count l.ephemeralTtl)]

def members (s : Settings) : List (String × Value) :=
  [("version",count s.version),("cache_path",.text s.cachePath)]
    ++ optional "workspace_root" .text s.workspaceRoot
    ++ [("debug",.flag s.debug),("resolver",.table (resolverMembers s.resolver)),
        ("budgets",.table (budgetMembers s.budgets)),
        ("fs_index",.table (existenceMembers s.existence)),
        ("limits",.table (limitMembers s.limits)),
        ("gate",.table [("excluded_importer_segments",texts s.gateSegments)]),
        ("indexing",.table [("parallel_threads",count s.indexing.parallelThreads),
          ("ignore_patterns",texts s.indexing.ignorePatterns)])]

def text (s : Settings) : String := Toml.print s.members

end ImportResolution.Settings
