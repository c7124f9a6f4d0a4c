import ImportResolution.Settings.Basic
import ImportResolution.Toml.Value

/-! Reading settings out of layered values. A record is a table, or a list in the order in which its
fields are declared; unknown members are passed over and unsaid fields keep their value. The first
fault in the order of the keys is the one reported. -/
namespace ImportResolution
open Toml (Value)

inductive FaultKind
  /-- The text is not in the grammar, or no text at all. -/
  | unreadable
  | invalidType
  | invalidValue
  | invalidLength
  | missingField
  deriving DecidableEq, Repr

/-- What is wrong with settings, and the path of keys to the value at fault. -/
structure SettingsFault where
  kind : FaultKind
  path : List String := []
  deriving DecidableEq, Repr

namespace SettingsFault

def inside (key : String) (f : SettingsFault) : SettingsFault := { f with path := key :: f.path }
def key (f : SettingsFault) : String := ".".intercalate f.path

end SettingsFault

namespace Settings

/-- Reading, with the cause of failure. -/
abbrev Read := Except SettingsFault

def fault {α : Type} (kind : FaultKind) : Read α := .error ⟨kind,[]⟩
def under {α : Type} (key : String) (r : Read α) : Read α := r.mapError (·.inside key)

def readFlag : Value → Read Bool
  | .flag b => .ok b
  | _ => fault .invalidType

def readText : Value → Read String
  | .text s => .ok s
  | _ => fault .invalidType

/-- A number from zero to below `bound`. -/
def readCount (bound : Nat) : Value → Read Nat
  | .int n => if 0 ≤ n && n < bound then .ok n.toNat else fault .invalidValue
  | _ => fault .invalidType

def readWord (v : Value) : Read Nat := readCount (Nat.pow 2 64) v

def readEach {α : Type} (read : Value → Read α) (i : Nat) : List Value → Read (List α)
  | [] => .ok []
  | v :: r => do
    let x ← under (toString i) (read v)
    let xs ← readEach read (i+1) r
    return x :: xs

def readList {α : Type} (read : Value → Read α) : Value → Read (List α)
  | .list xs => readEach read 0 xs
  | _ => fault .invalidType

/-- A field of a record and how it takes its value. -/
structure Field (σ : Type) where
  name : String
  set : Value → σ → Read σ

def field {σ α : Type} (name : String) (read : Value → Read α) (put : σ → α → σ) : Field σ :=
  ⟨name,fun v s => (read v).map (put s)⟩

def readMembers {σ : Type} (ms : List (String × Value)) : List (Field σ) → σ → Read σ
  | [], s => .ok s
  | f :: r, s =>
    match ms.lookup f.name with
    | none => readMembers ms r s
    | some v => (under f.name (f.set v s)).bind (readMembers ms r)

def readPlaces {σ : Type} (i : Nat) : List (Field σ) → List Value → σ → Read σ
  | f :: fs, v :: vs, s => (under (toString i) (f.set v s)).bind (readPlaces (i+1) fs vs)
  | _, _, s => .ok s

def readRecord {σ : Type} (fields : List (Field σ)) (start : σ) : Value → Read σ
  | .table ms => readMembers ms (fields.mergeSort fun f g => f.name ≤ g.name) start
  | .list xs => readPlaces 0 fields xs start
  | _ => fault .invalidType

def aliasFields : List (Field (Option String × Option String)) :=
  [field "prefix" readText fun s x => (some x,s.2),
   field "target" readText fun s x => (s.1,some x)]

/-- Both sides of an alias must be said. -/
def readAlias (v : Value) : Read AliasSpec := do
  match ← readRecord aliasFields (none,none) v with
  | (some head,some target) => return ⟨head,target⟩
  | _ =>
    match v with
    | .list _ => fault .invalidLength
    | _ => fault .missingField

def resolverFields : List (Field ResolverSettings) :=
  [field "mode" readText fun s x => { s with mode := x },
   field "enable_ts_paths" readFlag fun s x => { s with enableTsPaths := x },
   field "enable_package_entries" readFlag fun s x => { s with enablePackageEntries := x },
   field "enable_build_context" readFlag fun s x => { s with enableBuildContext := x },
   field "noise_prefixes" (readList readText) fun s x => { s with noiseHeads := x },
   field "noise_ignore" (readList readText) fun s x => { s with noiseIgnore := x },
   field "aliases" (readList readAlias) fun s x => { s with aliases := x },
   field "stage_timings" readFlag fun s x => { s with stageTimings := x }]

def budgetFields : List (Field BudgetConfig) :=
  [field "max_filesystem_probes" readWord fun s x => { s with maxFilesystemProbes := some x },
   field "max_fallback_candidates" readWord fun s x => { s with maxFallbackCandidates := some x },
   field "max_fallback_depth" readWord fun s x => { s with maxFallbackDepth := some x },
   field "adaptive" readFlag fun s x => { s with adaptive := some x }]

def existenceFields : List (Field ExistenceSettings) :=
  [field "enabled" readFlag fun s x => { s with enabled := x },
   field "max_scan_files" readWord fun s x => { s with maxScanFiles := x },
   field "concurrency" readWord fun s x => { s with concurrency := x },
   field "exact_verification" readFlag fun s x => { s with exactVerification := x },
   field "skip_dirs" (readList readText) fun s x => { s with skipDirs := x }]

def limitFields : List (Field Limits) :=
  [field "max_nodes" readWord fun s x => { s with maxNodes := x },
   field "max_edges" readWord fun s x => { s with maxEdges := x },
   field "max_warnings" readWord fun s x => { s with maxWarnings := x },
   field "max_cache_entries" readWord fun s x => { s with maxCacheEntries := x },
   field "negative_ttl_ms" readWord fun s x => { s with negativeTtl := x },
   field "ephemeral_external_ttl_ms" readWord fun s x => { s with ephemeralTtl := x }]

def gateFields : List (Field (List String)) :=
  [field "excluded_importer_segments" (readList readText) fun _ x => x]

def indexingFields : List (Field IndexingSettings) :=
  [field "parallel_threads" readWord fun s x => { s with parallelThreads := x },
   field "ignore_patterns" (readList readText) fun s x => { s with ignorePatterns := x }]

/-- The fields of the whole, whose records start from those of `start`. -/
def fields (start : Settings) : List (Field Settings) :=
  [field "version" (readCount (Nat.pow 2 32)) fun s x => { s with version := x },
   field "cache_path" readText fun s x => { s with cachePath := x },
   field "workspace_root" readText fun s x => { s with workspaceRoot := some x },
   field "debug" readFlag fun s x => { s with debug := x },
   field "resolver" (readRecord resolverFields start.resolver) fun s x => { s with resolver := x },
   field "budgets" (readRecord budgetFields start.budgets) fun s x => { s with budgets := x },
   field "fs_index" (readRecord existenceFields start.existence) fun s x => { s with existence := x },
   field "limits" (readRecord limitFields start.limits) fun s x => { s with limits := x },
   field "gate" (readRecord gateFields start.gateSegments) fun s x => { s with gateSegments := x },
   field "indexing" (readRecord indexingFields start.indexing) fun s x => { s with indexing := x }]

/-- What settings start from when they are read: budgets adapt unless they say otherwise. -/
def readable (threads : Nat) : Settings :=
  { budgets := { adaptive := some true }, indexing := { parallelThreads := threads } }

def ofMembers (threads : Nat) (ms : List (String × Value)) : Read Settings :=
  readRecord (fields (readable threads)) (readable threads) (.table ms)

end Settings
end ImportResolution
