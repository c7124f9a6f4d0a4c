import ImportResolution.Disk
import ImportResolution.Failure
import ImportResolution.Settings.Environment
import ImportResolution.Settings.Printer
import ImportResolution.Settings.Reader

/-! Settings on the disk. They are found in the nearest directory at or above the working one that
holds the directory of this program, and the environment lies above what the file says. -/
namespace ImportResolution

/-- Where a program runs, and what it is told without arguments. -/
structure Host where
  workingDir : String
  environment : List (String × String) := []
  /-- Threads that the machine can run at once. -/
  threads : Nat := 1

namespace Settings

def dirName : String := ".importgraph"
def fileName : String := "settings.toml"

/-- A directory and all above it, up to the top. -/
def selfAndAbove (place : String) : List String := go ((Path.segments place).length + 1) place
where
  go : Nat → String → List String
    | 0, _ => []
    | n+1, place =>
      place :: match Location.parent? place with
        | some above => go n above
        | none => []

/-- The file that a path names: a relative one is looked for in the working directory and above. -/
def find? (d : Disk) (h : Host) (path : String) : Option String :=
  if Location.isAbsolute path then if d.isFile path then some path else none
  else ((selfAndAbove h.workingDir).map (Location.join · path)).find? d.isFile

/-- The members that a settings file lays above the defaults; without a file there are none. -/
def fileLayer (d : Disk) (h : Host) (path : String) : Read (List (String × Toml.Value)) :=
  match find? d h path with
  | none => .ok []
  | some place =>
    match d.readText place with
    | .error _ => fault .unreadable
    | .ok text =>
      match Toml.parse? text with
      | some ms => .ok ms
      | none => fault .unreadable

def loadFrom (d : Disk) (h : Host) (path : String) : Read Settings := do
  let below ← fileLayer d h path
  ofMembers h.threads (Toml.Value.mergeMembers (Environment.layer h.environment) below)

def workspaceRoot? (d : Disk) (h : Host) : Option String :=
  (selfAndAbove h.workingDir).find? fun place => d.isDir (Location.join place dirName)

def load (d : Disk) (h : Host) : Read Settings := do
  let root := workspaceRoot? d h
  let inRoot := Location.join dirName fileName
  let path := (root.map (Location.join · inRoot)).getD inRoot
  let s ← loadFrom d h path
  return { s with workspaceRoot := s.workspaceRoot.or root }

/-- Writes a text after making the directories above it. -/
def writeText (d : Disk) (place text : String) : Except Failure Disk := do
  let above := Location.parent? place
  let d ← match above with
    | some dir => (d.makeDirs dir).mapError fun e => Failure.cacheAccess dir e.message
    | none => .ok d
  (d.write place text.toUTF8).mapError fun e => .cacheAccess place e.message

def save (s : Settings) (d : Disk) (place : String) : Except Failure Disk := writeText d place s.text

/-- The settings file that a new workspace gets. -/
def template (threads : Nat) : String := "\n".intercalate
  ["# importgraph configuration",
   "",
   "version = 1",
   "",
   "# Persisted resolution cache directory (relative to workspace root)",
   "cache_path = \".importgraph/cache\"",
   "",
   "debug = false",
   "",
   "[resolver]",
   "mode = \"full\"",
   "enable_ts_paths = true",
   "enable_package_entries = true",
   "enable_build_context = true",
   "noise_prefixes = [\"node:\", \"@types/\", \"internal/\"]",
   "stage_timings = true",
   "",
   "# Alias rules tried after tsconfig paths",
   "# [[resolver.aliases]]",
   "# prefix = \"@app/\"",
   "# target = \"src/app\"",
   "",
   "[budgets]",
   "# Leave unset to let the adaptive profile scale the defaults (32 / 48 / 16)",
   "# max_filesystem_probes = 32",
   "# max_fallback_candidates = 48",
   "# max_fallback_depth = 16",
   "adaptive = true",
   "",
   "[fs_index]",
   "enabled = true",
   "max_scan_files = 200000",
   "concurrency = 8",
   "exact_verification = true",
   "",
   "[limits]",
   "max_nodes = 200000",
   "max_edges = 500000",
   "max_warnings = 200",
   "",
   "[indexing]",
   "# parallel_threads = " ++ toString threads,
   "ignore_patterns = []",
   ""]

/-- Puts the template into a directory; a file that is there stays unless `force` is given. -/
def init (d : Disk) (threads : Nat) (dir : String) (force : Bool) : Except Failure (String × Disk) := do
  let place := Location.join (Location.join dir dirName) fileName
  if !force && d.exists? place then
    throw (.settings "Configuration file already exists. Use --force to overwrite")
  let d ← writeText d place (template threads)
  return (place,d)

end Settings
end ImportResolution
