import ImportResolution.Cache.Store
import ImportResolution.Command.Arguments
import ImportResolution.Hashes
import ImportResolution.Report
import ImportResolution.Settings.Store
import ImportResolution.Walk

/-! Commands, from arguments to output and changed disk. -/
namespace ImportResolution

/-- How a command ends. -/
structure Finish where
  exitCode : Nat := 0
  /-- The text of the standard output. -/
  out : String := ""
  /-- What is said on the error output on the way; each text follows a time and a level. -/
  notices : List String := []
  /-- What is reported of a failure. -/
  error : Option String := none
  disk : Disk

/-- The first line of the error output that reads as a report of a failure. -/
def Finish.errorLine (f : Finish) : Option String :=
  let behindFirst := f.notices.flatMap fun text => (Text.splitOn '\n' text).drop 1
  (behindFirst.find? (Text.startsWith "Error: ")).or
    (f.error.map fun report => "Error: " ++ Text.before "\n" report)

namespace Command

def versionText : String := "importgraph 0.3.0\n"

def usageText : String :=
  "Usage: importgraph [--config FILE] [--debug] [--quiet] COMMAND\n\n"
    ++ "Commands:\n  init      Set up the settings file\n  config    Display active settings\n"
    ++ "  resolve   Resolve import specifiers and build the import graph\n"
    ++ "  fs-index  Build the existence index and print its summary\n"

/-- A command as it goes: what fails carries its report. -/
abbrev Attempt := Except String

def orReport {α : Type} (r : Except Failure α) : Attempt α := r.mapError Failure.message
def orSay {ε α : Type} (report : String) (r : Except ε α) : Attempt α := r.mapError fun _ => report

def placeIn (h : Host) (path : String) : String := Location.join h.workingDir path

/-- The place of a path without detours, if something is there. -/
def canonical (d : Disk) (place : String) : Except DiskError String :=
  match d.locate place with
  | .ok (.taken path _) => .ok ("/" ++ Path.ofSegments path)
  | .ok (.free _) => .error .notFound
  | .error e => .error e

def cacheDir (settings : Settings) (root : String) : String := Location.join root settings.cachePath

def padRight (width : Nat) (s : String) : String :=
  s ++ String.ofList (List.replicate (width - s.length) ' ')

def counted (label : String) (n : Nat) : String := padRight 14 label ++ toString n

def summaryLines (r : Run.Outcome) : List String :=
  let t := r.stats.tally
  [counted "Files:" r.stats.files,counted "Edges:" r.stats.counters.edgeTotal,
   counted "Resolved:" t.resolved,counted "External:" t.external,
   counted "Unresolved:" t.unresolved ++ " (" ++ toString t.actionable ++ " actionable)"]
  ++ t.byReason.entries.map (fun e => "  " ++ padRight 40 e.1 ++ " " ++ toString e.2)
  ++ (match r.cacheUsage with
    | some u =>
      [counted "Cache:" u.specsReused ++ "/" ++ toString u.specs ++ " specifiers reused"]
    | none => [])

def linesText (lines : List String) : String := String.join (lines.map (· ++ "\n"))

/-- What a run over the visible files of a repository is asked, on the disk that it starts from. -/
def prepare (d : Disk) (h : Host) (now : Int) (settings : Settings) (root : String)
    (o : ResolveOptions) : Attempt (Run.Request × Disk) := do
  let top ← orSay ("Repository root " ++ root ++ " not found") (canonical d (placeIn h root))
  let content ← orSay ("Failed to read " ++ o.imports) (d.readText (placeIn h o.imports))
  let imports ← orReport (Imports.parse content)
  let files ← orReport (Walk.files d h.workingDir settings top)
  let importers := imports.keys.map Path.normalize
  let seen := DiskView.prefetch d (Manifest.candidates top importers)
  let useIndex := o.useIndex && settings.existence.enabled
  let dir := cacheDir settings top
  let hashes := Hashes.ofImporters d top importers
  let index := if useIndex then some (Existence.Index.build d top settings.existence) else none
  let d ← if o.rebuild then orReport (Cache.Store.clear d dir) else .ok d
  let request : Run.Request :=
    { root := top
      entries := files.map fun rel => ⟨Location.join top rel,some rel⟩
      imports
      settings
      hashes
      cache := if o.useCache then some ((Cache.Store.loadOrDiscard d dir).getD .new) else none
      index
      view := { seen with disk := d }
      now }
  return (request,d)

/-- Keeps the cache and shows the graph. A cache that cannot be saved is no failure. -/
def conclude (d : Disk) (h : Host) (debug : Bool) (dir : String) (out : Option String)
    (r : Run.Outcome) : Finish :=
  let notices := if debug then r.notices else []
  let d := match r.cache with
    | some c => (Cache.Store.save d dir c).2
    | none => d
  match out with
  | none => { out := linesText (summaryLines r),notices,disk := d }
  | some path =>
    match d.write (placeIn h path) (r.graphJson.pretty 0).toUTF8 with
    | .ok d => { notices,disk := d }
    | .error _ => { exitCode := 1,notices,error := some ("Failed to write " ++ path),disk := d }

def run (d : Disk) (h : Host) (now : Int) (settings : Settings) (debug : Bool) : Command → Finish
  | init force =>
    match Settings.init d h.threads h.workingDir force with
    | .ok (place,d) =>
      { out := linesText ["Created configuration file at: " ++ place,
          "Edit this file to customize your settings."]
        disk := d }
    | .error f => { exitCode := 1,error := some f.message,disk := d }
  | config =>
    { out := linesText
        ["Current Configuration:",String.ofList (List.replicate 50 '='),settings.text]
      disk := d }
  | resolve root o =>
    match prepare d h now settings root o with
    | .ok (request,d) =>
      conclude d h debug (cacheDir settings request.root) o.out (Run.execute request)
    | .error report => { exitCode := 1,error := some report,disk := d }
  | fsIndex root =>
    let index := Existence.Index.build d (placeIn h root) settings.existence
    { out := linesText [index.summary.toJson.pretty 0],disk := d }

/-- Settings of a call: a file that is named must be sound, one that is found need not be. -/
def settingsOf (d : Disk) (h : Host) (configPath : Option String) : Option Settings :=
  match configPath with
  | some path => (Settings.loadFrom d h path).toOption
  | none => some ((Settings.load d h).toOption.getD { indexing := { parallelThreads := h.threads } })

/-- A whole call; `now` counts milliseconds since 1970. -/
def call (d : Disk) (h : Host) (now : Int) (args : List String) : Finish :=
  match Arguments.read args with
  | .error .version => { out := versionText,disk := d }
  | .error .help => { out := usageText,disk := d }
  | .error .usage => { exitCode := 2,disk := d }
  | .ok invocation =>
    match settingsOf d h invocation.configPath with
    | none => { exitCode := 1,disk := d }
    | some settings =>
      invocation.command.run d h now settings (invocation.debug || settings.debug)

end Command
end ImportResolution
