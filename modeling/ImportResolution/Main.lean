import ImportResolution.Command
import Std.Time.DateTime.Timestamp

/-! The program. What a call may look at is read into memory, the call is worked out there, and what it
changed is written back. -/
namespace ImportResolution.Program

/-- Puts one place and the directories above it; what is not there or is no file is left out. -/
def addPlace (d : Disk) (place : String) : IO Disk := do
  let names := (Path.segments (Location.collapse place)).filter (· != "")
  let mut d := d
  for n in List.range names.length do
    let path := names.take (n+1)
    if (d.at? path).isNone then
      try
        let real ← IO.FS.realPath ("/" ++ Path.ofSegments path)
        match (← real.metadata).type with
        | .dir => d := d.put path .dir
        | .file => d := d.put path (.file (← IO.FS.readBinFile real))
        | _ => pure ()
      catch _ => pure ()
  return d

/-- Puts all that is below a directory; links are not followed. -/
partial def addTree (d : Disk) (place : String) : IO Disk := do
  let mut d ← addPlace d place
  try
    let real ← IO.FS.realPath place
    for entry in ← real.readDir do
      let below := Location.join place entry.fileName
      match (← entry.path.symlinkMetadata).type with
      | .dir => d ← addTree d below
      | .file => d ← addPlace d below
      | _ => pure ()
  catch _ => pure ()
  return d

/-- Files of the directories above a place that bear on what is below them. -/
def addAbove (d : Disk) (place : String) : IO Disk := do
  let names := [Walk.ownFile,".ignore",".gitignore",".git/info/exclude",
    Settings.dirName ++ "/" ++ Settings.fileName]
  let mut d := d
  for dir in Settings.selfAndAbove (Location.collapse place) do
    d ← addPlace d dir
    for name in names do d ← addPlace d (Location.join dir name)
  return d

/-- The part of the disk that a call looks at. -/
def load (h : Host) (args : List String) : IO Disk := do
  let mut d ← addAbove {} h.workingDir
  match Arguments.read args with
  | .error _ => return d
  | .ok invocation =>
    if let some path := invocation.configPath then
      for dir in Settings.selfAndAbove h.workingDir do
        d ← addPlace d (Location.join dir path)
    match invocation.command with
    | .resolve root o =>
      let place := Command.placeIn h root
      d ← addTree (← addAbove d place) place
      d ← addPlace d (Command.placeIn h o.imports)
      if let some path := o.out then d ← addPlace d (Command.placeIn h path)
      if let some settings := Command.settingsOf d h invocation.configPath then
        d ← addTree d (Command.cacheDir settings place)
    | .fsIndex root => d ← addTree d (Command.placeIn h root)
    | _ => pure ()
    return d

/-- Brings the disk from one state to another. -/
def store (old new : Disk) : IO Unit := do
  for e in new.entries.mergeSort fun a b => a.1.length ≤ b.1.length do
    if old.at? e.1 != some e.2 then
      let place := "/" ++ Path.ofSegments e.1
      match e.2 with
      | .dir => IO.FS.createDirAll place
      | .file content => IO.FS.writeBinFile place content
  for e in old.entries do
    if (new.at? e.1).isNone then IO.FS.removeFile ("/" ++ Path.ofSegments e.1)

def environment : IO (List (String × String)) := do
  try
    let bytes ← IO.FS.readBinFile "/proc/self/environ"
    let text := (String.fromUTF8? bytes).getD ""
    return (Text.splitOn (Char.ofNat 0) text).filterMap (Text.cut? "=")
  catch _ => return []

def threads : IO Nat := do
  try
    let text ← IO.FS.readFile "/proc/cpuinfo"
    return max 1 ((Text.splitOn '\n' text).filter (Text.startsWith "processor")).length
  catch _ => return 1

def host : IO Host :=
  return ⟨(← IO.currentDir).toString,← environment,← threads⟩

end ImportResolution.Program

open ImportResolution in
def main (args : List String) : IO UInt32 := do
  let h ← Program.host
  let d ← Program.load h args
  let now ← Std.Time.Timestamp.now
  let f := Command.call d h now.toMillisecondsSinceUnixEpoch.val args
  Program.store d f.disk
  IO.print f.out
  for notice in f.notices do IO.eprintln ("DEBUG " ++ notice)
  if let some report := f.error then IO.eprintln ("Error: " ++ report)
  return f.exitCode.toUInt32
