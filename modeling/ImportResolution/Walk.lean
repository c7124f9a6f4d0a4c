import ImportResolution.Disk
import ImportResolution.Failure
import ImportResolution.IgnoreRules
import ImportResolution.Settings.Basic

/-! The files of a repository that a run looks at. Configured patterns decide first, then the ignore
files of the directories at and above a path, then names that start with a dot are left out. -/
namespace ImportResolution

/-- The rules of one directory, by the kind of file that holds them. -/
structure IgnoreLayer where
  dir : List String
  own : IgnoreRules
  general : IgnoreRules
  git : IgnoreRules
  exclude : IgnoreRules

namespace Walk

def ownFile : String := ".importgraphignore"

def rulesAt (d : Disk) (path : List String) : IgnoreRules :=
  match d.at? path with
  | some (.file content) => .ofContent content
  | _ => []

def exclusions : String := "info/exclude"

/-- Text behind this mark in a file `.git` names the directory that the file stands for. -/
def gitMark : String := "gitdir: "

def firstLineOf? (d : Disk) (place : String) : Option String :=
  (d.read place).toOption.bind IgnoreRules.firstLine?

/-- The directory that a file `.git` leads to. The one that it names says in its own file where the
common one is; a path that starts with a dot goes on from there, any other from the working place. -/
def linkedGitDir? (d : Disk) (workingDir place : String) : Option String := do
  let named ← Text.afterHead? gitMark (← firstLineOf? d place)
  let line ← firstLineOf? d (Location.join (Location.join workingDir named) "commondir")
  let base := if Text.startsWith "." line then Location.join workingDir named else workingDir
  return Location.join base line

/-- The rules of a repository that are not shared, in its directory or where its file leads. -/
def exclusionsAt (d : Disk) (workingDir : String) (dir : List String) : IgnoreRules :=
  match d.at? (dir ++ [".git"]) with
  | some (.file _) =>
    let place := "/" ++ Path.ofSegments (dir ++ [".git"])
    match linkedGitDir? d workingDir place with
    | some git =>
      match d.read (Location.join git exclusions) with
      | .ok content => .ofContent content
      | .error _ => []
    | none => []
  | _ => rulesAt d (dir ++ [".git","info","exclude"])

def layerAt (d : Disk) (workingDir : String) (dir : List String) : IgnoreLayer where
  dir
  own := rulesAt d (dir ++ [ownFile])
  general := rulesAt d (dir ++ [".ignore"])
  git := rulesAt d (dir ++ [".gitignore"])
  exclude := exclusionsAt d workingDir dir

/-- A path and all above it, the longest first. -/
def selfAndAbove (path : List String) : List (List String) :=
  ((List.range (path.length + 1)).map path.take).reverse

/-- What the layers say of a path, the nearest first. The kinds come in the order of `IgnoreLayer`. -/
def layersVerdict? (layers : List IgnoreLayer) (path : List String) (isDir : Bool) : Option Verdict :=
  let say (rules : IgnoreLayer → IgnoreRules) : Option Verdict := layers.findSome? fun l =>
    (rules l).verdict? (Path.ofSegments (path.drop l.dir.length)) isDir
  (say (·.own)).or ((say (·.general)).or ((say (·.git)).or (say (·.exclude))))

/-- What a walk knows before it starts. Paths are lists of names from the top of the disk. -/
structure Plan where
  root : List String
  /-- Configured patterns; what one matches is left out. -/
  patterns : IgnoreRules
  skipDirs : List String
  layers : List IgnoreLayer

namespace Plan

def layersFor (p : Plan) (path : List String) : List IgnoreLayer :=
  (selfAndAbove path.dropLast).filterMap fun dir => p.layers.find? fun l => l.dir == dir

def isSkipped (p : Plan) (path : List String) (isDir : Bool) : Bool :=
  let name := path.getLast?.getD ""
  let configured := p.patterns.verdict? (Path.ofSegments (path.drop p.root.length)) isDir
  match (configured.map Verdict.opposite).or (layersVerdict? (p.layersFor path) path isDir) with
  | some .leftOut => true
  | some .kept => isDir && p.skipDirs.contains name
  | none => Text.startsWith "." name || (isDir && p.skipDirs.contains name)

/-- A file is visible when neither it nor a directory between it and the root is skipped. -/
def isVisible (p : Plan) (path : List String) : Bool :=
  !p.isSkipped path false &&
    ((selfAndAbove path.dropLast).filter (p.root.length < ·.length)).all fun dir =>
      !p.isSkipped dir true

end Plan

/-- The configured patterns, each turned into an exception. -/
def configured (patterns : List String) : Except Failure IgnoreRules := do
  let ruleOf (pattern : String) : Except Failure (Option IgnoreRule) :=
    (IgnoreRule.ofLine false ("!" ++ pattern)).mapError fun _ =>
      .settings ("invalid ignore pattern '" ++ pattern ++ "'")
  match IgnoreRules.admit? ((← patterns.mapM ruleOf).filterMap id) with
  | some rules => return rules
  | none => throw (.settings "invalid ignore patterns")

def dirsIn (d : Disk) (root : List String) : List (List String) :=
  d.entries.filterMap fun e => match e.2 with
    | .dir => if root.isPrefixOf e.1 then some e.1 else none
    | .file _ => none

def filesIn (d : Disk) (root : List String) : List (List String) :=
  d.entries.filterMap fun e => match e.2 with
    | .file _ => if root.isPrefixOf e.1 then some e.1 else none
    | .dir => none

/-- The visible files below `root`, as sorted paths from there. -/
def files (d : Disk) (workingDir : String) (settings : Settings) (root : String) :
    Except Failure (List String) := do
  let patterns ← configured settings.indexing.ignorePatterns
  match d.locate root with
  | .ok (.taken _ (.file _)) => return [""]
  | .ok (.taken top .dir) =>
    let plan : Plan :=
      { root := top
        patterns
        skipDirs := settings.existence.skipDirs
        layers := (selfAndAbove top ++ dirsIn d top).eraseDups.map (layerAt d workingDir) }
    let visible := (filesIn d top).filter plan.isVisible
    let paths := visible.map fun path => Path.toPosix (Path.ofSegments (path.drop top.length))
    return paths.mergeSort fun a b => a ≤ b
  | _ => return []

end Walk
end ImportResolution
