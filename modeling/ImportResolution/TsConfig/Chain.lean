import ImportResolution.Disk.View
import ImportResolution.Failure
import ImportResolution.TsConfig.Reader

/-! Configurations that extend others. Options are gathered from the files that a file extends, each
file being read once, and the file's own options are laid over them. -/
namespace ImportResolution.TsConfig

inductive ConfigError
  | unreadable (place : String)
  | malformed (place : String)
  deriving DecidableEq, Repr

def ConfigError.toFailure : ConfigError → Failure
  | unreadable place => .manifest place "file is missing or unreadable"
  | malformed place => .manifest place "not a configuration"

def read (v : DiskView) (place : String) : Except ConfigError ConfigFile :=
  match v.readText? place with
  | none => .error (.unreadable place)
  | some content =>
    match parse? content with
    | some c => .ok c
    | none => .error (.malformed place)

def fileName : String := "tsconfig.json"
def withJson (place : String) : String := if Text.endsWith ".json" place then place else place ++ ".json"

/-- The places that a package configuration may have below one directory. -/
def packagePlaces (dir spec : String) : List String :=
  let package := Location.joinCollapsed (Location.join dir "node_modules") spec
  [package,withJson package,Location.join package fileName]

/-- The directories from `dir` upward. -/
def climbFuel : Nat → String → List String
  | 0, _ => []
  | fuel+1, dir =>
    dir :: match Location.parent? dir with
      | some above => climbFuel fuel above
      | none => []

def climb (dir : String) : List String := climbFuel (dir.length+1) dir

/-- A relative or absolute name is a place; any other is a package, searched for upward. -/
def extendsPlaces (dir spec : String) : List String :=
  if Text.startsWith "./" spec || Text.startsWith "../" spec || Location.isAbsolute spec then
    let direct := Location.joinCollapsed dir spec
    [direct,withJson direct]
  else (climb dir).flatMap fun above => packagePlaces above spec

def extendsTarget? (v : DiskView) (dir spec : String) : Option String :=
  (extendsPlaces dir spec).find? v.isFile

def dirOf (place : String) : String := (Location.parent? place).getD ""

/-- What a walk along a chain has met: places entered, and places read, the last first. -/
structure ChainState where
  visited : List (List Location.Part) := []
  reads : List String := []
  deriving DecidableEq

def ChainState.enter (s : ChainState) (place : String) : ChainState :=
  ⟨Location.parts place :: s.visited,place :: s.reads⟩

/-- A walk that gathers the options of a place. -/
abbrev Gatherer := String → ChainState → Except ConfigError MergedOptions × ChainState

/-- Lays the options of one parent over those before it; one that is missing or fails is passed
over. -/
def layParent (v : DiskView) (gatherParent : Gatherer) (dir : String)
    (acc : MergedOptions × ChainState) (spec : String) : MergedOptions × ChainState :=
  match extendsTarget? v dir spec with
  | none => acc
  | some target =>
    match gatherParent target acc.2 with
    | (.ok parent,s) => (acc.1.merge parent,s)
    | (.error _,s) => (acc.1,s)

/-- The options of a file; one that was entered before adds nothing. -/
def gatherFuel (v : DiskView) : Nat → Gatherer
  | 0, _, s => (.ok {},s)
  | fuel+1, place, s =>
    if s.visited.contains (Location.parts place) then (.ok {},s)
    else
      match read v place with
      | .error e => (.error e,s.enter place)
      | .ok config =>
        let above :=
          config.parents.foldl (layParent v (gatherFuel v fuel) (dirOf place)) ({},s.enter place)
        (.ok (above.1.merge (.ofConfig config (dirOf place))),above.2)

/-- No place is entered twice, and a file is entered as an absolute and as a relative place at most,
so the number of files bounds the depth. -/
def gather (v : DiskView) (place : String) (s : ChainState) :
    Except ConfigError MergedOptions × ChainState :=
  gatherFuel v (2 * v.disk.entries.length + 2) place s

/-- The options of a chain that starts here. -/
def chain (v : DiskView) (place : String) : Except ConfigError MergedOptions := (gather v place {}).1

end ImportResolution.TsConfig
