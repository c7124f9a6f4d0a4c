import ImportResolution.TsConfig.Chain
import ImportResolution.TsConfig.Profile

/-! The configuration that governs an importer: the file in the nearest directory at or above it that
has one. A file that does not load hides those above it. -/
namespace ImportResolution.TsConfig

/-- The profile of a configuration file, if it loads and lies inside the root. -/
def profileOf? (v : DiskView) (root place : String) : Option Profile :=
  match chain v place with
  | .ok merged => Profile.of? root place merged
  | .error _ => none

def placeIn (root dir : String) : String := Location.ofRelative root (Path.join dir fileName)

/-- Profiles found so far, by directory, and by file as it was when it was read. -/
structure Loader where
  byDir : Table (Option Profile) := Table.empty
  byFile : List (List Location.Part × Stat × Option Profile) := []

namespace Loader

def load (v : DiskView) (root : String) (l : Loader) (place : String) : Option Profile × Loader :=
  match (l.byFile.lookup (Location.parts place)).filter fun e => e.1 == v.stat place with
  | some e => (e.2,l)
  | none =>
    let p := profileOf? v root place
    (p,{ l with byFile := (Location.parts place,v.stat place,p) :: l.byFile })

/-- Searches from `dir` upward; every step shortens the directory, which bounds the climb. -/
def findFuel (v : DiskView) (root : String) : Nat → Loader → String → Option Profile × Loader
  | 0, l, _ => (none,l)
  | fuel+1, l, dir =>
    match l.byDir.find? dir with
    | some p => (p,l)
    | none =>
      let place := placeIn root dir
      let found :=
        if v.isFile place then load v root l place
        else if dir = "" then (none,l)
        else findFuel v root fuel l (Path.parent dir)
      (found.1,{ found.2 with byDir := found.2.byDir.insert dir found.1 })

def find (v : DiskView) (root : String) (l : Loader) (importerRel : String) :
    Option Profile × Loader :=
  let dir := Path.parent (Path.normalize importerRel)
  findFuel v root (dir.length+1) l dir

end Loader
end ImportResolution.TsConfig
