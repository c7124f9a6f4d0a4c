import ImportResolution.Digest.Sha256
import ImportResolution.Disk.View

/-! What the manifests at the root say about the repository, and which manifests a run may ask for. -/
namespace ImportResolution.Manifest

/-- Lines without their ends; a carriage return belongs to the end that follows it. -/
def lines (content : String) : List String :=
  match (Text.splitOn '\n' content).reverse with
  | [] => []
  | last :: r =>
    let whole := r.reverse.map fun line => (Text.beforeTail? "\r" line).getD line
    if last = "" then whole else whole ++ [last]

def startsBlank (s : String) : Bool := (s.toList.head?).any Text.isBlank
def isBacktick (c : Char) : Bool := c.toNat = 96

/-- The path of a Go module, from the first directive that names one. -/
def goModule? (content : String) : Option String :=
  (lines content).findSome? fun line =>
    let rest := Text.afterHead? "module" (Text.trim (Text.before "//" line))
    ((rest.filter startsBlank).map fun r =>
      Text.trimWhere isBacktick (Text.trimWhere (· = '"') (Text.trim r))).filter (· ≠ "")

/-- The name of a Dart package, from a line at the top level. -/
def dartPackage? (content : String) : Option String :=
  (lines content).findSome? fun line =>
    if startsBlank line then none
    else
      ((Text.afterHead? "name:" (Text.before "#" line)).map fun r =>
        Text.trimWhere (fun c => c = '"' || c = '\'') (Text.trim r)).filter (· ≠ "")

def packageName : String := "package.json"
def configName : String := "tsconfig.json"
def goName : String := "go.mod"
def dartName : String := "pubspec.yaml"

/-- What the root says. -/
structure Facts where
  goModule : Option String := none
  dartPackage : Option String := none
  /-- Digest of the package manifest. -/
  packageFingerprint : Option String := none
  deriving DecidableEq, Repr

def facts (v : DiskView) (root : String) : Facts where
  goModule := (v.readText? (Location.join root goName)).bind goModule?
  dartPackage := (v.readText? (Location.join root dartName)).bind dartPackage?
  packageFingerprint := (v.readText? (Location.join root packageName)).map Digest.ofText

/-- A directory and those above it; each has fewer segments than the one before. -/
def ancestorsFuel : Nat → String → List String
  | 0, _ => []
  | fuel+1, dir => if dir = "" then [""] else dir :: ancestorsFuel fuel (Path.parent dir)

def ancestors (dir : String) : List String := ancestorsFuel (dir.length+1) dir

/-- Manifests above the importers and at the root, each place once by its first text. -/
def candidates (root : String) (importers : List String) : List String :=
  let dirs := Text.distinctSorted (importers.flatMap fun i => ancestors (Path.parent i))
  let places :=
    dirs.flatMap (fun dir =>
        [packageName,configName].map fun name => Location.ofRelative root (dir ++ "/" ++ name))
      ++ [goName,dartName,packageName].map (Location.join root)
  Location.sort (places.eraseDupsBy Location.same)

end ImportResolution.Manifest
