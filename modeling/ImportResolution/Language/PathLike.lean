import ImportResolution.Language.Label
import ImportResolution.Language.Search

/-! Specifiers that are paths or labels: relative, rooted, labelled, or tried beside the importer and
at the root. Some importers open a directory by an entry file of their own. -/
namespace ImportResolution.PathLike

/-- Files that stand for a directory, for this importer. -/
def entryNames (importer : Importer) : List String :=
  (if importer.has .cMake then ["CMakeLists.txt"] else [])
    ++ (if importer.has .nix then ["default.nix","flake.nix"] else [])
    ++ (if importer.has .toml then ["Cargo.toml","pyproject.toml","Project.toml"] else [])

/-- A candidate, and without extension its entry files too. -/
def expand (importer : Importer) (candidate : String) : List String :=
  let base := Path.normalize candidate
  let all := if Path.hasExtension base then [base]
    else base :: (entryNames importer).map (Path.child base)
  all.map Path.normalize

def search? (i : FileIndex) (importer : Importer) (candidates : List String) : Option String :=
  i.first? (candidates.flatMap (expand importer))

/-- All `../` in front taken off. -/
def dropUps : List String → List String
  | ".." :: s :: r => dropUps (s :: r)
  | xs => xs

/-- A climbing path read from the project above a directory of unit tests. -/
def aboveUnitTests? (spec : String) (importer : Importer) : Option String :=
  if !Text.startsWith "../" spec then none
  else
    let parts := Path.segments importer.rel
    let project := parts.takeWhile (· ≠ "unittests")
    if project.isEmpty ∨ project.length = parts.length then none
    else
      let rest := Path.normalize (Path.ofSegments (dropUps (Path.segments spec)))
      if rest = "" ∨ Path.isRooted rest then none
      else some (Path.normalize (Path.ofSegments project ++ "/" ++ rest))

/-- Candidates of a label in this repository: the target in its package, then the package. -/
def labelCandidates (label : Label) (importer : Importer) : List String :=
  let source := importer.has .bazelSource
  let package := Path.normalize label.package
  let target := Path.normalize label.target
  let inPackage := Path.child package
  let ofTarget :=
    if target = "" then []
    else
      inPackage target ::
        (if source && !Path.hasExtension target then [inPackage (target ++ ".bzl")] else [])
  let ofPackage :=
    if package = "" then []
    else
      let same := package ++ "/" ++ Path.baseName package
      package :: same :: (if source then [same ++ ".bzl",package ++ ".bzl"] else [])
  ofTarget ++ ofPackage

def resolve? (i : FileIndex) (spec : String) (importer : Importer) : Option String :=
  let raw := Path.toPosix (Text.trim spec)
  if raw = "" then none
  else
    match Label.parse? raw importer.dir with
    | some label =>
      if label.repo.isSome then none else search? i importer (labelCandidates label importer)
    | none =>
      match Text.afterHead? "/" raw with
      | some absolute =>
        let target := Path.normalize absolute
        if target = "" then none
        else
          search? i importer
            ((if importer.has .html then [Path.join importer.dir target] else []) ++ [target])
      | none =>
        if Text.startsWith "./" raw || Text.startsWith "../" raw then
          search? i importer
            (Path.join importer.dir raw :: (aboveUnitTests? raw importer).toList)
        else
          let bare := Path.normalize raw
          if bare = "" then none else search? i importer [Path.join importer.dir bare,bare]

end ImportResolution.PathLike
