import ImportResolution.Budget
import ImportResolution.Existence.Index
import ImportResolution.External
import ImportResolution.Disk.View

/-! The search for a file that is on the disk but not in the index of the repository. Every candidate
and every look at the disk is paid for, and the search ends where the purse does. -/
namespace ImportResolution

/-- What the existence index answered. -/
structure IndexUsage where
  exactHits : Nat := 0
  negativeSkips : Nat := 0
  unknownFallbacks : Nat := 0
  deriving DecidableEq, Repr

/-- Where a search looks. -/
structure ProbeSite where
  root : String
  view : DiskView
  index : Option Existence.Index := none

/-- What a search has spent; the places that it asked, the last first. -/
structure ProbeState where
  purse : Purse
  usage : IndexUsage := {}
  checked : List String := []
  deriving DecidableEq

namespace Probe

/-- The file names that a base may stand for. -/
def spellings (base : String) : List String :=
  if Path.hasExtension base then [base]
  else
    FileIndex.guessedExtensions.map (base ++ ·)
      ++ FileIndex.guessedExtensions.map (base ++ "/index" ++ ·)

def climbs (spec : String) : Nat := (Path.segments spec).count ".."

/-- Where a rooted specifier may point: to the root, and for pages to their own directory first. -/
def rootedBases (rooted : String) (importer : Importer) : List String :=
  let target := Path.normalize rooted
  if target = "" then []
  else if importer.has .html then Text.distinct [Path.join importer.dir target,target]
  else [target]

/-- The bases of a search, or none where the purse allows no such climb. -/
def bases (spec : String) (importer : Importer) (purse : Purse) : List String × Purse :=
  if spec = "" ∨ spec = "." ∨ spec = ".." then ([],purse)
  else
    match Text.afterHead? "/" spec with
    | some rooted => (rootedBases rooted importer,purse)
    | none =>
      match purse.allowDepth (climbs spec) with
      | (true,purse) => ([Path.join importer.dir spec],purse)
      | (false,purse) => ([],purse)

def candidates (bases : List String) : List String :=
  (bases.filter (· ≠ "")).flatMap spellings

/-- What the index says of a path; without an index nothing is known. -/
def indexAnswer (site : ProbeSite) (rel : String) : Option Existence.Answer :=
  site.index.map (·.lookup rel)

/-- Looks at the disk, if the purse allows it. -/
def look (site : ProbeSite) (place : String) (s : ProbeState) : Option Bool × ProbeState :=
  match s.purse.takeProbe with
  | (true,purse) =>
    (some (site.view.isFile place),{ s with purse, checked := place :: s.checked })
  | (false,purse) => (none,{ s with purse })

/-- Tries the candidates in their order. -/
def search (site : ProbeSite) : List String → ProbeState → Option String × ProbeState
  | [], s => (none,s)
  | c :: r, s =>
    match s.purse.takeCandidate with
    | (false,purse) => (none,{ s with purse })
    | (true,purse) =>
      let s := { s with purse }
      let place := Location.ofRelative site.root c
      match Location.within? site.root place with
      | none => search site r s
      | some rel =>
        match indexAnswer site rel with
        | some .present =>
          (some rel,{ s with usage := { s.usage with exactHits := s.usage.exactHits + 1 } })
        | some .absent =>
          search site r
            { s with usage := { s.usage with negativeSkips := s.usage.negativeSkips + 1 } }
        | answer =>
          let s :=
            if answer.isSome then
              { s with usage := { s.usage with unknownFallbacks := s.usage.unknownFallbacks + 1 } }
            else s
          match look site place s with
          | (some true,s) => (some rel,s)
          | (some false,s) => search site r s
          | (none,s) => (none,s)

/-- A file on the disk for a path-based specifier. -/
def find (site : ProbeSite) (spec : String) (importer : Importer) (s : ProbeState) :
    Option String × ProbeState :=
  let b := bases spec importer s.purse
  search site (candidates b.1) { s with purse := b.2 }

/-- The place asked for a file found outside the index before, if that is inside the root and the
index still does not have it. -/
def ephemeralPlace? (site : ProbeSite) (i : FileIndex) (path : Option String) : Option String :=
  match (path.map Path.normalize).filter (· ≠ "") with
  | none => none
  | some rel =>
    let place := Location.ofRelative site.root rel
    if (Location.within? site.root place).isSome && (i.candidate? rel).isNone then some place else none

/-- Whether a file found outside the index is still there, and still outside. -/
def isStillValid (site : ProbeSite) (i : FileIndex) (path : Option String) : Bool :=
  (ephemeralPlace? site i path).any site.view.isFile

end Probe
end ImportResolution
