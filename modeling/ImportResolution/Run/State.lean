import ImportResolution.BuildContext
import ImportResolution.Cache.Memory
import ImportResolution.Cache.Persisted
import ImportResolution.Diagnosis
import ImportResolution.Language.Bare
import ImportResolution.Language.Relative
import ImportResolution.PackageEntry
import ImportResolution.Probe
import ImportResolution.Relations
import ImportResolution.Stage
import ImportResolution.TsConfig.Loader

/-! The parts of a run: the request, the rules that stay fixed, and what changes from specifier to
specifier. -/
namespace ImportResolution.Run

structure Request where
  root : String
  entries : List Entry
  /-- Specifiers, as written, by importer. -/
  imports : Table (List String)
  settings : Settings := {}
  /-- Content digests by importer; outcomes of an importer without one are not kept. -/
  hashes : Table String := Table.empty
  /-- The cache of an earlier run; without one nothing is kept. -/
  cache : Option Cache.Persisted := none
  index : Option Existence.Index := none
  view : DiskView
  signals : Option LoadSignals := none
  /-- Milliseconds since 1970. -/
  now : Int

/-- What a run fixes before its first importer. -/
structure Rules where
  settings : Settings
  now : Int
  files : FileIndex
  site : ProbeSite
  aliases : AliasRules
  build : BuildContext
  noise : NoiseFilter
  policy : BudgetPolicy
  names : Bare.Names

/-- How a run used the cache of an earlier one. -/
structure CacheUsage where
  files : Nat := 0
  filesHashed : Nat := 0
  filesReused : Nat := 0
  filesInvalidated : Nat := 0
  specs : Nat := 0
  specsReused : Nat := 0
  specsComputed : Nat := 0
  packageInvalidated : Bool := false
  fileSetInvalidated : Bool := false
  cacheKeyInvalidated : Bool := false
  lookupReused : Bool := false
  lookupInvalidated : Bool := false
  prefetchedPaths : Nat := 0
  deriving DecidableEq, Repr

/-- Counts of outcomes. -/
structure Tally where
  resolved : Nat := 0
  external : Nat := 0
  unresolved : Nat := 0
  actionable : Nat := 0
  byReason : Table Nat := Table.empty
  byCause : Table Nat := Table.empty
  byDisposition : Table Nat := Table.empty
  budgetExhausted : Nat := 0
  byBudgetKind : Table Nat := Table.empty
  deriving DecidableEq

def bump (t : Table Nat) (key : String) : Table Nat := t.alter key fun n => n.getD 0 + 1

namespace Tally

/-- Counts an unresolved specifier under its decision. -/
def addUnresolved (t : Tally) (d : Decision) : Tally :=
  { t with
    unresolved := t.unresolved + 1
    actionable := if d.disposition = .actionable then t.actionable + 1 else t.actionable
    byReason := bump t.byReason d.reason.name
    byCause := bump t.byCause d.cause.name
    byDisposition := bump t.byDisposition d.disposition.name }

def addExhausted (t : Tally) (kinds : List BudgetKind) : Tally :=
  { t with
    budgetExhausted := t.budgetExhausted + 1
    byBudgetKind := kinds.foldl (fun b k => bump b k.name) t.byBudgetKind }

end Tally

structure State where
  configs : TsConfig.Loader := {}
  packages : PackageEntries := {}
  memory : Cache.Memory
  stages : StageTracker := {}
  graph : GraphBuilder
  usage : IndexUsage := {}
  cacheUsage : Option CacheUsage := none
  tally : Tally := {}

/-- One specifier of one importer. -/
structure Query where
  importer : Importer
  raw : String
  /-- The specifier in its normal form. -/
  spec : String
  profile : Option TsConfig.Profile

/-- What is spent and learned on one specifier. -/
structure Effort where
  purse : Purse
  /-- The word of the build context, once it was asked. -/
  verdict : Option (Option Classification) := none

end ImportResolution.Run
