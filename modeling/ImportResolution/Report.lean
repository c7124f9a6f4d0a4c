import ImportResolution.Decimal
import ImportResolution.Run

/-! The results of a run as JSON. Shares are written with up to four decimal places. -/
namespace ImportResolution

def Node.toJson (n : Node) : Json := .obj [("id",.str n.id),("type",.str n.kind.name)]

/-- The four members of a decision, null where there is none. -/
def decisionMembers (d : Option Decision) : List (String × Json) :=
  [("reasonCode",Json.optStr (d.map (·.reason.name))),
   ("failureCause",Json.optStr (d.map (·.cause.name))),
   ("disposition",Json.optStr (d.map (·.disposition.name))),
   ("resolverStage",Json.optStr (d.map (·.stage.name)))]

def Edge.toJson (e : Edge) : Json :=
  .obj ([("from",.str e.source),("to",Json.optStr e.target),
      ("rawSpecifier",.str e.rawSpecifier),("kind",.str "import"),
      ("resolutionState",.str e.state.name),("resolvedType",.str e.resolvedType.name),
      ("resolvedPath",Json.optStr e.resolvedPath),("fallbackPath",Json.optStr e.fallbackPath),
      ("packageName",Json.optStr e.packageName),("tsconfigPath",Json.optStr e.tsconfigPath),
      ("tsPathPattern",Json.optStr e.tsPathPattern)]
    ++ decisionMembers e.decision)

def Warning.toJson (w : Warning) : Json :=
  .obj ([("importer",.str w.importer),("specifier",.str w.specifier),
      ("reason",.str "unresolved"),("resolutionState",.str ResolutionState.unresolved.name)]
    ++ decisionMembers (some w.decision))

def StageCounters.toJson (c : StageCounters) : Json :=
  .obj [("attempts",Json.nat c.attempts),("hits",Json.nat c.hits),("misses",Json.nat c.misses),
    ("budgetExhausted",Json.nat c.budgetExhausted)]

namespace StageTracker

/-- Stage names in the order of their texts. -/
def names : List String := Text.distinctSorted (Stage.all.map Stage.name)

def toJson (t : StageTracker) : Json :=
  .obj (names.filterMap fun n => (Stage.ofName? n).map fun s => (n,(t.get s).toJson))

end StageTracker

def BudgetPolicy.toJson (p : BudgetPolicy) : Json :=
  .obj [("maxFilesystemProbesPerSpecifier",Json.nat p.maxFilesystemProbes),
    ("maxFallbackCandidatesPerSpecifier",Json.nat p.maxFallbackCandidates),
    ("maxFallbackDepth",Json.nat p.maxFallbackDepth),("adaptiveEnabled",.bool p.adaptiveEnabled),
    ("adaptiveProfile",.str p.adaptiveProfile.name),
    ("adaptiveScale",(Decimal.ofFloat 4 p.adaptiveScale).toJson)]

def Existence.Summary.toJson (s : Existence.Summary) : Json :=
  .obj [("complete",.bool s.complete),("truncated",.bool s.truncated),
    ("indexedCount",Json.nat s.indexedCount),("bloomBits",Json.nat s.bloomBits),
    ("scanErrors",Json.nat s.scanErrors)]

/-- The use of an existence index; all is zero without one. -/
def IndexUsage.toJson (u : IndexUsage) (s : Option Existence.Summary) : Json :=
  .obj [("enabled",.bool s.isSome),("complete",.bool (s.any (·.complete))),
    ("truncated",.bool (s.any (·.truncated))),
    ("indexedCount",Json.nat ((s.map (·.indexedCount)).getD 0)),
    ("bloomBits",Json.nat ((s.map (·.bloomBits)).getD 0)),
    ("exactHits",Json.nat u.exactHits),("negativeSkips",Json.nat u.negativeSkips),
    ("unknownFallbacks",Json.nat u.unknownFallbacks)]

def GateTotals.members (t : GateTotals) : List (String × Json) :=
  [("unresolvedLiveEligible",Json.nat t.liveEligible),
   ("unresolvedGateEligible",Json.nat t.gateEligible),
   ("unresolvedActionableGateEligible",Json.nat t.actionableGateEligible),
   ("unresolvedGateEligibleActionableRate",(Decimal.ofFloat 4 t.actionableRate).toJson)]

def FileRelations.toJson (r : FileRelations) : Json :=
  .obj [("imports",Json.strs r.imports),("importLinks",Json.strs r.importLinks),
    ("externalImports",Json.strs r.externalImports)]

namespace Run

def countsJson (t : Table Nat) : Json := .obj (t.entries.map fun e => (e.1,Json.nat e.2))

def CacheUsage.toJson (c : CacheUsage) : Json :=
  .obj [("files",Json.nat c.files),("filesHashed",Json.nat c.filesHashed),
    ("filesReused",Json.nat c.filesReused),("filesInvalidated",Json.nat c.filesInvalidated),
    ("specs",Json.nat c.specs),("specsReused",Json.nat c.specsReused),
    ("specsComputed",Json.nat c.specsComputed),
    ("packageInvalidated",.bool c.packageInvalidated),
    ("fileSetInvalidated",.bool c.fileSetInvalidated),
    ("cacheKeyInvalidated",.bool c.cacheKeyInvalidated),
    ("lookupReused",.bool c.lookupReused),("lookupInvalidated",.bool c.lookupInvalidated),
    ("prefetchedPaths",Json.nat c.prefetchedPaths)]

def Stats.toJson (s : Stats) : Json :=
  .obj ([("files",Json.nat s.files),("nodes",Json.nat s.nodes),
      ("edges",Json.nat s.counters.edgeTotal),("resolved",Json.nat s.tally.resolved),
      ("external",Json.nat s.tally.external),("unresolved",Json.nat s.tally.unresolved),
      ("unresolvedActionable",Json.nat s.tally.actionable),
      ("unresolvedSuppressed",Json.nat s.counters.warningSuppressed),
      ("unresolvedActionableRate",
        (Decimal.ofFloat 4 (rate s.tally.actionable s.tally.unresolved)).toJson),
      ("unresolvedByReasonCode",countsJson s.tally.byReason),
      ("unresolvedByFailureCause",countsJson s.tally.byCause),
      ("unresolvedByDisposition",countsJson s.tally.byDisposition),
      ("unresolvedBudgetExhausted",Json.nat s.tally.budgetExhausted),
      ("unresolvedBudgetExhaustedByType",countsJson s.tally.byBudgetKind)]
    ++ s.gate.members
    ++ [("truncatedEdges",Json.nat s.counters.truncatedEdges),
      ("truncatedNodes",Json.nat s.counters.truncatedNodes),
      ("maxEdges",Json.nat s.limits.maxEdges),("maxNodes",Json.nat s.limits.maxNodes),
      ("warningSuppressed",Json.nat s.counters.warningSuppressed),
      ("resolverFsExistsIndex",s.usage.toJson s.index),
      ("resolverBudgetPolicy",s.policy.toJson),("resolverPipelineStages",s.stages.toJson)])

/-- The graph with its statistics. -/
def Outcome.graphJson (o : Outcome) : Json :=
  .obj [("generatedAt",.str o.generatedAt),("stats",o.stats.toJson),
    ("nodes",.arr (o.parts.nodes.map Node.toJson)),
    ("edges",.arr (o.parts.edges.map Edge.toJson)),
    ("warnings",.arr (o.parts.warnings.map Warning.toJson))]

end Run
end ImportResolution
