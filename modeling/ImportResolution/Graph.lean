import ImportResolution.Reason
import ImportResolution.Settings.Basic
import ImportResolution.Table

/-! The import graph and its assembly under caps. What a cap refuses is counted; nodes, edges and
warnings leave in the order of their keys. -/
namespace ImportResolution

inductive NodeKind
  | file
  | external
  deriving DecidableEq, Repr

def NodeKind.name : NodeKind → String
  | file => "file"
  | external => "external"

structure Node where
  id : String
  kind : NodeKind
  deriving DecidableEq, Repr

def fileNodeId (rel : String) : String := "file:" ++ rel
def externalNodeId (spec : String) : String := "ext:" ++ spec

/-- One import; an unresolved one has no target and carries a decision. -/
structure Edge where
  source : String
  target : Option String := none
  rawSpecifier : String
  state : ResolutionState
  resolvedType : ResolvedType
  resolvedPath : Option String := none
  /-- File on disk outside the index that an external stands for. -/
  fallbackPath : Option String := none
  packageName : Option String := none
  tsconfigPath : Option String := none
  tsPathPattern : Option String := none
  decision : Option Decision := none
  deriving DecidableEq, Repr

/-- Texts joined by a character that none of them should have. -/
def joinKey (parts : List String) : String := (String.singleton (Char.ofNat 0)).intercalate parts

namespace Edge

def of (source rawSpecifier : String) (type : ResolvedType) : Edge where
  source
  rawSpecifier
  state := type.state
  resolvedType := type

def withDecision (e : Edge) (d : Decision) : Edge :=
  { e with state := .unresolved, decision := some d }

def sortKey (e : Edge) : String :=
  joinKey [e.source,e.target.getD "",e.rawSpecifier,e.resolvedType.name,e.resolvedPath.getD ""]

end Edge

structure Warning where
  importer : String
  specifier : String
  decision : Decision
  deriving DecidableEq, Repr

def Warning.sortKey (w : Warning) : String :=
  joinKey [w.importer,w.specifier,w.decision.reason.name]

inductive WarningOutcome
  | recorded
  /-- The importer was warned about the specifier before. -/
  | duplicate
  /-- The cap on warnings is reached. -/
  | overflow
  deriving DecidableEq, Repr

structure GraphCounters where
  edgeTotal : Nat := 0
  truncatedNodes : Nat := 0
  truncatedEdges : Nat := 0
  warningSuppressed : Nat := 0
  deriving DecidableEq, Repr

/-- A graph under assembly; edges, warnings and warning keys are kept the last one first. -/
structure GraphBuilder where
  maxNodes : Nat
  maxEdges : Nat
  maxWarnings : Nat
  nodes : Table NodeKind := Table.empty
  edges : List Edge := []
  edgeCount : Nat := 0
  warnings : List Warning := []
  warningKeys : List (String × String) := []
  counters : GraphCounters := {}

namespace GraphBuilder

def of (limits : Limits) : GraphBuilder where
  maxNodes := limits.maxNodes
  maxEdges := limits.maxEdges
  maxWarnings := limits.maxWarnings

/-- Offers a node; the answer says whether the graph has it now. -/
def addNode (g : GraphBuilder) (id : String) (kind : NodeKind) : Bool × GraphBuilder :=
  if g.nodes.contains id then (true,g)
  else if g.nodes.size ≥ g.maxNodes then
    (false,{ g with counters := { g.counters with truncatedNodes := g.counters.truncatedNodes + 1 } })
  else (true,{ g with nodes := g.nodes.insert id kind })

/-- Offers an edge; every offer counts toward the total. -/
def addEdge (g : GraphBuilder) (e : Edge) : Bool × GraphBuilder :=
  let counters := { g.counters with edgeTotal := g.counters.edgeTotal + 1 }
  if g.edgeCount ≥ g.maxEdges then
    (false,{ g with counters := { counters with truncatedEdges := counters.truncatedEdges + 1 } })
  else (true,{ g with edges := e :: g.edges, edgeCount := g.edgeCount + 1, counters })

def suppressWarning (g : GraphBuilder) : GraphBuilder :=
  { g with counters := { g.counters with warningSuppressed := g.counters.warningSuppressed + 1 } }

/-- Offers a warning about a specifier in its normal form; each pair of importer and specifier is
heard once. -/
def addWarning (g : GraphBuilder) (spec : String) (w : Warning) : WarningOutcome × GraphBuilder :=
  if g.warningKeys.contains (w.importer,spec) then (.duplicate,g.suppressWarning)
  else
    let g := { g with warningKeys := (w.importer,spec) :: g.warningKeys }
    if g.warnings.length ≥ g.maxWarnings then (.overflow,g.suppressWarning)
    else (.recorded,{ g with warnings := w :: g.warnings })

end GraphBuilder

/-- An assembled graph. -/
structure GraphParts where
  nodes : List Node
  edges : List Edge
  warnings : List Warning
  counters : GraphCounters
  deriving DecidableEq, Repr

/-- Sorts by a text key; equal keys keep their order. -/
def sortByKey {α : Type} (key : α → String) (xs : List α) : List α :=
  ((xs.map fun x => (key x,x)).mergeSort fun a b => a.1 ≤ b.1).map Prod.snd

def GraphBuilder.finish (g : GraphBuilder) : GraphParts where
  nodes := g.nodes.entries.map fun e => ⟨e.1,e.2⟩
  edges := sortByKey Edge.sortKey g.edges.reverse
  warnings := sortByKey Warning.sortKey g.warnings.reverse
  counters := g.counters

end ImportResolution
