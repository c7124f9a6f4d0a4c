/-! Search budgets. A policy is fixed for a run, from settings and the load of the host; each
specifier then spends from a purse of its own. -/
namespace ImportResolution

inductive BudgetKind
  | fallbackCandidates
  | fallbackDepth
  | filesystemProbe
  deriving DecidableEq, Repr

namespace BudgetKind

def name : BudgetKind → String
  | fallbackCandidates => "fallback_candidates"
  | fallbackDepth => "fallback_depth"
  | filesystemProbe => "filesystem_probe"

/-- All kinds in the order of their names. -/
def all : List BudgetKind := [fallbackCandidates,fallbackDepth,filesystemProbe]

def ofName? (s : String) : Option BudgetKind := all.find? (·.name == s)

@[simp] theorem ofName?_name (k : BudgetKind) : ofName? k.name = some k := by cases k <;> decide

end BudgetKind

/-- Limits set by hand; what is absent scales with the load. -/
structure BudgetConfig where
  maxFilesystemProbes : Option Nat := none
  maxFallbackCandidates : Option Nat := none
  maxFallbackDepth : Option Nat := none
  adaptive : Option Bool := none
  deriving DecidableEq, Repr

/-- The load of the host; an absent ratio is unknown. -/
structure LoadSignals where
  utilization : Option Float := none
  memoryPressure : Option Float := none
  descriptorPressure : Option Float := none
  pending : Nat := 0
  running : Nat := 0
  cpuConcurrency : Nat := 0
  ioConcurrency : Nat := 0

inductive LoadProfile
  | normal
  | disabled
  | pressureCritical
  | pressureHigh
  | queueBacklogUnderutilized
  | queueBacklog
  | capacityHeadroom
  deriving DecidableEq, Repr

def LoadProfile.name : LoadProfile → String
  | normal => "normal"
  | disabled => "disabled"
  | pressureCritical => "pressure_critical"
  | pressureHigh => "pressure_high"
  | queueBacklogUnderutilized => "queue_backlog_underutilized"
  | queueBacklog => "queue_backlog"
  | capacityHeadroom => "capacity_headroom"

def clampFloat (lo hi x : Float) : Float := if x < lo then lo else if x > hi then hi else x

namespace LoadSignals

/-- A finite ratio, brought between 0 and 1. -/
def ratio (x : Option Float) : Option Float := (x.filter Float.isFinite).map (clampFloat 0.0 1.0)

/-- The profile and the scale of the budgets under this load. -/
def profile (s : LoadSignals) : LoadProfile × Float :=
  let utilization := ratio s.utilization
  let pressed (threshold : Float) : Bool :=
    [ratio s.memoryPressure,ratio s.descriptorPressure].any fun p => p.any (· ≥ threshold)
  let below (threshold : Float) : Bool := utilization.any (· < threshold)
  let chosen : LoadProfile × Float :=
    if pressed 0.9 then (.pressureCritical,0.5)
    else if pressed 0.8 then (.pressureHigh,0.7)
    else if below 0.35 && s.pending ≥ 96 then (.queueBacklogUnderutilized,0.65)
    else if below 0.6 && s.pending ≥ 48 then (.queueBacklog,0.8)
    else if utilization.any (· ≥ 0.85) && s.pending + s.running ≤ 16 then (.capacityHeadroom,1.25)
    else (.normal,1.0)
  let host := max s.cpuConcurrency s.ioConcurrency
  let hostScale := if host > 0 then clampFloat 0.75 1.5 (Float.ofNat host / 8.0) else 1.0
  (chosen.1,clampFloat 0.5 2.0 (chosen.2 * hostScale))

end LoadSignals

structure BudgetPolicy where
  maxFilesystemProbes : Nat
  maxFallbackCandidates : Nat
  maxFallbackDepth : Nat
  adaptiveEnabled : Bool
  adaptiveProfile : LoadProfile
  adaptiveScale : Float

namespace BudgetPolicy

def version : String := "import-resolution-budgets-v2"
def maxValue : Nat := 4096
def clamp (n : Nat) : Nat := min n maxValue

/-- A default brought to scale; depth moves half as far as the rest. -/
def scaled (base : Nat) (scale : Float) (depthWeighted : Bool) : Nat :=
  if base = 0 then 0
  else
    let effective := if depthWeighted then 1.0 + (scale - 1.0) * 0.5 else scale
    let value := (Float.ofNat base * effective).round
    if value.isFinite && value ≥ 0.0 then clamp value.toUInt64.toNat else base

def of (config : BudgetConfig) (signals : Option LoadSignals) : BudgetPolicy :=
  let adaptive := config.adaptive != some false
  let load : LoadProfile × Float :=
    if adaptive then (signals.map LoadSignals.profile).getD (.normal,1.0) else (.disabled,1.0)
  let limit (explicit : Option Nat) (base : Nat) (depthWeighted : Bool) : Nat :=
    match explicit with
    | some n => clamp n
    | none => if adaptive then scaled base load.2 depthWeighted else base
  { maxFilesystemProbes := limit config.maxFilesystemProbes 32 false
    maxFallbackCandidates := limit config.maxFallbackCandidates 48 false
    maxFallbackDepth := limit config.maxFallbackDepth 16 true
    adaptiveEnabled := adaptive
    adaptiveProfile := load.1
    adaptiveScale := (load.2 * 1000.0).round / 1000.0 }

/-- The limits as text; the load enters through them alone. -/
def fingerprint (p : BudgetPolicy) : String :=
  version ++ "|maxFallbackCandidatesPerSpecifier:" ++ toString p.maxFallbackCandidates
    ++ "|maxFallbackDepth:" ++ toString p.maxFallbackDepth
    ++ "|maxFilesystemProbesPerSpecifier:" ++ toString p.maxFilesystemProbes

end BudgetPolicy

/-- What one specifier may still spend, and the kinds that it asked for in vain. -/
structure Purse where
  probes : Nat
  candidates : Nat
  maxDepth : Nat
  exhausted : List BudgetKind
  deriving DecidableEq, Repr

namespace Purse

def of (p : BudgetPolicy) : Purse := ⟨p.maxFilesystemProbes,p.maxFallbackCandidates,p.maxFallbackDepth,[]⟩

/-- Notes a kind; the list keeps the order of the names. -/
def exhaust (p : Purse) (kind : BudgetKind) : Purse :=
  { p with exhausted := BudgetKind.all.filter fun k => k == kind || p.exhausted.contains k }

def takeProbe (p : Purse) : Bool × Purse :=
  match p.probes with
  | 0 => (false,p.exhaust .filesystemProbe)
  | n+1 => (true,{ p with probes := n })

def takeCandidate (p : Purse) : Bool × Purse :=
  match p.candidates with
  | 0 => (false,p.exhaust .fallbackCandidates)
  | n+1 => (true,{ p with candidates := n })

def allowDepth (p : Purse) (depth : Nat) : Bool × Purse :=
  if depth ≤ p.maxDepth then (true,p) else (false,p.exhaust .fallbackDepth)

def isExhausted (p : Purse) : Bool := !p.exhausted.isEmpty

end Purse
end ImportResolution
