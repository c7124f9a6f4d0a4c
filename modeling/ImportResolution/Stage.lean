import ImportResolution.Reason

/-! Counters of the stages that a specifier passes: how often each was tried, hit, missed and ran out
of budget. -/
namespace ImportResolution

structure StageCounters where
  attempts : Nat := 0
  hits : Nat := 0
  misses : Nat := 0
  budgetExhausted : Nat := 0
  deriving DecidableEq, Repr

/-- The counters of every stage. -/
structure StageTracker where
  collector : StageCounters := {}
  normalize : StageCounters := {}
  languageResolver : StageCounters := {}
  buildSystemResolver : StageCounters := {}
  filesystemProbe : StageCounters := {}
  classify : StageCounters := {}
  deriving DecidableEq, Repr

namespace StageTracker

def get (t : StageTracker) : Stage → StageCounters
  | .collector => t.collector
  | .normalize => t.normalize
  | .languageResolver => t.languageResolver
  | .buildSystemResolver => t.buildSystemResolver
  | .filesystemProbe => t.filesystemProbe
  | .classify => t.classify

def modify (t : StageTracker) (s : Stage) (f : StageCounters → StageCounters) : StageTracker :=
  match s with
  | .collector => { t with collector := f t.collector }
  | .normalize => { t with normalize := f t.normalize }
  | .languageResolver => { t with languageResolver := f t.languageResolver }
  | .buildSystemResolver => { t with buildSystemResolver := f t.buildSystemResolver }
  | .filesystemProbe => { t with filesystemProbe := f t.filesystemProbe }
  | .classify => { t with classify := f t.classify }

@[simp] theorem get_modify (t : StageTracker) (s u : Stage) (f : StageCounters → StageCounters) :
    (t.modify s f).get u = if u = s then f (t.get s) else t.get u := by
  cases s <;> cases u <;> rfl

def attempt (t : StageTracker) (s : Stage) : StageTracker :=
  t.modify s fun c => { c with attempts := c.attempts + 1 }

def mark (t : StageTracker) (s : Stage) (hit : Bool) : StageTracker :=
  t.modify s fun c =>
    if hit then { c with hits := c.hits + 1 } else { c with misses := c.misses + 1 }

def markExhausted (t : StageTracker) (s : Stage) : StageTracker :=
  t.modify s fun c => { c with budgetExhausted := c.budgetExhausted + 1 }

/-- An attempt together with how it ended. -/
def attempted (t : StageTracker) (s : Stage) (hit : Bool) : StageTracker := (t.attempt s).mark s hit

end StageTracker
end ImportResolution
