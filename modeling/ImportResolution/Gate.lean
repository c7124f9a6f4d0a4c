import ImportResolution.Reason
import ImportResolution.Text.Case

/-! Which warnings count for live reports and which for the release gate. Importers below excluded
segments, such as tests, never count for the gate. -/
namespace ImportResolution

structure Gate where
  segments : List String
  deriving DecidableEq, Repr

structure GateTotals where
  liveEligible : Nat
  gateEligible : Nat
  actionableGateEligible : Nat

/-- A share rounded to four places; without a whole it is zero. -/
def rate (numerator denominator : Nat) : Float :=
  if denominator = 0 then 0.0
  else ((Float.ofNat numerator / Float.ofNat denominator) * 10000.0).round / 10000.0

namespace Gate

def of (segments : List String) : Gate := ⟨(segments.map Text.lower).filter (· ≠ "")⟩

/-- The path is matched behind one slash, so that directories at the top are met too. -/
def excludes (g : Gate) (importer : String) : Bool :=
  let path := "/" ++ Text.lower (Text.dropWhile (· = '/') importer)
  g.segments.any (Text.contains · path)

def isLive (d : Disposition) : Bool := d != .suppressLive
def admits (g : Gate) (importer : String) (d : Disposition) : Bool := isLive d && !g.excludes importer

def totals (g : Gate) (warnings : List (String × Disposition)) : GateTotals where
  liveEligible := warnings.countP fun w => isLive w.2
  gateEligible := warnings.countP fun w => g.admits w.1 w.2
  actionableGateEligible := warnings.countP fun w => g.admits w.1 w.2 && w.2 == .actionable

end Gate

def GateTotals.actionableRate (t : GateTotals) : Float := rate t.actionableGateEligible t.gateEligible

end ImportResolution
