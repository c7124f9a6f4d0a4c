import ImportResolution.Budget
import ImportResolution.Graph

/-! The outcome of one specifier as it is kept for later. Unresolved outcomes and files found outside
the index live until a moment; all others live on. -/
namespace ImportResolution.Cache

structure Entry where
  resolvedType : ResolvedType
  resolvedPath : Option String := none
  tsPathPattern : Option String := none
  tsconfigPath : Option String := none
  packageName : Option String := none
  reason : Option ReasonCode := none
  exhausted : List BudgetKind := []
  /-- A file on the disk outside the index. -/
  isEphemeral : Bool := false
  fallbackPath : Option String := none
  /-- Last millisecond of its life. -/
  expiresAt : Option Int := none
  deriving DecidableEq, Repr

namespace Entry

def found (type : ResolvedType) (path : String) : Entry :=
  { resolvedType := type, resolvedPath := some path }

def isExpired (e : Entry) (now : Int) : Bool := e.expiresAt.any (· < now)

end Entry

/-- Key of an outcome: specifiers mean the same only for one importer under one configuration. -/
def key (importer spec : String) (configFingerprint : Option String) : String :=
  joinKey [importer,spec,configFingerprint.getD "none"]

end ImportResolution.Cache
