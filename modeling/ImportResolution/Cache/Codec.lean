import ImportResolution.Cache.Persisted
import ImportResolution.Json.Fields
import ImportResolution.Json.Printer
import ImportResolution.Json.Reader

/-! The stored form of a cache. What is absent in an entry is not written; in the cache itself it is
written as null. -/
namespace ImportResolution.Cache

open Json (Written)

def memberOf (name : String) (value : Option Json) : List (String × Json) :=
  (value.map fun v => (name,v)).toList

def ephemeralClass : String := "ephemeral_external"

namespace Entry

def toJson (e : Entry) : Json :=
  .obj ([("resolvedType",.str e.resolvedType.name)]
    ++ memberOf "resolvedPath" (e.resolvedPath.map .str)
    ++ memberOf "tsPathPattern" (e.tsPathPattern.map .str)
    ++ memberOf "tsconfigPath" (e.tsconfigPath.map .str)
    ++ memberOf "packageName" (e.packageName.map .str)
    ++ memberOf "unresolvedReasonCode" (e.reason.map fun c => .str c.name)
    ++ (if e.exhausted.isEmpty then []
        else [("unresolvedBudgetExhaustedTypes",Json.strs (e.exhausted.map BudgetKind.name))])
    ++ (if e.isEphemeral then [("cacheClass",.str ephemeralClass)] else [])
    ++ memberOf "fallbackPath" (e.fallbackPath.map .str)
    ++ memberOf "expiresAt" (e.expiresAt.map .int))

def fieldNames : List String :=
  ["resolvedType","resolvedPath","tsPathPattern","tsconfigPath","packageName",
   "unresolvedReasonCode","unresolvedBudgetExhaustedTypes","cacheClass","fallbackPath","expiresAt"]

def kinds? (v : Written) : Option (List BudgetKind) :=
  v.list?.bind fun xs => xs.mapM fun x => (Written.nameText? x).bind BudgetKind.ofName?

def moment? (v : Written) : Option Int := v.int?.filter fun n => -Int.ofNat (Nat.pow 2 63) ≤ n ∧ n < Int.ofNat (Nat.pow 2 63)

def isClass? (v : Written) : Option Unit :=
  (Written.nameText? v).bind fun s => if s = ephemeralClass then some () else none

def ofWritten? (v : Written) : Option Entry := do
  match ← Written.record? fieldNames v with
  | [type,path,pattern,config,package,reason,kinds,cls,fallback,expires] =>
    return {
      resolvedType := ← (← type.bind Written.nameText?) |> ResolvedType.ofName?
      resolvedPath := ← Written.optional? Written.str? path
      tsPathPattern := ← Written.optional? Written.str? pattern
      tsconfigPath := ← Written.optional? Written.str? config
      packageName := ← Written.optional? Written.str? package
      reason := ← Written.optional? (fun x => (Written.nameText? x).bind ReasonCode.ofName?) reason
      exhausted := ← Written.orDefault? kinds? [] kinds
      isEphemeral := (← Written.optional? isClass? cls).isSome
      fallbackPath := ← Written.optional? Written.str? fallback
      expiresAt := ← Written.optional? moment? expires }
  | _ => none

end Entry

namespace FileEntry

def toJson (f : FileEntry) : Json :=
  .obj [("hash",.str f.hash),("tsconfigFingerprint",Json.optStr f.configFingerprint),
    ("specs",.obj (f.specs.entries.map fun e => (e.1,e.2.toJson)))]

def ofWritten? (v : Written) : Option FileEntry := do
  match ← Written.record? ["hash","tsconfigFingerprint","specs"] v with
  | [hash,config,specs] =>
    return {
      hash := ← hash.bind Written.str?
      configFingerprint := ← Written.optional? Written.str? config
      specs := ← Written.orDefault? (Written.table? Entry.ofWritten?) Table.empty specs }
  | _ => none

end FileEntry

def snapshotToJson (s : Snapshot) : Json :=
  .obj [("schemaVersion",.str s.schemaVersion),("rootHash",.str s.rootHash),
    ("fileSetFingerprint",.str s.fileSetFingerprint),
    ("compatibilityFingerprint",.str s.compatibilityFingerprint),("files",Json.strs s.files)]

def snapshotOfWritten? (v : Written) : Option Snapshot := do
  match ← Written.record? ["schemaVersion","rootHash","fileSetFingerprint",
      "compatibilityFingerprint","files"] v with
  | [version,root,fileSet,compatibility,files] =>
    return ⟨← version.bind Written.str?,← root.bind Written.str?,← fileSet.bind Written.str?,
      ← compatibility.bind Written.str?,← files.bind Written.texts?⟩
  | _ => none

namespace Persisted

def toJson (c : Persisted) : Json :=
  .obj [("version",.str c.version),("packageFingerprint",Json.optStr c.packageFingerprint),
    ("fileSetFingerprint",Json.optStr c.fileSetFingerprint),
    ("cacheKey",Json.optStr c.cacheKey),
    ("files",.obj (c.files.entries.map fun e => (e.1,e.2.toJson))),
    ("lookup",Json.ofOption snapshotToJson c.lookup)]

def ofWritten? (v : Written) : Option Persisted := do
  match ← Written.record? ["version","packageFingerprint","fileSetFingerprint","cacheKey","files",
      "lookup"] v with
  | [version,package,fileSet,key,files,lookup] =>
    return {
      version := ← version.bind Written.str?
      packageFingerprint := ← Written.optional? Written.str? package
      fileSetFingerprint := ← Written.optional? Written.str? fileSet
      cacheKey := ← Written.optional? Written.str? key
      files := ← Written.orDefault? (Written.table? FileEntry.ofWritten?) Table.empty files
      lookup := ← Written.optional? snapshotOfWritten? lookup }
  | _ => none

def text (c : Persisted) : String := c.toJson.compact
def parse? (s : String) : Option Persisted := (Written.parse? s).bind ofWritten?

end Persisted
end ImportResolution.Cache
