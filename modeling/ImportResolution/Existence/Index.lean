import ImportResolution.Disk
import ImportResolution.Existence.Bloom
import ImportResolution.Settings.Basic

/-! An index of all files below a root, which answers whether a path exists. What its filter lets
pass is checked against the paths themselves; only a complete index denies. -/
namespace ImportResolution.Existence

inductive Answer
  | present
  | absent
  | unknown
  deriving DecidableEq, Repr

def Answer.name : Answer → String
  | present => "present"
  | absent => "absent"
  | unknown => "unknown"

/-- How an index came about. -/
structure Summary where
  complete : Bool
  truncated : Bool
  indexedCount : Nat
  bloomBits : Nat
  scanErrors : Nat
  deriving DecidableEq, Repr

/-- Paths of one hash. -/
abbrev Bucket := UInt32 × List String

def addToBuckets (path : String) : List Bucket → List Bucket
  | [] => [(fnv path,[path])]
  | b :: r =>
    if b.1 = fnv path then (b.1,if b.2.contains path then b.2 else b.2 ++ [path]) :: r
    else b :: addToBuckets path r

structure Index where
  bloom : Bloom
  buckets : List Bucket
  exactVerification : Bool
  summary : Summary
  deriving DecidableEq

namespace Index

def ofPaths (paths : List String) (complete exactVerification : Bool) : Index :=
  let bloom := paths.foldl Bloom.insert (Bloom.withExpected paths.length)
  let buckets := paths.foldl (fun bs p => addToBuckets p bs) []
  { bloom,buckets,exactVerification
    summary := ⟨complete,false,(buckets.map fun b => b.2.length).foldr (· + ·) 0,bloom.bitCount,0⟩ }

def isListed (i : Index) (path : String) : Bool :=
  ((i.buckets.lookup (fnv path)).getD []).contains path

def lookup (i : Index) (path : String) : Answer :=
  let miss : Answer := if i.summary.complete then .absent else .unknown
  if !i.bloom.mayContain path then miss
  else if !i.exactVerification then .unknown
  else if i.isListed path then .present
  else miss

/-- Whether a scan enters all directories on the way to a file. -/
def isScanned (skipDirs : List String) (names : List String) : Bool :=
  names.dropLast.all fun dir => !skipDirs.contains dir

/-- The paths that a full scan of the root meets. -/
def scannedPaths (disk : Disk) (root : String) (skipDirs : List String) : List String :=
  (((disk.filesBelow root).filter (isScanned skipDirs)).map Path.ofSegments).mergeSort
    fun a b => a ≤ b

/-- Scans the disk up to the allowed number of files; a root that is not there is an error. A root that
is a file is met, but has no path. -/
def build (disk : Disk) (root : String) (settings : ExistenceSettings) : Index :=
  let paths := scannedPaths disk root settings.skipDirs
  let met := if disk.isFile root then 1 else paths.length
  let truncated := settings.maxScanFiles < met
  let errors := if disk.exists? root then 0 else 1
  let i := ofPaths (paths.take settings.maxScanFiles) (!truncated && errors == 0)
    settings.exactVerification
  { i with summary := { i.summary with truncated, scanErrors := errors } }

end Index
end ImportResolution.Existence
