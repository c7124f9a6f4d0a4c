import ImportResolution.Disk

/-! A disk seen through remembered answers. What was asked of a place once is not asked again, so the
view may lag behind the disk; contents are always read afresh. -/
namespace ImportResolution

/-- Answers by place; two texts with the same parts are one place. -/
structure StatMemo where
  known : List (List Location.Part × Stat) := []
  /-- How many places were asked in advance. -/
  prefetched : Nat := 0
  deriving DecidableEq

structure DiskView where
  disk : Disk
  memo : StatMemo := {}
  deriving DecidableEq

namespace DiskView

def stat (v : DiskView) (place : String) : Stat :=
  (v.memo.known.lookup (Location.parts place)).getD (v.disk.stat place)

/-- The view after the place was asked. -/
def remember (v : DiskView) (place : String) : DiskView :=
  { v with memo := { v.memo with known := (Location.parts place,v.stat place) :: v.memo.known } }

@[simp] theorem stat_remember (v : DiskView) (p q : String) :
    (v.remember p).stat q =
      if Location.parts q = Location.parts p then v.stat p else v.stat q := by
  by_cases h : Location.parts q = Location.parts p
  · simp [remember,stat,h]
  · have hb : (Location.parts q == Location.parts p) = false := by simpa using h
    simp [remember,stat,List.lookup_cons,hb,h]

/-- Asks many places at once. -/
def prefetch (disk : Disk) (places : List String) : DiskView :=
  let v := places.foldl remember ⟨disk,{}⟩
  { v with memo := { v.memo with prefetched := places.length } }

def isFile (v : DiskView) (place : String) : Bool := (v.stat place).isFile

/-- The text of a file; whatever fails reads as absent. -/
def readText? (v : DiskView) (place : String) : Option String :=
  if v.isFile place then (v.disk.readText place).toOption else none

end DiskView
end ImportResolution
