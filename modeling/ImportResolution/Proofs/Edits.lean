import ImportResolution.Disk.View

/-! Edits of contents. A disk whose files are emptied has its files in the same places, so that no
search for files can tell an edit of contents. -/
namespace ImportResolution

def DiskEntry.hollow : DiskEntry → DiskEntry
  | .dir => .dir
  | .file _ => .file .empty

def Spot.hollow : Spot → Spot
  | .taken path e => .taken path e.hollow
  | .free path => .free path

namespace Disk

/-- The disk with all its files emptied. -/
def hollow (d : Disk) : Disk := ⟨d.entries.map fun e => (e.1,e.2.hollow)⟩

variable (d : Disk)

theorem at?_hollow (path : List String) : d.hollow.at? path = (d.at? path).map DiskEntry.hollow := by
  cases path with
  | nil => rfl
  | cons s rest =>
    simp only [at?,hollow]
    induction d.entries with
    | nil => rfl
    | cons e es ih =>
      obtain ⟨p,e⟩ := e
      simp only [List.map_cons,List.lookup_cons]
      cases s :: rest == p with
      | true => rfl
      | false => exact ih

theorem goOn_hollow (spot : Spot) (name : String) :
    d.hollow.goOn spot.hollow name = (d.goOn spot name).map Spot.hollow := by
  cases spot with
  | free path => rfl
  | taken path e =>
    cases e with
    | file content => rfl
    | dir =>
      simp only [goOn,Spot.hollow,DiskEntry.hollow,at?_hollow]
      split
      · rfl
      · split
        · rfl
        · split
          · rfl
          · cases d.at? (path ++ [name]) <;> rfl

theorem walkFrom_hollow (spot : Spot) (names : List String) :
    d.hollow.walkFrom spot.hollow names = (d.walkFrom spot names).map Spot.hollow := by
  induction names generalizing spot with
  | nil => rfl
  | cons name rest ih =>
    simp only [walkFrom,List.foldlM_cons,goOn_hollow] at ih ⊢
    cases d.goOn spot name with
    | error e => rfl
    | ok next => exact ih next

theorem isFile_hollow (place : String) : d.hollow.isFile place = d.isFile place := by
  have hr : d.hollow.reach place = (d.reach place).map Spot.hollow := by
    simp only [reach]
    split
    · rfl
    · split
      · rfl
      · split
        · rfl
        · exact d.walkFrom_hollow (.taken [] .dir) _
  simp only [isFile,stat,locate,hr]
  cases d.reach place with
  | error e => cases e <;> rfl
  | ok spot =>
    cases spot with
    | free path => rfl
    | taken path e =>
      cases e with
      | dir => rfl
      | file content =>
        cases asksDirectory place <;>
          simp [Except.map,Spot.hollow,DiskEntry.hollow,Stat.isFile]

end Disk

/-- Files stand in the same places, whatever they hold. -/
theorem DiskView.isFile_of_hollow {d e : Disk} (h : d.hollow = e.hollow) (place : String) :
    (⟨d,{}⟩ : DiskView).isFile place = (⟨e,{}⟩ : DiskView).isFile place := by
  have hd : ∀ d : Disk, (⟨d,{}⟩ : DiskView).isFile place = d.hollow.isFile place := by
    intro d
    rw [d.isFile_hollow]
    rfl
  rw [hd,hd,h]
end ImportResolution
