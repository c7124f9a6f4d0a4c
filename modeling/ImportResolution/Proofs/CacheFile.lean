import ImportResolution.Proofs.CacheText
import ImportResolution.Proofs.Homes

/-! The cache file. A save writes beside the place of the file and moves the file there; what was saved
is loaded again, and of another version it is refused. -/
namespace ImportResolution

theorem Text.fromUTF8?_toUTF8 (s : String) : String.fromUTF8? s.toUTF8 = some s := by
  unfold String.fromUTF8?
  exact dif_pos s.isValidUTF8

namespace Cache.Store
open Disk ImportResolution.Path
variable {disk : Disk} {dir : String} {c : Persisted}

def draftName : String := "import_resolution.json.tmp"

theorem isName_fileName : IsName fileName := by decide
theorem isName_draftName : IsName draftName := by decide
theorem names_ne : draftName ≠ fileName := by decide

theorem draftPlace_eq (dir : String) : draftPlace dir = place dir ++ ".tmp" := by
  have hp : Location.isAbsolute fileName = false := by decide
  have hd : Location.isAbsolute draftName = false := by decide
  have hn : draftName = fileName ++ ".tmp" := by decide
  change Location.join dir draftName = Location.join dir fileName ++ ".tmp"
  rw [Location.join,Location.join,hp,hd,hn]
  simp only [Bool.false_eq_true,if_false]
  split <;> simp only [String.append_assoc]

theorem short_place (h : (draftPlace dir).utf8ByteSize ≤ maxPlace) :
    (place dir).utf8ByteSize ≤ maxPlace := by
  rw [draftPlace_eq,String.utf8ByteSize_append] at h
  omega

/-- What a save needs of a disk: the directory is there or can be made, no directory stands where one
of the two files goes, and their places are not too long. -/
structure CanHold (disk : Disk) (dir : String) : Prop where
  room : ∃ made, disk.makeDirs dir = .ok made ∧ made.isDir (draftPlace dir) = false ∧
    made.isDir (place dir) = false
  short : (draftPlace dir).utf8ByteSize ≤ maxPlace

/-- A load gives the cache itself where it is of the current version; else it names the version that it
found. -/
structure ReadsBack (disk : Disk) (dir : String) (c : Persisted) : Prop where
  current : c.version = Persisted.currentVersion →
    load disk dir = .ok (some c) ∧ loadOrDiscard disk dir = some c
  other : c.version ≠ Persisted.currentVersion →
    load disk dir = .error (incompatible c.version) ∧
      (incompatible c.version).code = "RESOLUTION_INVALID_CACHE" ∧ loadOrDiscard disk dir = none

theorem exists_save (h : CanHold disk dir) (c : Persisted) :
    ∃ t q, save disk dir c = (.ok (),t) ∧ t.IsHome dir q ∧
      t.at? (q ++ [fileName]) = some (.file c.text.toUTF8) := by
  obtain ⟨⟨made,hmade,hdraft,hplace⟩,hl⟩ := h
  obtain ⟨q,hq⟩ := exists_isHome_of_makeDirs hmade
  have hlp := short_place hl
  have hda := (hq.isDir_join isName_draftName hl).mp hdraft
  have hpa := (hq.isDir_join isName_fileName hlp).mp hplace
  refine ⟨made.moved q draftName fileName c.text.toUTF8,q,?_,hq.moved hda hpa names_ne,?_⟩
  · have hw : made.write (draftPlace dir) c.text.toUTF8 = _ :=
      hq.write_join isName_draftName hl hda c.text.toUTF8
    have hr : (made.put (q ++ [draftName]) (.file c.text.toUTF8)).renameFile (draftPlace dir)
        (place dir) = .ok (made.moved q draftName fileName c.text.toUTF8) :=
      hq.renameFile_join isName_draftName isName_fileName hda hpa names_ne hl hlp
    simp only [save,hmade,hw,hr]
  · rw [at?_moved names_ne,if_pos rfl]

theorem canHold_of_save (h : (save disk dir c).1 = .ok ()) : CanHold disk dir := by
  unfold save at h
  split at h
  · cases h
  · next made hmade =>
    split at h
    · cases h
    · next written hw =>
      split at h
      · cases h
      · next moved hr =>
        have hl := short_of_write hw
        have hdraft := isDir_of_write hw
        obtain ⟨q,hq⟩ := exists_isHome_of_makeDirs hmade
        have hlp := short_place hl
        have hda := (hq.isDir_join isName_draftName hl).mp hdraft
        obtain rfl := Except.ok.inj ((hq.write_join isName_draftName hl hda _).symm.trans hw)
        -- The draft is a file, so what stands in the place of the other was there before.
        have hp : q ++ [fileName] ≠ q ++ [draftName] := by simpa using names_ne.symm
        have hpa := ((hq.put_file hda).isDir_join isName_fileName hlp).mp (isDir_of_renameFile hr)
        rw [at?_put made (by simp),if_neg hp] at hpa
        exact ⟨⟨made,hmade,hdraft,(hq.isDir_join isName_fileName hlp).mpr hpa⟩,hl⟩

theorem readsBack_of_file {q : List String} (hc : c.IsDated) (h : disk.IsHome dir q)
    (hl : (place dir).utf8ByteSize ≤ maxPlace)
    (hf : disk.at? (q ++ [fileName]) = some (.file c.text.toUTF8)) : ReadsBack disk dir c := by
  have he : disk.exists? (place dir) = true := h.exists?_join isName_fileName hl hf
  have hr : disk.read (place dir) = .ok c.text.toUTF8 := h.read_join isName_fileName hl hf
  have ht : disk.readText (place dir) = .ok c.text := by
    rw [readText,hr]
    simp only [Text.fromUTF8?_toUTF8]
  have hload : load disk dir =
      if c.isCompatible then .ok (some c) else .error (incompatible c.version) := by
    rw [load,he,ht]
    simp only [access,Except.mapError,bind,Except.bind,Persisted.parse?_text hc]
    rfl
  constructor
  · intro hv
    have hcur : c.isCompatible = true := beq_iff_eq.mpr hv
    have hl : load disk dir = .ok (some c) := hload.trans (if_pos hcur)
    exact ⟨hl,by unfold loadOrDiscard; rw [hl]⟩
  · intro hv
    have hcur : ¬c.isCompatible = true := fun e => hv (beq_iff_eq.mp e)
    have hl : load disk dir = .error (incompatible c.version) := hload.trans (if_neg hcur)
    exact ⟨hl,rfl,by unfold loadOrDiscard; rw [hl]⟩

/-- A save is done just where the disk has room for its files, and what it left is what a load gives. -/
theorem readsBack_save (disk : Disk) (dir : String) {c : Persisted} (hc : c.IsDated) :
    ((save disk dir c).1 = .ok () ↔ CanHold disk dir) ∧
      (CanHold disk dir → ReadsBack (save disk dir c).2 dir c) := by
  have hsaved : CanHold disk dir → (save disk dir c).1 = .ok () ∧
      ReadsBack (save disk dir c).2 dir c := by
    intro h
    have hl := short_place h.short
    obtain ⟨t,q,hs,ht,hf⟩ := exists_save h c
    rw [hs]
    exact ⟨rfl,readsBack_of_file hc ht hl hf⟩
  exact ⟨⟨canHold_of_save,fun h => (hsaved h).1⟩,fun h => (hsaved h).2⟩

/-- A cache with one importer, and an outcome with every kind of field. -/
def oneImporter (version : String) : Persisted where
  version := version
  cacheKey := some "key"
  files := Table.empty.insert "src/app.ts" {
    hash := "abc"
    specs := Table.empty.insert "./lib\n" {
      resolvedType := .unresolved
      reason := some .resolverBudgetExhausted
      exhausted := [.fallbackDepth,.filesystemProbe]
      isEphemeral := true
      expiresAt := some (-1) } }
  lookup := some ⟨"1","root","files","rules",["src/app.ts","src/app.ts"]⟩

theorem readsBack_save_oneImporter :
    load (save {} "/r/cache" (oneImporter Persisted.currentVersion)).2 "/r/cache" =
        .ok (some (oneImporter Persisted.currentVersion)) ∧
      loadOrDiscard (save {} "/r/cache" (oneImporter "v2")).2 "/r/cache" = none := by
  have hdated : ∀ version, (oneImporter version).IsDated := by
    intro version f hf e he n hn
    obtain rfl := List.mem_singleton.mp hf
    obtain rfl := List.mem_singleton.mp he
    obtain rfl := Option.some.inj hn
    decide
  have hroom : CanHold {} "/r/cache" :=
    ⟨⟨⟨[(["r","cache"],.dir),(["r"],.dir)]⟩,by decide +kernel,by decide +kernel,
      by decide +kernel⟩,by decide⟩
  have hcurrent := (readsBack_save {} "/r/cache" (hdated Persisted.currentVersion)).2 hroom
  have hother := (readsBack_save {} "/r/cache" (hdated "v2")).2 hroom
  exact ⟨(hcurrent.current rfl).1,(hother.other (by decide)).2.2⟩

end Cache.Store
end ImportResolution
