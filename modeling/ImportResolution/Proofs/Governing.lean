import ImportResolution.Proofs.Segments
import ImportResolution.TsConfig.Loader

/-! The configuration that governs a directory, told without a memory: the file in the nearest
directory at or above it that has one. A loader whose memory is true to this answers it, and its
memory stays true. -/
namespace ImportResolution

theorem Path.length_parent_lt {dir : String} (h : dir ≠ "") :
    (Path.parent dir).length < dir.length := by
  simp only [Path.parent,Text.cutLast?]
  cases hc : Text.cutLastChars? '/' dir.toList with
  | none =>
    have hn : dir.toList ≠ [] := by simpa using h
    simpa [← String.length_toList] using List.length_pos_iff.mpr hn
  | some cut =>
    obtain ⟨ha,-⟩ := Text.append_of_cutLastChars? hc
    have hl := congrArg List.length ha
    simp only [List.length_append,List.length_cons,String.length_toList] at hl
    simp only [Option.map_some,Text.pairOfChars,Option.getD_some,String.length_ofList]
    omega

namespace TsConfig
variable (v : DiskView) (root : String)

/-- Climbs from `dir`; a file that does not load hides those above it. -/
def governFuel : Nat → String → Option Profile
  | 0, _ => none
  | fuel+1, dir =>
    if v.isFile (placeIn root dir) then profileOf? v root (placeIn root dir)
    else if dir = "" then none
    else governFuel fuel (Path.parent dir)

def governDir (dir : String) : Option Profile := governFuel v root (dir.length+1) dir

/-- The profile that governs an importer. -/
def governing (importerRel : String) : Option Profile :=
  governDir v root (Path.parent (Path.normalize importerRel))

theorem governFuel_congr {m n : Nat} {dir : String} (hm : dir.length < m) (hn : dir.length < n) :
    governFuel v root m dir = governFuel v root n dir := by
  induction m generalizing n dir with
  | zero => omega
  | succ m ih =>
    obtain ⟨n,rfl⟩ : ∃ k, n = k+1 := ⟨n-1,by omega⟩
    simp only [governFuel]
    by_cases hd : dir = ""
    · simp [hd]
    · have hp := Path.length_parent_lt hd
      rw [ih (n := n) (by omega) (by omega)]

theorem governDir_step (dir : String) :
    governDir v root dir =
      if v.isFile (placeIn root dir) then profileOf? v root (placeIn root dir)
      else if dir = "" then none
      else governDir v root (Path.parent dir) := by
  rw [governDir,governFuel]
  by_cases hd : dir = ""
  · simp [hd]
  · have hp := Path.length_parent_lt hd
    rw [governDir,governFuel_congr v root hp (Nat.lt_succ_self _)]

/-- A profile bears a digest. -/
theorem fingerprint_of_profileOf? {place : String} {p : Profile}
    (h : profileOf? v root place = some p) :
    ∃ parts, p.fingerprint = Digest.ofParts Profile.version parts := by
  unfold profileOf? at h
  split at h
  · obtain ⟨rel,-,rfl⟩ := Option.map_eq_some_iff.mp h
    exact ⟨_,rfl⟩
  · cases h

theorem fingerprint_of_governFuel {fuel : Nat} {dir : String} {p : Profile}
    (h : governFuel v root fuel dir = some p) :
    ∃ parts, p.fingerprint = Digest.ofParts Profile.version parts := by
  induction fuel generalizing dir with
  | zero => cases h
  | succ fuel ih =>
    rw [governFuel] at h
    split at h
    · exact fingerprint_of_profileOf? v root h
    · split at h
      · cases h
      · exact ih h

namespace Loader

-- No text is computed here, and no unifier should try to.
attribute [local irreducible] String.toList

/-- What a loader remembers is what it would find afresh. -/
structure IsTrue (l : Loader) : Prop where
  byDir : ∀ dir p, l.byDir.find? dir = some p → p = governDir v root dir
  byFile : ∀ e ∈ l.byFile, ∃ dir,
    e.1 = Location.parts (placeIn root dir) ∧ e.2.2 = profileOf? v root (placeIn root dir)

theorem isTrue_empty : IsTrue v root {} where
  byDir := by simp
  byFile := by simp

variable {v root}

theorem mem_of_lookup {α β : Type} [BEq α] [LawfulBEq α] {xs : List (α × β)} {a : α} {b : β}
    (h : xs.lookup a = some b) : (a,b) ∈ xs := by
  obtain ⟨front,back,rfl,-⟩ := List.lookup_eq_some_iff.mp h
  simp

/-- Texts that name the place of one configuration are equal, since both are normal forms. -/
theorem placeIn_eq {dir other : String}
    (h : Location.parts (placeIn root dir) = Location.parts (placeIn root other)) :
    placeIn root dir = placeIn root other := by
  unfold placeIn at h ⊢
  exact Location.ofRelative_join_eq h

/-- The right answer for a directory, with a true memory after it. -/
def Answers (v : DiskView) (root dir : String) (found : Option Profile × Loader) : Prop :=
  found.1 = governDir v root dir ∧ found.2.IsTrue v root

theorem load_eq {l : Loader} (h : l.IsTrue v root) (dir : String) :
    (load v root l (placeIn root dir)).1 = profileOf? v root (placeIn root dir) ∧
      (load v root l (placeIn root dir)).2.IsTrue v root := by
  simp only [load]
  split
  · next e he =>
    obtain ⟨hl,-⟩ := Option.filter_eq_some_iff.mp he
    obtain ⟨other,hp,hv⟩ := h.byFile _ (mem_of_lookup hl)
    have ht : placeIn root dir = placeIn root other := by
      simp only at hp
      exact placeIn_eq hp
    rw [ht]
    exact ⟨hv,h⟩
  · refine ⟨rfl,{ byDir := h.byDir, byFile := ?_ }⟩
    intro e he
    rcases List.mem_cons.mp he with rfl | he
    · exact ⟨dir,rfl,rfl⟩
    · exact h.byFile e he

theorem Answers.remembered {dir : String} {found : Option Profile × Loader}
    (h : Answers v root dir found) :
    Answers v root dir
      (found.1,{ found.2 with byDir := found.2.byDir.insert dir found.1 }) := by
  obtain ⟨hv,ht⟩ := h
  refine ⟨hv,{ byDir := ?_, byFile := ht.byFile }⟩
  intro d q hq
  rw [Table.find?_insert] at hq
  split at hq
  · next hd => rw [hd,← Option.some.inj hq,hv]
  · exact ht.byDir d q hq

theorem findFuel_answers {fuel : Nat} {l : Loader} (h : l.IsTrue v root) {dir : String}
    (hf : dir.length < fuel) : Answers v root dir (findFuel v root fuel l dir) := by
  induction fuel generalizing dir with
  | zero => omega
  | succ fuel ih =>
    rw [findFuel]
    split
    · next p hp => exact ⟨h.byDir dir p hp,h⟩
    · apply Answers.remembered
      rw [Answers,governDir_step]
      split
      · exact load_eq h dir
      · split
        · exact ⟨rfl,h⟩
        · next hd => exact ih (Nat.lt_of_lt_of_le (Path.length_parent_lt hd) (Nat.le_of_lt_succ hf))

/-- A loader with a true memory finds what governs the importer. -/
theorem find_eq {l : Loader} (h : l.IsTrue v root) (importerRel : String) :
    (find v root l importerRel).1 = governing v root importerRel ∧
      (find v root l importerRel).2.IsTrue v root :=
  findFuel_answers h (Nat.lt_succ_self _)

end Loader
end TsConfig
end ImportResolution
