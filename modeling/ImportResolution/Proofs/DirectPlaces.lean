import Mathlib.Data.List.TakeWhile
import ImportResolution.Proofs.Trees

/-! Places without dots. A place that was collapsed is one; a walk to it meets nothing but its steps,
so that it is known by the entry it leads to. What holds a place is the shorter text. -/
namespace ImportResolution

-- No text is computed here, and no unifier should try to.
attribute [local irreducible] String.toList

namespace Path

theorem exists_of_isRooted {s : String} (h : isRooted s = true) : ∃ t, s = "/" ++ t :=
  Text.exists_of_startsWith h

theorem isRooted_rooted (t : String) : isRooted ("/" ++ t) = true := Text.startsWith_append "/" t

end Path

namespace Location
open ImportResolution.Path (IsStep steps)

/-- No segment of the place is a dot or two. -/
def IsDirect (place : String) : Prop := ∀ s ∈ Path.segments place, s ≠ "." ∧ s ≠ ".."

/-- The place starts with no dot and takes no step up; dots within are void. -/
structure IsClear (place : String) : Prop where
  head_ne : (Path.segments place).head? ≠ some "."
  up_not_mem : ".." ∉ Path.segments place

theorem IsDirect.isClear {place : String} (h : IsDirect place) : IsClear place where
  head_ne hh := (h "." (List.mem_of_head? hh)).1 rfl
  up_not_mem hm := (h ".." hm).2 rfl

theorem IsDirect.append {s t : String} (h : IsDirect s) (ht : '/' ∉ t.toList) (hl : 2 < t.length) :
    IsDirect (s ++ t) := by
  obtain ⟨front,last,hs,hst⟩ := Path.segments_append s ht
  intro x hx
  rw [hst] at hx
  rcases List.mem_append.mp hx with hx | hx
  · exact h x (hs ▸ List.mem_append_left _ hx)
  · rw [List.mem_singleton.mp hx]
    have hlong : ∀ y : String, y.length ≤ 2 → last ++ t ≠ y := by
      rintro y hy rfl
      rw [String.length_append] at hy
      omega
    exact ⟨hlong "." (by decide +kernel),hlong ".." (by decide +kernel)⟩

/-! Parts and steps. -/

theorem filterMap_innerPart? (xs : List String) (h : ∀ s ∈ xs, '/' ∉ s.toList) :
    xs.filterMap innerPart? = ((xs.filter (· ≠ "")).filter (· ≠ ".")).map stepPart := by
  induction xs with
  | nil => rfl
  | cons s r ih =>
    have hr := ih fun t ht => h t (.tail _ ht)
    by_cases hv : s = "" ∨ s = "."
    · have hn : innerPart? s = none := if_pos hv
      rw [List.filterMap_cons_none hn,hr]
      rcases hv with rfl | rfl <;> simp
    · obtain ⟨he,hd⟩ := not_or.mp hv
      rw [List.filterMap_cons_some (innerPart?_step ⟨he,hd,h s (.head _)⟩),hr]
      simp [he,hd]

/-- The parts of a place are its steps, unless it starts with a dot. -/
theorem parts_eq_steps {place : String} (h : (Path.segments place).head? ≠ some ".") :
    parts place = (if isAbsolute place then [.root] else []) ++
      ((steps place).filter (· ≠ ".")).map stepPart := by
  have hslash : ∀ s ∈ Path.segments place, '/' ∉ s.toList := fun _ => Path.not_mem_of_mem_segments
  rw [steps,← filterMap_innerPart? _ hslash]
  cases hr : isAbsolute place with
  | true =>
    obtain ⟨t,rfl⟩ := Path.exists_of_isRooted hr
    have hv : innerPart? "" = none := rfl
    have hi : Path.isRooted ("/" ++ t) = true := hr
    simp [parts,Path.segments_rooted,hi,hv]
  | false =>
    have hi : Path.isRooted place = false := hr
    obtain ⟨first,rest,hs⟩ := List.exists_cons_of_ne_nil (Path.segments_ne_nil place)
    have hd : first ≠ "." := by
      rintro rfl
      exact h (by rw [hs]; rfl)
    cases hf : innerPart? first <;> simp [parts,hs,hi,hd,hf]

/-! What is collapsed. -/

theorem mem_foldl_collapseStep {n : String} (ps : List Part) (stack : List String)
    (h : n ∈ ps.foldl collapseStep stack) : n ∈ stack ∨ Part.name n ∈ ps := by
  induction ps generalizing stack with
  | nil => exact .inl h
  | cons p ps ih =>
    rcases ih _ h with h | h
    · cases p with
      | root => cases h
      | here => exact .inl h
      | up => exact .inl (List.mem_of_mem_tail h)
      | name s =>
        rcases List.mem_cons.mp h with rfl | h
        · exact .inr (.head _)
        · exact .inl h
    · exact .inr (.tail _ h)

theorem isDirect_collapse (s : String) : IsDirect (collapse s) := by
  have hnames : ∀ n ∈ ((parts s).foldl collapseStep []).reverse, IsStep n ∧ n ≠ ".." := by
    intro n hn
    rcases mem_foldl_collapseStep _ _ (List.mem_reverse.mp hn) with h | h
    · cases h
    · exact (of_mem_parts h).2
  unfold collapse
  generalize ((parts s).foldl collapseStep []).reverse = names at hnames ⊢
  have hjoined : IsDirect (Path.ofSegments names) := by
    intro x hx
    by_cases hn : names = []
    · have he : Path.segments (Path.ofSegments []) = [""] := by decide +kernel
      rw [hn,he] at hx
      rw [List.mem_singleton.mp hx]
      decide
    · rw [Path.segments_ofSegments (fun n hm => (hnames n hm).1.2.2) hn] at hx
      exact ⟨(hnames x hx).1.2.1,(hnames x hx).2⟩
  dsimp only
  split
  · intro x hx
    rw [Path.segments_rooted] at hx
    rcases List.mem_cons.mp hx with rfl | hx
    · decide
    · exact hjoined x hx
  · exact hjoined

theorem isAbsolute_collapse {s : String} (h : isAbsolute s = true) : isAbsolute (collapse s) = true := by
  simp only [collapse,h,if_true]
  exact Path.isRooted_rooted _

theorem isAbsolute_append {s : String} (h : isAbsolute s = true) (t : String) :
    isAbsolute (s ++ t) = true := by
  have hn : s ≠ "" := by
    rintro rfl
    exact absurd h (by decide +kernel)
  exact (isRooted_append hn).trans h

theorem isAbsolute_join {base : String} (h : isAbsolute base = true) (value : String) :
    isAbsolute (join base value) = true := by
  unfold join
  split
  · assumption
  · split
    · exact isAbsolute_append h value
    · exact isAbsolute_append (isAbsolute_append h "/") value

/-! What holds a place. -/

theorem isAbsolute_of_parent? {place above : String} (ha : isAbsolute place = true)
    (h : parent? place = some above) : isAbsolute above = true := by
  rw [parent?,if_pos ha] at h
  split at h
  · cases h
  · obtain rfl := Option.some.inj h
    exact Path.isRooted_rooted _

/-- An absolute place that nothing holds has no steps but dots. -/
theorem steps_of_parent?_none {place : String} (ha : isAbsolute place = true)
    (h : parent? place = none) : (steps place).filter (· ≠ ".") = [] := by
  rw [parent?,if_pos ha] at h
  split at h
  · next hl =>
    obtain ⟨t,rfl⟩ := Path.exists_of_isRooted ha
    rw [Path.segments_rooted,List.tail_cons,List.dropWhile_eq_nil_iff] at hl
    rw [steps,Path.segments_rooted,List.filter_filter,List.filter_eq_nil_iff]
    intro s hs
    rcases List.mem_cons.mp hs with rfl | hs
    · simp
    · have hv := hl s (List.mem_reverse.mpr hs)
      simp only [isVoid,Bool.or_eq_true,decide_eq_true_eq] at hv
      rcases hv with rfl | rfl <;> simp
  · cases h

end Location

namespace Disk
open ImportResolution.Path (steps)
variable {d : Disk}

/-- A walk that comes to something comes there without its dots too. -/
theorem walkFrom_filter {spot : Spot} {names : List String} {t : Spot}
    (h : d.walkFrom spot names = .ok t) : d.walkFrom spot (names.filter (· ≠ ".")) = .ok t := by
  induction names generalizing spot with
  | nil => exact h
  | cons s rest ih =>
    rw [walkFrom_cons] at h
    cases hg : d.goOn spot s with
    | error e =>
      rw [hg] at h
      cases h
    | ok next =>
      rw [hg] at h
      have hr := ih h
      by_cases hs : s = "."
      · subst hs
        have hsame : spot = next := by
          unfold goOn at hg
          split at hg
          · cases hg
          · cases hg
          · exact Except.ok.inj hg
        rw [List.filter_cons_of_neg (by simp),hsame]
        exact hr
      · rw [List.filter_cons_of_pos (by simpa using hs),walkFrom_cons,hg]
        exact hr

/-- The regular file that a place leads to. -/
def fileAt? (d : Disk) (place : String) : Option (List String) :=
  match d.locate place with
  | .ok (.taken path (.file _)) => some path
  | _ => none

theorem exists_fileAt?_of_readText {place text : String} (h : d.readText place = .ok text) :
    ∃ path, d.fileAt? place = some path := by
  unfold readText at h
  split at h
  · next content hr =>
    unfold read at hr
    split at hr
    · next path _ hl => exact ⟨path,by simp only [fileAt?,hl]⟩
    all_goals cases hr
  · cases h

/-- A place without two dots leads to the file under its steps. -/
theorem of_fileAt? {place : String} {path : List String} (hu : ".." ∉ Path.segments place)
    (h : d.fileAt? place = some path) : path = (steps place).filter (· ≠ ".") ∧ path ≠ [] ∧
      ∃ content, (path,.file content) ∈ d.entries := by
  unfold fileAt? at h
  split at h
  · next p content hl =>
    obtain rfl := Option.some.inj h
    have hw := walkFrom_filter (walkFrom_of_reach (reach_of_locate hl)).1
    have hn : ∀ s ∈ (steps place).filter (· ≠ "."), s ≠ "." ∧ s ≠ ".." := by
      intro s hs
      obtain ⟨hs,hd⟩ := List.mem_filter.mp hs
      exact ⟨by simpa using hd,fun he => hu (he ▸ (List.mem_filter.mp hs).1)⟩
    obtain ⟨hp,hat⟩ := at?_of_walkFrom hn hw
    rw [List.nil_append] at hp
    have hne : p ≠ [] := by
      intro he
      rw [← hp,he] at hw
      cases hw
    exact ⟨hp,hne,content,mem_of_at? (hat (hp ▸ hne)).2 hne⟩
  · cases h

end Disk
end ImportResolution
