import ImportResolution.Proofs.NormalForms

/-! Paths below a directory. A path below the root that is put into a directory keeps its name and its
extension, and what stands before these is put there with it. -/
namespace ImportResolution

-- No text is computed here, and no unifier should try to.
attribute [local irreducible] String.toList

namespace Text

theorem cutLastChars?_append_cons (c : Char) (front back : List Char) :
    cutLastChars? c (front ++ c :: back) =
      some (((cutLastChars? c back).map fun cut => (front ++ c :: cut.1,cut.2)).getD (front,back)) := by
  induction front with
  | nil =>
    cases h : cutLastChars? c back <;> simp [cutLastChars?,h]
  | cons x front ih =>
    rw [List.cons_append,cutLastChars?,ih]
    cases cutLastChars? c back <;> rfl

theorem trim_sublist (s : String) : (trim s).toList.Sublist s.toList := by
  rw [trim,trimWhere,String.toList_ofList,trimChars,trimEndChars]
  have hd := List.reverse_sublist.mpr
    (List.dropWhile_sublist isBlank (l := (s.toList.dropWhile isBlank).reverse))
  rw [List.reverse_reverse] at hd
  exact hd.trans (List.dropWhile_sublist _)

theorem trim_trim (s : String) : trim (trim s) = trim s := by
  have hhead : ∀ t : List Char, ∀ c ∈ (t.dropWhile isBlank).head?, isBlank c = false := fun t =>
    dropWhile_eq_self_iff_head?.mp (List.dropWhile_idempotent _ _)
  refine trimWhere_eq_self_iff.mpr ⟨fun c hc => ?_,fun c hc => ?_⟩
  · rw [trim,trimWhere,String.toList_ofList,trimChars] at hc
    obtain ⟨back,hback⟩ : trimEndChars isBlank (s.toList.dropWhile isBlank) <+:
        s.toList.dropWhile isBlank := by
      rw [trimEndChars,← List.reverse_suffix,List.reverse_reverse]
      exact List.dropWhile_suffix _
    refine hhead s.toList c ?_
    rw [← hback,List.head?_append,Option.mem_def.mp hc]
    rfl
  · rw [trim,trimWhere,String.toList_ofList,trimChars,trimEndChars,List.getLast?_reverse] at hc
    exact hhead _ c hc

end Text

namespace Path

/-! What a walk leaves is part of what it walked, so that no normal form is longer than its text. -/

theorem walkStep_sublist (rooted : Bool) (stack : List String) (s : String) :
    (walkStep rooted stack s).Sublist (s :: stack) := by
  unfold walkStep
  split
  · exact List.sublist_cons_self _ _
  split
  · next hu =>
    split
    · split
      · exact (List.sublist_cons_self _ _).trans (List.sublist_cons_self _ _)
      split
      · exact List.sublist_cons_self _ _
      · rw [hu]
    · split
      · exact List.nil_sublist _
      · rw [hu]
  · exact List.Sublist.refl _

theorem walk_sublist (rooted : Bool) (xs : List String) : (walk rooted xs).Sublist xs := by
  suffices h : ∀ stack, (xs.foldl (walkStep rooted) stack).Sublist (xs.reverse ++ stack) by
    have hw := List.reverse_sublist.mpr (h [])
    rwa [List.append_nil,List.reverse_reverse] at hw
  induction xs with
  | nil => exact fun stack => List.Sublist.refl _
  | cons s r ih =>
    intro stack
    rw [List.reverse_cons,List.append_assoc,List.singleton_append]
    exact (ih _).trans ((walkStep_sublist rooted stack s).append_left _)

theorem length_ofSegments_le {xs ys : List String} (h : xs.Sublist ys) :
    (ofSegments xs).length ≤ (ofSegments ys).length := by
  have hcons : ∀ (s : String) (r : List String), (ofSegments r).length ≤ (ofSegments (s :: r)).length := by
    intro s r
    cases r with
    | nil => simp [ofSegments]
    | cons t r =>
      rw [ofSegments_cons_cons,String.length_append]
      omega
  induction h with
  | slnil => exact Nat.le_refl _
  | cons s _ ih => exact ih.trans (hcons s _)
  | @cons_cons xs ys s hs ih =>
    cases xs with
    | nil =>
      obtain ⟨t,ht⟩ := exists_ofSegments_cons s ys
      rw [ofSegments_singleton,ht,String.length_append]
      omega
    | cons x xs =>
      cases ys with
      | nil => cases hs
      | cons y ys =>
        rw [ofSegments_cons_cons,ofSegments_cons_cons,String.length_append,String.length_append s]
        rw [String.length_append,String.length_append]
        omega

/-- A path below the root in its normal form. -/
structure IsInner (s : String) : Prop where
  normal : normalize s = s
  inside : isInside s = true

instance (s : String) : Decidable (IsInner s) :=
  decidable_of_iff (normalize s = s ∧ isInside s = true) ⟨fun ⟨hn,hi⟩ => ⟨hn,hi⟩,fun h => ⟨h.1,h.2⟩⟩

/-- The start of a path below the root: steps down, and no blank in front of them. -/
structure IsFront (s : String) : Prop where
  clear : ∀ c ∈ s.toList.head?, Text.isBlank c = false
  posix : '\\' ∉ s.toList
  down : ∀ x ∈ segments s, IsStep x ∧ x ≠ ".."

namespace IsFront
variable {s t : String} (h : IsFront s)
include h

theorem ne_empty : s ≠ "" := by
  rintro rfl
  exact (h.down "" (by rw [segments_empty]; exact .head _)).1.1 rfl

theorem ne_dot : s ≠ "." := by
  rintro rfl
  exact (h.down "." (by decide +kernel)).1.2.1 rfl

theorem relative : isRooted s = false := by
  obtain ⟨x,rest,hs⟩ := List.exists_cons_of_ne_nil (segments_ne_nil s)
  have hx := (h.down x (hs ▸ .head _)).1
  obtain ⟨t,ht⟩ := exists_ofSegments_cons x rest
  rw [← ofSegments_segments s,hs,ht,Location.isRooted_append hx.1]
  exact Location.not_isRooted_of_step hx

theorem slash (hp : '\\' ∉ t.toList) (ht : ∀ x ∈ segments t, IsStep x ∧ x ≠ "..") :
    IsFront (s ++ "/" ++ t) where
  clear := by
    rw [String.append_assoc,String.toList_append,List.head?_append,
      Option.or_of_isSome (List.isSome_head?.mpr (by simpa using h.ne_empty))]
    exact h.clear
  posix := by
    simp only [String.toList_append,List.mem_append,not_or]
    exact ⟨⟨h.posix,by decide +kernel⟩,hp⟩
  down := by
    intro x hx
    rw [segments_slash] at hx
    exact (List.mem_append.mp hx).elim (h.down x) (ht x)

theorem isInner (ht : Text.IsTight s) : IsInner s := by
  have htrim : Text.trim s = s := by
    refine Text.trimWhere_eq_self_iff.mpr ⟨h.clear,?_⟩
    obtain ⟨front,c,hs,hc⟩ := ht.exists_append
    rw [hs,List.getLast?_concat]
    rintro x ⟨⟩
    exact hc
  refine ⟨normalize_of_names htrim h.posix h.relative h.down,?_⟩
  have he : escapesRoot s = false :=
    escapesRoot_of_not_mem fun hu => (h.down _ hu).2 rfl
  simp [isInside,h.ne_empty,h.relative,he]

end IsFront

theorem IsFront.of_slash {s t : String} (h : IsFront (s ++ "/" ++ t)) : IsFront s where
  clear := by
    intro c hc
    refine h.clear c ?_
    rwa [String.append_assoc,String.toList_append,List.head?_append,
      Option.or_of_isSome (Option.isSome_of_mem hc)]
  posix hb := h.posix (by simp [hb])
  down x hx := h.down x (by rw [segments_slash]; exact List.mem_append_left _ hx)

namespace IsInner
variable {s t : String} (h : IsInner s)
include h

theorem trimmed : Text.trim s = s := by
  have ht := Text.trim_sublist s
  refine String.toList_inj.mp (ht.eq_of_length (Nat.le_antisymm ht.length_le ?_))
  have hr : isRooted (toPosix (Text.trim s)) = false := by
    refine eq_false_of_ne_true fun hr => ?_
    have hi := h.inside
    have hn := h.normal
    simp only [normalize,hr,if_true] at hn
    have hrooted : isRooted s = true := hn ▸ Text.startsWith_append "/" _
    simp [isInside,hrooted] at hi
  have hform : s = ofSegments (walk false (segments (toPosix (Text.trim s)))) := by
    have hn := h.normal
    simp only [normalize,hr] at hn
    exact hn.symm
  have hl := length_ofSegments_le (walk_sublist false (segments (toPosix (Text.trim s))))
  rw [← hform,ofSegments_segments] at hl
  rwa [← String.length_toList,← String.length_toList,toPosix,Text.replaceChar,String.toList_ofList,
    List.length_map] at hl

theorem isFront : IsFront s where
  clear := (Text.trimWhere_eq_self_iff.mp h.trimmed).1
  posix := h.normal ▸ backslash_not_mem_normalize s
  down := by
    intro x hx
    have hi := h.inside
    simp only [isInside,Bool.and_eq_true,bne_iff_ne,Bool.not_eq_true'] at hi
    obtain ⟨⟨hn,hr⟩,-⟩ := hi
    have hplain : IsPlain (normalize s) :=
      isPlain_normalize (h.normal.symm ▸ h.trimmed) (h.normal.symm ▸ hr) (h.normal.symm ▸ hn)
    rw [h.normal] at hplain
    refine ⟨hplain.isStep x hx,?_⟩
    rintro rfl
    have hu := up_not_mem_normalize (h.normal.symm ▸ h.inside)
    rw [h.normal] at hu
    exact hu hx

theorem tight : Text.IsTight s := Text.isTight_of_trim h.trimmed h.isFront.ne_empty

theorem slash (ht : IsInner t) : IsInner (s ++ "/" ++ t) :=
  (h.isFront.slash ht.isFront.posix ht.isFront.down).isInner (ht.tight.append _)

end IsInner

/-- The end of a name, long enough to be no step by itself. -/
structure IsEnding (t : String) : Prop where
  single : '/' ∉ t.toList
  posix : '\\' ∉ t.toList
  tight : Text.IsTight t
  long : 2 < t.toList.length

instance (t : String) : Decidable (IsEnding t) :=
  decidable_of_iff ('/' ∉ t.toList ∧ '\\' ∉ t.toList ∧ Text.IsTight t ∧ 2 < t.toList.length)
    ⟨fun ⟨hs,hp,ht,hl⟩ => ⟨hs,hp,ht,hl⟩,fun h => ⟨h.1,h.2,h.3,h.4⟩⟩

namespace IsEnding
variable {s t : String} (h : IsEnding t)
include h

theorem append (hs : '/' ∉ s.toList) (hp : '\\' ∉ s.toList) : IsEnding (s ++ t) where
  single := by rw [String.toList_append,List.mem_append,not_or]; exact ⟨hs,h.single⟩
  posix := by rw [String.toList_append,List.mem_append,not_or]; exact ⟨hp,h.posix⟩
  tight := h.tight.append s
  long := by
    have hl := h.long
    rw [String.toList_append,List.length_append]
    omega

theorem isStep : IsStep t ∧ t ≠ ".." := by
  have hl : ∀ u : String, u.toList.length ≤ 2 → t ≠ u := by
    rintro u hu rfl
    have := h.long
    omega
  exact ⟨⟨hl _ (by decide +kernel),hl _ (by decide +kernel),h.single⟩,hl _ (by decide +kernel)⟩

theorem down : ∀ x ∈ segments t, IsStep x ∧ x ≠ ".." := by
  rw [segments_of_not_mem h.single]
  intro x hx
  rw [List.mem_singleton.mp hx]
  exact h.isStep

end IsEnding

theorem IsFront.ending {s t : String} (h : IsFront s) (ht : IsEnding t) : IsInner (s ++ "/" ++ t) :=
  (h.slash ht.posix ht.down).isInner (ht.tight.append _)

/-- The last name may end otherwise. -/
theorem IsInner.exchange {s t u : String} (h : IsInner (s ++ t)) (hs : s ≠ "") (ht : '/' ∉ t.toList)
    (hu : IsEnding u) : IsInner (s ++ u) := by
  have hf := h.isFront
  refine IsFront.isInner ⟨?_,?_,?_⟩ (hu.tight.append _)
  · have hsome : s.toList.head?.isSome := List.isSome_head?.mpr (by simpa using hs)
    have hc := hf.clear
    rw [String.toList_append,List.head?_append,Option.or_of_isSome hsome] at hc ⊢
    exact hc
  · have hp := hf.posix
    rw [String.toList_append,List.mem_append,not_or] at hp ⊢
    exact ⟨hp.1,hu.posix⟩
  · obtain ⟨front,last,hsegs,htsegs⟩ := segments_append s ht
    obtain ⟨front',last',hsegs',husegs⟩ := segments_append s hu.single
    obtain ⟨rfl,hl⟩ := List.append_inj' (hsegs.symm.trans hsegs') rfl
    obtain rfl := List.singleton_inj.mp hl
    have hlast : last ∈ segments s := hsegs ▸ List.mem_append_right _ (.head _)
    have hback : '\\' ∉ last.toList := by
      intro hb
      refine hf.posix ?_
      rw [String.toList_append,List.mem_append,← ofSegments_segments s,mem_toList_ofSegments (by decide)]
      exact .inl ⟨last,hlast,hb⟩
    have hdown := hf.down
    rw [htsegs] at hdown
    rw [husegs]
    intro x hx
    rcases List.mem_append.mp hx with hx | hx
    · exact hdown x (List.mem_append_left _ hx)
    · rw [List.mem_singleton.mp hx]
      exact (hu.append (not_mem_of_mem_segments hlast) hback).isStep

/-! Parts of a path that stands in a directory. -/

theorem child_of_ne_empty {d : String} (h : d ≠ "") (s : String) : child d s = d ++ "/" ++ s := if_neg h

section Slash
variable (d s : String)

theorem cutLast?_slash : Text.cutLast? '/' (d ++ "/" ++ s) =
    some (((Text.cutLast? '/' s).map fun cut => (d ++ "/" ++ cut.1,cut.2)).getD (d,s)) := by
  have h : (d ++ "/" ++ s).toList = d.toList ++ '/' :: s.toList := by simp
  rw [Text.cutLast?,h,Text.cutLastChars?_append_cons,Text.cutLast?]
  have ho : ∀ x : List Char, String.ofList (d.toList ++ '/' :: x) = d ++ "/" ++ String.ofList x := by
    intro x
    apply String.toList_inj.mp
    simp
  cases Text.cutLastChars? '/' s.toList <;> simp [Text.pairOfChars,ho]

@[simp]
theorem baseName_slash : baseName (d ++ "/" ++ s) = baseName s := by
  rw [baseName,cutLast?_slash,baseName]
  cases Text.cutLast? '/' s <;> rfl

theorem parent_slash : parent (d ++ "/" ++ s) =
    ((Text.cutLast? '/' s).map fun cut => d ++ "/" ++ cut.1).getD d := by
  rw [parent,cutLast?_slash]
  cases Text.cutLast? '/' s <;> rfl

@[simp]
theorem extension_slash : extension (d ++ "/" ++ s) = extension s := by
  rw [extension,baseName_slash,extension]

@[simp]
theorem withoutExtension_slash : withoutExtension (d ++ "/" ++ s) = d ++ "/" ++ withoutExtension s := by
  rw [withoutExtension,cutLast?_slash,withoutExtension]
  cases Text.cutLast? '/' s with
  | none => rfl
  | some cut => simp [String.append_assoc]

end Slash

theorem parent_eq_empty_iff {s : String} (h : isRooted s = false) : parent s = "" ↔ '/' ∉ s.toList := by
  unfold parent Text.cutLast?
  cases hc : Text.cutLastChars? '/' s.toList with
  | none => simp [(Text.cutLastChars?_eq_none _ _).mp hc]
  | some cut =>
    obtain ⟨hs,-⟩ := Text.append_of_cutLastChars? hc
    have hmem : '/' ∈ s.toList := by simp [← hs]
    simp only [Option.map_some,Option.getD_some,Text.pairOfChars,hmem,not_true_eq_false,iff_false]
    intro he
    rw [show cut.1 = [] by simpa using he,List.nil_append] at hs
    exact absurd (isRooted_iff.mpr ⟨cut.2,hs.symm⟩) (by simp [h])

/-- A relative path is its name in its parent. -/
theorem child_parent {s : String} (h : isRooted s = false) : child (parent s) (baseName s) = s := by
  by_cases hp : parent s = ""
  · have hm := (parent_eq_empty_iff h).mp hp
    have hone : segments s = [] ++ [s] := segments_of_not_mem hm
    rw [hp,child,if_pos rfl,baseName_of_segments hone]
  · rw [child_of_ne_empty hp]
    rw [parent] at hp
    rw [parent,baseName]
    cases hc : Text.cutLastChars? '/' s.toList with
    | none => simp [Text.cutLast?,hc] at hp
    | some cut =>
      obtain ⟨hs,-⟩ := Text.append_of_cutLastChars? hc
      have ho : s = String.ofList cut.1 ++ "/" ++ String.ofList cut.2 := by
        apply String.toList_inj.mp
        simp [← hs]
      simp only [Text.cutLast?,hc,Option.map_some,Option.getD_some,Text.pairOfChars]
      exact ho.symm

/-- The parent of a path is put into the directory with it. -/
theorem child_parent_slash {d s : String} (hd : d ≠ "") (h : isRooted s = false) (name : String) :
    child (parent (d ++ "/" ++ s)) name = d ++ "/" ++ child (parent s) name := by
  rw [parent_slash]
  by_cases hp : parent s = ""
  · have hm := (parent_eq_empty_iff h).mp hp
    rw [Text.cutLast?,(Text.cutLastChars?_eq_none _ _).mpr hm,hp]
    simp [child,hd]
  · rw [child_of_ne_empty hp]
    unfold parent at hp ⊢
    cases hc : Text.cutLast? '/' s with
    | none => simp [hc] at hp
    | some cut => simp [child,String.append_assoc,hd]

theorem parent_slash_ne_empty {d : String} (hd : d ≠ "") (s : String) : parent (d ++ "/" ++ s) ≠ "" := by
  rw [parent_slash]
  cases Text.cutLast? '/' s <;> simp [hd]

theorem child_append (dir s t : String) : child dir (s ++ t) = child dir s ++ t := by
  unfold child
  split
  · rfl
  · exact String.append_assoc.symm

theorem parent_append (s : String) {t : String} (h : '/' ∉ t.toList) : parent (s ++ t) = parent s := by
  obtain ⟨front,last,hs,ht⟩ := segments_append s h
  rw [parent_of_segments hs,parent_of_segments ht]

/-- Another name beside an inner path. -/
theorem IsInner.sibling {s name : String} (h : IsInner s) (hn : IsEnding name) (hi : IsInner name) :
    IsInner (child (parent s) name) := by
  by_cases hp : parent s = ""
  · rwa [hp,child,if_pos rfl]
  · have hs := child_parent h.isFront.relative
    rw [child_of_ne_empty hp] at hs ⊢
    exact (hs ▸ h.isFront).of_slash.ending hn

/-- What is inner as it stands in a directory is joined to it. -/
theorem join_of_isInner {dir name : String} (h : IsInner (child dir name)) :
    join dir name = child dir name := by
  by_cases he : dir = ""
  · rw [child,if_pos he] at h ⊢
    rw [join,if_pos (.inl he),h.normal]
  · rw [child_of_ne_empty he] at h ⊢
    have hd : dir ≠ "." := h.isFront.of_slash.ne_dot
    rw [join,if_neg (by simp [he,hd]),h.normal]

theorem join_parent_slash {d s name : String} (hd : IsInner d) (hs : isRooted s = false)
    (h : IsInner (child (parent s) name)) :
    join (parent (d ++ "/" ++ s)) name = d ++ "/" ++ join (parent s) name := by
  rw [join_of_isInner h,← child_parent_slash hd.isFront.ne_empty hs]
  refine join_of_isInner ?_
  rw [child_parent_slash hd.isFront.ne_empty hs]
  exact hd.slash h

theorem cutExtension_append (name : String) : (cutExtension name).1 ++ (cutExtension name).2 = name ∧
    ((cutExtension name).2 ≠ "" → (cutExtension name).1 ≠ "") := by
  unfold cutExtension Text.cutLast?
  cases hc : Text.cutLastChars? '.' name.toList with
  | none => exact ⟨String.append_empty,fun h => absurd rfl h⟩
  | some cut =>
    obtain ⟨hs,-⟩ := Text.append_of_cutLastChars? hc
    simp only [Option.map_some,Text.pairOfChars]
    split
    · exact ⟨String.append_empty,fun h => absurd rfl h⟩
    · next hn =>
      refine ⟨?_,fun _ => hn⟩
      apply String.toList_inj.mp
      simp [← hs]

theorem slash_not_mem_baseName (s : String) : '/' ∉ (baseName s).toList := by
  unfold baseName Text.cutLast?
  cases hc : Text.cutLastChars? '/' s.toList with
  | none => exact (Text.cutLastChars?_eq_none _ _).mp hc
  | some cut => simpa [Text.pairOfChars] using (Text.append_of_cutLastChars? hc).2

theorem slash_not_mem_extension (s : String) : '/' ∉ (extension s).toList := by
  intro h
  refine slash_not_mem_baseName s ?_
  rw [← (cutExtension_append (baseName s)).1,String.toList_append]
  exact List.mem_append_right _ h

/-- A path is its stem, which is not empty before an extension, and its extension. -/
theorem withoutExtension_append (s : String) : withoutExtension s ++ extension s = s ∧
    (extension s ≠ "" → withoutExtension s ≠ "") := by
  cases hc : Text.cutLast? '/' s with
  | none =>
    simp only [withoutExtension,extension,baseName,hc]
    exact cutExtension_append s
  | some cut =>
    obtain ⟨chars,hchars,rfl⟩ := Option.map_eq_some_iff.mp hc
    have hs : String.ofList chars.1 ++ "/" ++ String.ofList chars.2 = s := by
      apply String.toList_inj.mp
      simp [← (Text.append_of_cutLastChars? hchars).1]
    simp only [withoutExtension,extension,baseName,hc,Option.map_some,Option.getD_some,Text.pairOfChars]
    refine ⟨?_,fun _ => by simp⟩
    rw [String.append_assoc,(cutExtension_append _).1,hs]

/-! Specifiers that are joined to the directory of an importer. -/

theorem normalize_eq_walk {s : String} (ht : Text.trim s = s) (hp : '\\' ∉ s.toList)
    (hr : isRooted s = false) : normalize s = ofSegments (walk false (segments s)) := by
  simp only [normalize,ht,toPosix_eq_self hp,hr]
  rfl

theorem join_parent {importer spec : String} (h : IsInner importer) (hs : StartsBy '.' spec)
    (ht : Text.trim spec = spec) (hp : '\\' ∉ spec.toList) : join (parent importer) spec =
      ofSegments (walk false ((segments importer).dropLast ++ segments spec)) := by
  have hslash : StartsBy '/' "/" := ⟨[],by simp⟩
  have hrel : isRooted spec = false := hs.startsWith_eq_false hslash (by decide)
  by_cases he : parent importer = ""
  · rw [segments_of_not_mem ((parent_eq_empty_iff h.isFront.relative).mp he),he,join,if_pos (.inl rfl),
      normalize_eq_walk ht hp hrel]
    rfl
  · have hchild := child_parent h.isFront.relative
    rw [child_of_ne_empty he] at hchild
    have hfront : IsFront (parent importer) := (hchild ▸ h.isFront).of_slash
    have hsegs : segments importer = segments (parent importer) ++ [baseName importer] := by
      rw [← segments_of_not_mem (slash_not_mem_baseName importer),← segments_slash,hchild]
    have hn : spec ≠ "" := by
      obtain ⟨r,hr⟩ := hs
      rintro rfl
      simp at hr
    have htrim : Text.trim (parent importer ++ "/" ++ spec) = parent importer ++ "/" ++ spec := by
      obtain ⟨front,c,hc,hb⟩ := ((Text.isTight_of_trim ht hn).append (parent importer ++ "/")).exists_append
      refine Text.trimWhere_eq_self_iff.mpr ⟨?_,?_⟩
      · rw [String.append_assoc,String.toList_append,List.head?_append,
          Option.or_of_isSome (List.isSome_head?.mpr (by simpa using he))]
        exact hfront.clear
      · rw [hc,List.getLast?_concat]
        rintro x ⟨⟩
        exact hb
    have hposix : '\\' ∉ (parent importer ++ "/" ++ spec).toList := by
      simp only [String.toList_append,List.mem_append,not_or]
      exact ⟨⟨hfront.posix,by decide +kernel⟩,hp⟩
    have hrooted : isRooted (parent importer ++ "/" ++ spec) = false := by
      rw [String.append_assoc,Location.isRooted_append he]
      exact hfront.relative
    rw [join,if_neg (by simp [he,hfront.ne_dot]),normalize_eq_walk htrim hposix hrooted,segments_slash,
      hsegs,List.dropLast_concat]

/-- From a file in a directory, a specifier leads to the place that it leads to without, in the directory,
and to the directory itself from where it leads to the top. -/
theorem join_parent_importer {d importer spec : String} (hd : IsInner d) (h : IsInner importer)
    (hs : StartsBy '.' spec) (ht : Text.trim spec = spec) (hp : '\\' ∉ spec.toList)
    (hc : join (parent importer) spec = "" ∨ IsInner (join (parent importer) spec)) :
    join (parent (d ++ "/" ++ importer)) spec =
      if join (parent importer) spec = "" then d else d ++ "/" ++ join (parent importer) spec := by
  have hbelow : join (parent (d ++ "/" ++ importer)) spec = ofSegments (walk false (segments d ++
      walk false ((segments importer).dropLast ++ segments spec))) := by
    rw [join_parent (hd.slash h) hs ht hp,walk_append_walk,segments_slash,
      List.dropLast_append_of_ne_nil (segments_ne_nil importer),List.append_assoc]
  rw [hbelow]
  rw [join_parent h hs ht hp] at hc ⊢
  have hsteps : ∀ x ∈ walk false ((segments importer).dropLast ++ segments spec), IsStep x := by
    intro x hx
    rcases mem_walk hx with rfl | ⟨hm,he,hdot⟩
    · exact ⟨by decide,by decide,by decide +kernel⟩
    · refine ⟨he,hdot,?_⟩
      rcases List.mem_append.mp hm with hm | hm
      · exact not_mem_of_mem_segments (List.dropLast_subset _ hm)
      · exact not_mem_of_mem_segments hm
  generalize walk false ((segments importer).dropLast ++ segments spec) = names at hsteps hc ⊢
  by_cases hn : names = []
  · subst hn
    rw [if_pos (by decide +kernel),List.append_nil,walk_names hd.isFront.down,ofSegments_segments]
  · have hsegs := segments_ofSegments (fun x hx => (hsteps x hx).2.2) hn
    have hne : ofSegments names ≠ "" := by
      intro he
      rw [he,segments_empty] at hsegs
      exact (hsteps "" (hsegs ▸ .head _)).1 rfl
    have hdown := (hc.resolve_left hne).isFront.down
    rw [hsegs] at hdown
    rw [if_neg hne,walk_names fun x hx => (List.mem_append.mp hx).elim (hd.isFront.down x) (hdown x),
      ofSegments_append (segments_ne_nil d) hn,ofSegments_segments]

end Path

namespace Specifier

theorem trim_normalize (raw : String) : Text.trim (normalize raw) = normalize raw := Text.trim_trim _

theorem dropSuffixes_subset (s : List Char) : dropSuffixes s ⊆ s := by
  have hs : s.takeWhile (· ≠ '?') ⊆ s := (List.takeWhile_sublist _).subset
  intro x hx
  simp only [dropSuffixes] at hx
  split at hx
  · cases hx
  · next c r hr =>
    refine hs (hr ▸ ?_)
    exact (List.mem_cons.mp hx).elim (fun he => he ▸ .head _)
      fun hm => .tail _ ((List.takeWhile_sublist _).subset hm)

theorem backslash_not_mem_normalize (raw : String) : '\\' ∉ (normalize raw).toList := by
  intro h
  have hm := (Text.trim_sublist _).subset h
  rw [String.toList_ofList] at hm
  exact Path.backslash_not_mem_toPosix _ (dropSuffixes_subset _ hm)

end Specifier
end ImportResolution
