import Mathlib.Data.List.DropRight
import ImportResolution.Proofs.Confinement
import ImportResolution.Proofs.Nearest

/-! Normal forms of paths. To walk a normal form is to walk the path, from wherever the walk starts, so
a path joined onto a directory may be normalized before. A normal form stays one with an extension put
behind it and with a name below it. -/
namespace ImportResolution

namespace Text

theorem trimEndChars_append (p : Char → Bool) (s t : List Char) :
    trimEndChars p (s ++ trimEndChars p t) = trimEndChars p (s ++ t) := by
  simp only [trimEndChars,List.reverse_append,List.reverse_reverse,List.reverse_inj]
  rw [List.dropWhile_append,List.dropWhile_append,List.dropWhile_idempotent]

/-- What starts with no blank may be trimmed before it is put behind a text that is trimmed. -/
theorem trim_append_trim {s t : String} (h : ∀ c ∈ t.toList.head?, isBlank c = false) :
    trim (s ++ trim t) = trim (s ++ t) := by
  have hd : t.toList.dropWhile isBlank = t.toList := dropWhile_eq_self_iff_head?.mpr h
  have ht : (trim t).toList = trimEndChars isBlank t.toList := by
    rw [trim,trimWhere,String.toList_ofList,trimChars,hd]
  have hh : ∀ c ∈ (trim t).toList.head?, isBlank c = false := by
    obtain ⟨r,hr⟩ : trimEndChars isBlank t.toList <+: t.toList := by
      simpa [trimEndChars] using List.reverse_prefix.mpr
        (List.dropWhile_suffix isBlank (l := t.toList.reverse))
    intro c hc
    refine h c ?_
    rw [← hr,List.head?_append,← ht,Option.mem_def.mp hc]
    rfl
  have hw : ∀ u : String, trim u = dropEndWhile isBlank (dropWhile isBlank u) := fun u => by
    simp [trim,trimWhere,trimChars,dropEndWhile,dropWhile]
  rw [hw,hw (s ++ t),dropWhile_append_of_not hh,dropWhile_append_of_not h]
  apply String.toList_inj.mp
  simp only [dropEndWhile,String.toList_ofList,String.toList_append,ht,trimEndChars_append]

end Text

namespace Path

theorem isBlank_posix (c : Char) : Text.isBlank (if c = '\\' then '/' else c) = Text.isBlank c := by
  split
  · next h => rw [h]; decide
  · rfl

theorem toPosix_trim (s : String) : toPosix (Text.trim s) = Text.trim (toPosix s) := by
  have hb : Text.isBlank ∘ (fun c => if c = '\\' then '/' else c) = Text.isBlank :=
    funext isBlank_posix
  apply String.toList_inj.mp
  simp only [toPosix,Text.replaceChar,Text.trim,Text.trimWhere,Text.trimChars,Text.trimEndChars,
    String.toList_ofList,← List.map_reverse,List.dropWhile_map,hb]

theorem toPosix_append (s t : String) : toPosix (s ++ t) = toPosix s ++ toPosix t := by
  apply String.toList_inj.mp
  simp [toPosix,Text.replaceChar]

theorem toPosix_toPosix (s : String) : toPosix (toPosix s) = toPosix s :=
  toPosix_eq_self (backslash_not_mem_toPosix s)

/-- What starts with no blank may be trimmed and written with slashes before it is normalized behind
anything. -/
theorem normalize_append_clean {s t : String} (h : ∀ c ∈ t.toList.head?, Text.isBlank c = false) :
    normalize (s ++ toPosix (Text.trim t)) = normalize (s ++ t) := by
  have hp : toPosix (Text.trim (s ++ toPosix (Text.trim t))) = toPosix (Text.trim (s ++ t)) := by
    rw [toPosix_trim,toPosix_append,toPosix_toPosix,← toPosix_append,← toPosix_trim,
      Text.trim_append_trim h]
  simp only [normalize,hp]

theorem join_clean (dir : String) {spec : String}
    (h : ∀ c ∈ spec.toList.head?, Text.isBlank c = false) :
    join dir (toPosix (Text.trim spec)) = join dir spec := by
  have he := normalize_append_clean (s := "") h
  rw [String.empty_append,String.empty_append] at he
  simp only [join,he,normalize_append_clean h]

/-- To walk what a walk leaves is to walk what it walked, from wherever the walk starts. -/
theorem foldl_walkStep_walk (rooted : Bool) (xs stack : List String) :
    (walk false xs).foldl (walkStep rooted) stack = xs.foldl (walkStep rooted) stack := by
  induction xs using List.reverseRecOn with
  | nil => rfl
  | append_singleton xs x ih =>
    have hw : walk false (xs ++ [x]) = (walkStep false (walk false xs).reverse x).reverse := by
      simp [walk]
    rw [hw,List.foldl_append,List.foldl_cons,List.foldl_nil,← ih]
    by_cases hv : x = "" ∨ x = "."
    · simp [walkStep,hv]
    by_cases hu : x = ".."
    · subst hu
      rcases List.eq_nil_or_concat (walk false xs) with hn | ⟨front,last,hl⟩
      · simp [hn,walkStep]
      · rw [List.concat_eq_append] at hl
        by_cases hlast : last = ".."
        · simp [hl,hlast,walkStep]
        · -- The step up takes back a name, and it does so in both walks.
          obtain ⟨he,hd⟩ := ((mem_walk (hl ▸ List.mem_append_right front (.head _))).resolve_left
            hlast).2
          simp [hl,hlast,he,hd,walkStep]
    · simp [walkStep,hv,hu]

/-- A path as it is put together of its walk. -/
def render (rooted : Bool) (names : List String) : String :=
  if rooted then "/" ++ ofSegments names else ofSegments names

/-- What a path behind a directory comes to is what a walk through the directory and the path leaves. -/
theorem exists_normalize_slash (dir : String) : ∃ rooted above, ∀ t : String, '\\' ∉ t.toList →
    Text.IsTight t → normalize (dir ++ "/" ++ t) =
      render rooted (walk rooted (above ++ segments t)) := by
  refine ⟨isRooted (toPosix (Text.dropWhile Text.isBlank dir) ++ "/"),
    segments (toPosix (Text.dropWhile Text.isBlank dir)),fun t hp ht => ?_⟩
  obtain ⟨front,c,ht,hc⟩ := ht.exists_append
  have hslash : ∀ x ∈ ("/" ++ t).toList.head?, Text.isBlank x = false := by
    rw [String.toList_append]
    rintro x ⟨⟩
    decide
  have htrim : Text.trim (dir ++ "/" ++ t) = Text.dropWhile Text.isBlank dir ++ "/" ++ t := by
    rw [String.append_assoc,Text.trim,Text.trimWhere_eq_dropWhile ⟨'/' :: front,c,?_,hc⟩ hslash,
      Text.dropWhile_append_of_not hslash,String.append_assoc]
    rw [String.toList_append,ht]
    rfl
  have hposix : toPosix (Text.trim (dir ++ "/" ++ t)) =
      toPosix (Text.dropWhile Text.isBlank dir) ++ "/" ++ t := by
    rw [htrim,toPosix_append,toPosix_append,toPosix_eq_self hp]
    rfl
  generalize toPosix (Text.dropWhile Text.isBlank dir) = above at hposix ⊢
  have hr : isRooted (above ++ "/" ++ t) = isRooted (above ++ "/") :=
    Location.isRooted_append fun he => by simpa using congrArg String.toList he
  simp only [normalize,hposix,hr,segments_slash,render]

theorem up_not_mem_walk_rooted (xs : List String) : ".." ∉ walk true xs := by
  suffices h : ∀ stack : List String, ".." ∉ stack → ".." ∉ xs.foldl (walkStep true) stack by
    simpa [walk] using h [] (by simp)
  induction xs with
  | nil => exact fun _ h => h
  | cons x xs ih =>
    intro stack h
    refine ih _ fun hm => ?_
    simp only [walkStep] at hm
    split at hm
    · exact h hm
    split at hm
    · split at hm
      · split at hm
        · exact h (.tail _ hm)
        · exact h (by simpa using hm)
      · cases hm
    · next hu => exact (List.mem_cons.mp hm).elim (fun he => hu he.symm) h

/-- A normal form without blanks around it is its own normal form. -/
theorem normalize_of_trimmed {s : String} (ht : Text.trim (normalize s) = normalize s) :
    normalize (normalize s) = normalize s := by
  cases hrooted : isRooted (toPosix (Text.trim s)) with
  | false =>
    refine normalize_normalize ht (eq_false_of_ne_true fun hr => ?_)
    have hs : ∀ x ∈ walk false (segments (toPosix (Text.trim s))), IsStep x :=
      fun x hx => isStep_of_mem_walk hx
    simp only [normalize,hrooted,Bool.false_eq_true,if_false] at hr
    generalize walk false (segments (toPosix (Text.trim s))) = names at hr hs
    cases names with
    | nil => cases hr
    | cons x rest =>
      obtain ⟨t,he⟩ := exists_ofSegments_cons x rest
      have hx := hs x (.head _)
      rw [he,Location.isRooted_append hx.1,Location.not_isRooted_of_step hx] at hr
      cases hr
  | true =>
    have hb := backslash_not_mem_normalize s
    have hs : ∀ x ∈ walk true (segments (toPosix (Text.trim s))), IsStep x ∧ x ≠ ".." :=
      fun x hx => ⟨isStep_of_mem_walk hx,fun hu => up_not_mem_walk_rooted _ (hu ▸ hx)⟩
    have hform : normalize s = "" ++ "/" ++ ofSegments (walk true (segments (toPosix (Text.trim s)))) := by
      simp [normalize,hrooted]
    generalize walk true (segments (toPosix (Text.trim s))) = names at hs hform
    rw [hform] at ht hb ⊢
    have hr : isRooted ("" ++ "/" ++ ofSegments names) = true := by
      simp [isRooted,Text.startsWith,List.isPrefixOf]
    have hw : walk true (segments ("" ++ "/" ++ ofSegments names)) = names := by
      rw [segments_slash]
      cases names with
      | nil => decide
      | cons x rest =>
        rw [segments_ofSegments (fun y hy => (hs y hy).1.2.2) (List.cons_ne_nil _ _)]
        exact walk_names hs true
    simp only [normalize,ht,toPosix_eq_self hb,hr,hw]
    simp

/-- A path ends as its last segment does. -/
theorem getLast?_render (rooted : Bool) (front : List String) {last : String} (h : last ≠ "") :
    (render rooted (front ++ [last])).toList.getLast? = last.toList.getLast? := by
  have hs : ∀ s : String, (s ++ last).toList.getLast? = last.toList.getLast? := fun s => by
    rw [String.toList_append,List.getLast?_append_of_ne_nil _ (by simpa using h)]
  have ho : (ofSegments (front ++ [last])).toList.getLast? = last.toList.getLast? := by
    by_cases hf : front = []
    · rw [hf,List.nil_append,ofSegments_singleton]
    · rw [ofSegments_concat hf,hs]
  have hne : (ofSegments (front ++ [last])).toList ≠ [] := by
    rw [← List.getLast?_isSome,ho,List.getLast?_isSome]
    simpa using h
  cases rooted with
  | false => exact ho
  | true => rw [render,if_pos rfl,String.toList_append,List.getLast?_append_of_ne_nil _ hne,ho]

theorem walk_append_walk (rooted : Bool) (above xs : List String) :
    walk rooted (above ++ walk false xs) = walk rooted (above ++ xs) := by
  rw [walk,List.foldl_append,foldl_walkStep_walk,← List.foldl_append]
  rfl

theorem walk_concat (rooted : Bool) (xs : List String) {x : String} (h : IsStep x) (hu : x ≠ "..") :
    walk rooted (xs ++ [x]) = walk rooted xs ++ [x] := by
  simp [walk,walkStep_name rooted _ h.1 h.2.1 hu]

/-- A path that is joined onto a directory may be normalized before, if no blank stands around what it
leads to. -/
theorem join_normalize {dir spec : String} (hh : ∀ c ∈ spec.toList.head?, Text.isBlank c = false)
    (hr : isRooted (toPosix (Text.trim spec)) = false) (hn : normalize spec ≠ "")
    (ht : Text.trim (join dir spec) = join dir spec) : join dir (normalize spec) = join dir spec := by
  by_cases hd : dir = "" ∨ dir = "."
  · simp only [join,if_pos hd] at ht ⊢
    exact normalize_of_trimmed ht
  simp only [join,if_neg hd] at ht ⊢
  rw [← normalize_append_clean hh] at ht ⊢
  have hform : normalize spec = ofSegments (walk false (segments (toPosix (Text.trim spec)))) := by
    simp [normalize,hr]
  have hposix := backslash_not_mem_toPosix (Text.trim spec)
  have htight : Text.IsTight (toPosix (Text.trim spec)) := by
    have hi := Text.trim_append_trim (s := "") hh
    rw [String.empty_append,String.empty_append] at hi
    refine Text.isTight_of_trim (by rw [← toPosix_trim,hi]) fun he => hn ?_
    rw [hform,he]
    decide
  generalize toPosix (Text.trim spec) = path at *
  obtain ⟨front,last,hw⟩ := (List.eq_nil_or_concat (walk false (segments path))).resolve_left
    fun he => hn (by rw [hform,he]; rfl)
  rw [List.concat_eq_append] at hw
  have hs : ∀ x ∈ front ++ [last], IsStep x := fun x hx => isStep_of_mem_walk (hw ▸ hx)
  have hlast : IsStep last := hs last (by simp)
  obtain ⟨rooted,above,hjoin⟩ := exists_normalize_slash dir
  have hwalk : walk rooted (above ++ segments path) = walk rooted (above ++ (front ++ [last])) := by
    rw [← hw,walk_append_walk]
  have hl : Text.IsTight last := by
    by_cases hu : last = ".."
    · rw [hu]
      decide
    · rw [hjoin path hposix htight,hwalk,← List.append_assoc,walk_concat rooted _ hlast hu] at ht
      have hend := getLast?_render rooted (walk rooted (above ++ front)) hlast.1
      refine (congrArg (Option.map Text.isBlank) hend).symm.trans (Text.isTight_of_trim ht ?_)
      intro he
      rw [he] at hend
      exact hlast.1 (by simpa using hend.symm)
  have hrel : Text.IsTight (normalize spec) := by
    rw [hform,hw]
    exact (congrArg (Option.map Text.isBlank) (getLast?_render false front hlast.1)).trans hl
  rw [hjoin _ (backslash_not_mem_normalize spec) hrel,hjoin path hposix htight,hwalk,hform,hw,
    segments_ofSegments (fun x hx => (hs x hx).2.2) (by simp)]

theorem isRooted_iff {s : String} : isRooted s = true ↔ StartsBy '/' s := by
  rw [isRooted,Text.startsWith_iff]
  constructor
  · rintro ⟨r,hr⟩
    exact ⟨r,hr.symm⟩
  · rintro ⟨r,hr⟩
    exact ⟨r,hr.symm⟩

theorem isRooted_normalize {s : String} (h : isRooted s = true) : isRooted (normalize s) = true := by
  have hs : isRooted (toPosix (Text.trim s)) = true :=
    isRooted_iff.mpr (((isRooted_iff.mp h).trimWhere (by decide)).toPosix (by decide))
  have hslash : StartsBy '/' "/" := ⟨[],by simp⟩
  simp only [normalize,hs,if_true]
  exact isRooted_iff.mpr (hslash.append _)

instance (s : String) : Decidable (IsTidyName s) :=
  decidable_of_iff (IsTidy s ∧ (s ≠ "" ∧ s ≠ "." ∧ '/' ∉ s.toList) ∧ s ≠ "..")
    ⟨fun ⟨ht,hs,hu⟩ => ⟨ht,hs,hu⟩,fun h => ⟨h.toIsTidy,h.isStep,h.ne_up⟩⟩

/-- A normal form that is neither empty nor rooted and has no blanks around it. -/
structure IsNormal (s : String) : Prop extends IsPlain s where
  ups : ∃ k names, ".." ∉ names ∧ segments s = List.replicate k ".." ++ names

theorem isNormal_normalize {s : String} (ht : Text.trim (normalize s) = normalize s)
    (hr : isRooted (normalize s) = false) (hn : normalize s ≠ "") : IsNormal (normalize s) where
  toIsPlain := isPlain_normalize ht hr hn
  ups := by
    obtain ⟨names,k,hu,hw⟩ := walk_ups (segments (normalize s))
    have hf := filter_segments_normalize (normalize s)
    rw [normalize_of_trimmed ht,ht,toPosix_eq_self (backslash_not_mem_normalize s),hr,hw] at hf
    refine ⟨k,names,hu,?_⟩
    rw [← hf]
    exact (steps_of_isStep (isPlain_normalize ht hr hn).isStep).symm

namespace IsNormal
variable {s : String} (h : IsNormal s)
include h

theorem normalize_eq : normalize s = s := by
  obtain ⟨k,names,hu,hs⟩ := h.ups
  have hw : walk false (segments s) = segments s := by
    rw [hs]
    exact walk_replicate k fun x hx => ⟨h.isStep x (by simp [hs,hx]),fun he => hu (he ▸ hx)⟩
  simp only [normalize,h.trimmed,toPosix_eq_self h.posix,h.relative,hw,ofSegments_segments]
  rfl

theorem append {t : String} (ht : IsExtension t) : IsNormal (s ++ t) where
  toIsPlain := (h.toIsPlain.append ht).1
  ups := by
    obtain ⟨k,names,hu,hs⟩ := h.ups
    obtain ⟨front,last,hf,hc⟩ := segments_append s ht.single
    have hlast : ".." ≠ last ++ t :=
      (ht.append_ne_up (.inl (h.isStep last (by simp [hf])).1)).symm
    rw [hs] at hf
    rcases List.eq_nil_or_concat names with rfl | ⟨more,x,rfl⟩
    · -- Nothing but steps up: the last of them becomes a name.
      cases k with
      | zero => simp at hf
      | succ k =>
        rw [List.append_nil,List.replicate_succ'] at hf
        obtain ⟨rfl,-⟩ := List.append_inj' hf rfl
        exact ⟨k,[last ++ t],by simpa using hlast,hc⟩
    · rw [List.concat_eq_append,← List.append_assoc] at hf
      obtain ⟨rfl,-⟩ := List.append_inj' hf rfl
      refine ⟨k,more ++ [last ++ t],?_,by rw [hc,List.append_assoc]⟩
      rw [List.mem_append,List.mem_singleton,not_or]
      exact ⟨fun hm => hu (by simp [hm]),hlast⟩

theorem child {name : String} (hn : IsTidyName name) : IsNormal (s ++ "/" ++ name) where
  toIsPlain := h.toIsPlain.child hn.trimmed hn.posix hn.isStep
  ups := by
    obtain ⟨k,names,hu,hs⟩ := h.ups
    refine ⟨k,names ++ [name],?_,?_⟩
    · rw [List.mem_append,List.mem_singleton,not_or]
      exact ⟨hu,hn.ne_up.symm⟩
    · rw [segments_slash,segments_of_not_mem hn.isStep.2.2,hs,List.append_assoc]

end IsNormal

/-- From a directory that is no dot, a path is joined by a slash. -/
theorem join_ofSegments {names : List String} (h : ∀ s ∈ names, IsTidyName s) (hn : names ≠ [])
    (spec : String) : join (ofSegments names) spec = normalize (ofSegments names ++ "/" ++ spec) := by
  have hplain := isPlain_ofSegments_names h hn
  refine if_neg ?_
  rintro (he | he)
  · exact hplain.ne_empty he
  · exact (hplain.isStep "." (by simp [he,segments_of_not_mem])).2.1 rfl

/-- Tidy names below tidy names are joined as they stand. -/
theorem join_names {names : List String} (h : ∀ s ∈ names, IsTidyName s) {path : String}
    (hp : ∀ s ∈ segments path, IsTidyName s) :
    join (ofSegments names) path = child (ofSegments names) path := by
  by_cases hn : names = []
  · have hpath := normalize_ofSegments hp (segments_ne_nil path)
    rw [ofSegments_segments] at hpath
    have htop : ofSegments [] = "" := rfl
    rw [hn,htop,join,if_pos (.inl rfl),child,if_pos rfl,hpath]
  have hne := (isPlain_ofSegments_names h hn).ne_empty
  have hall : ∀ s ∈ names ++ segments path, IsTidyName s := by
    intro s hs
    exact (List.mem_append.mp hs).elim (h s) (hp s)
  have hnormal := normalize_ofSegments hall (by simp [hn])
  rw [ofSegments_append hn (segments_ne_nil path),ofSegments_segments] at hnormal
  rw [join_ofSegments h hn,hnormal,child,if_neg hne]

/-- A name directly in a directory stands in its normal form. -/
theorem normalize_child {s name : String} (ht : Text.trim (normalize s) = normalize s)
    (hr : isRooted (normalize s) = false) (h : IsTidyName name) :
    normalize (child (normalize s) name) = child (normalize s) name := by
  by_cases hn : normalize s = ""
  · have hname : normalize (ofSegments [name]) = ofSegments [name] :=
      normalize_ofSegments (by simpa using h) (by simp)
    rw [ofSegments_singleton] at hname
    rwa [child,if_pos hn]
  · rw [child,if_neg hn]
    exact ((isNormal_normalize ht hr hn).child h).normalize_eq

theorem isRooted_child {dir : String} (h : isRooted dir = true) (name : String) :
    isRooted (child dir name) = true := by
  have hn : dir ≠ "" := by
    rintro rfl
    revert h
    decide
  rw [child,if_neg hn,String.append_assoc]
  exact isRooted_iff.mpr ((isRooted_iff.mp h).append _)

end Path
end ImportResolution
