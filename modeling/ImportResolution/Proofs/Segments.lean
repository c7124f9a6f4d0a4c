import ImportResolution.Location

/-! Segments of paths and parts of places. A path is known by its segments, and a place below a root
by the segments that lead to it, so that two texts built from a normal form name one place only when
they are equal. -/
namespace ImportResolution

namespace Text

theorem dropWhile_eq_self_iff_head? {p : Char → Bool} {s : List Char} :
    s.dropWhile p = s ↔ ∀ c ∈ s.head?, p c = false := by
  cases s with
  | nil => simp
  | cons c r =>
    cases hc : p c with
    | false => simp [hc]
    | true =>
      have hn : r.dropWhile p ≠ c :: r := by
        intro h
        have hl := (List.dropWhile_suffix p (l := r)).length_le
        rw [h,List.length_cons] at hl
        omega
      simp [hc,hn]

theorem trimEndChars_eq_self_iff {p : Char → Bool} {s : List Char} :
    trimEndChars p s = s ↔ ∀ c ∈ s.getLast?, p c = false := by
  rw [trimEndChars,List.reverse_eq_iff,dropWhile_eq_self_iff_head?,List.head?_reverse]

/-- A text is trimmed when it neither starts nor ends with what is taken away. -/
theorem trimWhere_eq_self_iff {p : Char → Bool} {s : String} :
    trimWhere p s = s ↔
      (∀ c ∈ s.toList.head?, p c = false) ∧ ∀ c ∈ s.toList.getLast?, p c = false := by
  rw [← String.toList_inj,trimWhere,String.toList_ofList,trimChars,← dropWhile_eq_self_iff_head?,
    ← trimEndChars_eq_self_iff]
  constructor
  · intro h
    have hl : s.toList.length ≤ (s.toList.dropWhile p).length := by
      have ht := (List.dropWhile_suffix p (l := (s.toList.dropWhile p).reverse)).length_le
      have hk := congrArg List.length h
      rw [trimEndChars,List.length_reverse] at hk
      rw [List.length_reverse] at ht
      omega
    have hd : s.toList.dropWhile p = s.toList := (List.dropWhile_suffix p).eq_of_length_le hl
    exact ⟨hd,by rwa [hd] at h⟩
  · rintro ⟨hd,h⟩
    rw [hd,h]

theorem trimEndChars_append_of_not {p : Char → Bool} {s t : List Char}
    (h : ∀ c ∈ s.getLast?, p c = false) : trimEndChars p (s ++ t) = s ++ trimEndChars p t := by
  simp only [trimEndChars,List.reverse_append,List.dropWhile_append]
  split
  · next he =>
    rw [List.isEmpty_iff.mp he,List.reverse_nil,List.append_nil]
    exact trimEndChars_eq_self_iff.mpr h
  · rw [List.reverse_append,List.reverse_reverse]

/-- Only the end is trimmed behind a text that is trimmed. -/
theorem trimWhere_append_eq {p : Char → Bool} {s : String} (hs : trimWhere p s = s) (hn : s ≠ "")
    (t : String) : trimWhere p (s ++ t) = s ++ dropEndWhile p t := by
  obtain ⟨hh,hl⟩ := trimWhere_eq_self_iff.mp hs
  have hd : (s.toList ++ t.toList).dropWhile p = s.toList ++ t.toList := by
    refine dropWhile_eq_self_iff_head?.mpr fun c hc => hh c ?_
    rwa [List.head?_append,Option.or_of_isSome (List.isSome_head?.mpr (by simpa using hn))] at hc
  apply String.toList_inj.mp
  rw [trimWhere,trimChars,String.toList_append,hd,trimEndChars_append_of_not hl,dropEndWhile,
    String.toList_append,String.toList_ofList,String.toList_ofList]

theorem trimWhere_append {p : Char → Bool} {s t : String} (hs : trimWhere p s = s) (hn : s ≠ "")
    (ht : ∃ front c, t.toList = front ++ [c] ∧ p c = false) : trimWhere p (s ++ t) = s ++ t := by
  obtain ⟨front,c,ht,hc⟩ := ht
  have hl : ∀ x ∈ t.toList.getLast?, p x = false := by
    rw [ht,List.getLast?_concat]
    rintro x ⟨⟩
    exact hc
  rw [trimWhere_append_eq hs hn,dropEndWhile,trimEndChars_eq_self_iff.mpr hl,String.ofList_toList]

/-- A text whose last character is no blank. -/
def IsTight (s : String) : Prop := s.toList.getLast?.map isBlank = some false

instance (s : String) : Decidable (IsTight s) := inferInstanceAs (Decidable (_ = _))

theorem IsTight.exists_append {s : String} (h : IsTight s) :
    ∃ front c, s.toList = front ++ [c] ∧ isBlank c = false := by
  obtain ⟨c,hm,hb⟩ := Option.map_eq_some_iff.mp h
  obtain ⟨front,hs⟩ := List.getLast?_eq_some_iff.mp hm
  exact ⟨front,c,hs,hb⟩

theorem isTight_of_trim {s : String} (h : trim s = s) (hn : s ≠ "") : IsTight s := by
  obtain ⟨front,c,hs⟩ := (List.eq_nil_or_concat s.toList).resolve_left (by simpa using hn)
  rw [List.concat_eq_append] at hs
  have hl : s.toList.getLast? = some c := by rw [hs,List.getLast?_concat]
  rw [IsTight,hl,Option.map_some,(trimWhere_eq_self_iff.mp h).2 c hl]

theorem IsTight.append {t : String} (h : IsTight t) (s : String) : IsTight (s ++ t) := by
  obtain ⟨front,c,ht,hc⟩ := h.exists_append
  rw [IsTight,String.toList_append,ht,← List.append_assoc,List.getLast?_concat,Option.map_some,hc]

theorem IsTight.dropEndWhile_eq {s : String} (h : IsTight s) : dropEndWhile isBlank s = s := by
  obtain ⟨front,c,hs,hc⟩ := h.exists_append
  rw [dropEndWhile,trimEndChars_eq_self_iff.mpr,String.ofList_toList]
  rw [hs,List.getLast?_concat]
  rintro x ⟨⟩
  exact hc

theorem startsWith_trimWhere {p : Char → Bool} {head s : String} (hh : trimWhere p head = head)
    (h : startsWith head s = true) : startsWith head (trimWhere p s) = true := by
  by_cases hn : head = ""
  · rw [hn,startsWith_iff]
    exact List.nil_prefix
  · obtain ⟨rest,rfl⟩ := exists_of_startsWith h
    rw [trimWhere_append_eq hh hn]
    exact startsWith_append _ _

end Text

/-- The text starts with the character. -/
def StartsBy (c : Char) (s : String) : Prop := ∃ r, s.toList = c :: r

theorem startsBy_iff {c : Char} {s : String} :
    StartsBy c s ↔ Text.startsWith (String.singleton c) s = true := by
  rw [Text.startsWith_iff,String.toList_singleton,List.cons_prefix_iff]
  simp [StartsBy]

namespace StartsBy
variable {c d : Char} {s t : String} (h : StartsBy c s)
include h

theorem not_head {p : Char → Bool} (hc : p c = false) : ∀ x ∈ s.toList.head?, p x = false := by
  obtain ⟨r,hr⟩ := h
  rw [hr]
  rintro x ⟨⟩
  exact hc

theorem append (t : String) : StartsBy c (s ++ t) := by
  obtain ⟨r,hr⟩ := h
  exact ⟨r ++ t.toList,by rw [String.toList_append,hr,List.cons_append]⟩

theorem of_startsWith (ht : Text.startsWith s t = true) : StartsBy c t := by
  obtain ⟨rest,rfl⟩ := Text.exists_of_startsWith ht
  exact h.append rest

theorem trimWhere {p : Char → Bool} (hc : p c = false) : StartsBy c (Text.trimWhere p s) := by
  have hone : Text.trimWhere p (String.singleton c) = String.singleton c := by
    rw [Text.trimWhere_eq_self_iff,String.toList_singleton]
    constructor <;>
    · rintro x ⟨⟩
      exact hc
  exact startsBy_iff.mpr (Text.startsWith_trimWhere hone (startsBy_iff.mp h))

theorem toPosix (hc : c ≠ '\\') : StartsBy c (Path.toPosix s) := by
  obtain ⟨r,hr⟩ := h
  refine ⟨r.map fun x => if x = '\\' then '/' else x,?_⟩
  simp only [Path.toPosix,Text.replaceChar,String.toList_ofList,hr,List.map_cons,hc,if_false]

theorem startsWith_eq_false (ht : StartsBy d t) (hc : c ≠ d) : Text.startsWith t s = false := by
  refine eq_false_of_ne_true fun hs => hc ?_
  obtain ⟨r,hr⟩ := h
  obtain ⟨u,hu⟩ := ht.of_startsWith hs
  exact (List.cons.inj (hr.symm.trans hu)).1

theorem afterHead?_eq_none (ht : StartsBy d t) (hc : c ≠ d) : Text.afterHead? t s = none := by
  rw [Option.eq_none_iff_forall_ne_some]
  intro r hr
  have hs := h.startsWith_eq_false ht hc
  rw [← Text.afterHead?_eq_some_iff.mp hr,Text.startsWith_append] at hs
  cases hs

end StartsBy

namespace Path

theorem segments_slash (a b : String) : segments (a ++ "/" ++ b) = segments a ++ segments b := by
  have h : (a ++ "/" ++ b).toList = a.toList ++ '/' :: b.toList := by simp
  simp only [segments,Text.splitOn,h,List.splitOn_append_cons_self,List.map_append]

@[simp]
theorem segments_empty : segments "" = [""] := by decide

theorem segments_rooted (t : String) : segments ("/" ++ t) = "" :: segments t := by
  have h := segments_slash "" t
  rwa [String.empty_append,segments_empty,List.singleton_append] at h

theorem segments_of_not_mem {s : String} (h : '/' ∉ s.toList) : segments s = [s] := by
  simp [segments,Text.splitOn,List.splitOn_eq_singleton h]

theorem not_mem_splitOn (s : List Char) : ∀ l ∈ s.splitOn '/', '/' ∉ l := by
  induction s with
  | nil => simp
  | cons c r ih =>
    intro l hl
    rw [List.splitOn_cons_eq_if_modifyHead] at hl
    split at hl
    · rcases List.mem_cons.mp hl with rfl | hl
      · simp
      · exact ih l hl
    · next hc =>
      obtain ⟨first,rest,hr⟩ := List.exists_cons_of_ne_nil (List.splitOn_ne_nil '/' r)
      rw [hr] at hl ih
      rcases List.mem_cons.mp hl with rfl | hl
      · have hf := ih first (by simp)
        simp only [List.mem_cons,not_or]
        exact ⟨fun h => hc (beq_iff_eq.mpr h.symm),hf⟩
      · exact ih l (by simp [hl])

theorem not_mem_of_mem_segments {s x : String} (h : x ∈ segments s) : '/' ∉ x.toList := by
  obtain ⟨l,hl,rfl⟩ := List.mem_map.mp h
  simpa using not_mem_splitOn s.toList l hl

theorem toList_ofSegments (xs : List String) :
    (ofSegments xs).toList = ['/'].intercalate (xs.map String.toList) := by
  simp [ofSegments,String.toList_intercalate]

theorem segments_ofSegments {xs : List String} (hx : ∀ x ∈ xs, '/' ∉ x.toList) (hne : xs ≠ []) :
    segments (ofSegments xs) = xs := by
  have hs : (['/'].intercalate (xs.map String.toList)).splitOn '/' = xs.map String.toList :=
    List.splitOn_intercalate '/' (by simpa using hx) (by simpa using hne)
  simp [segments,Text.splitOn,toList_ofSegments,hs]

/-- What a walk leaves is a step up or one of the segments walked, and never void. -/
theorem mem_walkStep {rooted : Bool} {stack : List String} {segment x : String}
    (h : x ∈ walkStep rooted stack segment) :
    x ∈ stack ∨ x = ".." ∨ x = segment ∧ segment ≠ "" ∧ segment ≠ "." := by
  simp only [walkStep] at h
  split at h
  · exact .inl h
  · next hv =>
    simp only [not_or] at hv
    split at h
    · split at h
      · next last rest =>
        split at h
        · exact .inl (List.mem_cons_of_mem _ h)
        · split at h
          · exact .inl h
          · rcases List.mem_cons.mp h with rfl | h
            · exact .inr (.inl rfl)
            · exact .inl h
      · split at h <;> simp_all
    · rcases List.mem_cons.mp h with rfl | h
      · exact .inr (.inr ⟨rfl,hv⟩)
      · exact .inl h

theorem mem_foldl_walkStep {rooted : Bool} {x : String} (xs stack : List String)
    (h : x ∈ xs.foldl (walkStep rooted) stack) :
    x ∈ stack ∨ x = ".." ∨ x ∈ xs ∧ x ≠ "" ∧ x ≠ "." := by
  induction xs generalizing stack with
  | nil => exact .inl h
  | cons s r ih =>
    rcases ih _ h with h | h | ⟨h,hv⟩
    · rcases mem_walkStep h with h | h | ⟨rfl,hv⟩
      · exact .inl h
      · exact .inr (.inl h)
      · exact .inr (.inr ⟨by simp,hv⟩)
    · exact .inr (.inl h)
    · exact .inr (.inr ⟨by simp [h],hv⟩)

theorem mem_walk {rooted : Bool} {xs : List String} {x : String} (h : x ∈ walk rooted xs) :
    x = ".." ∨ x ∈ xs ∧ x ≠ "" ∧ x ≠ "." := by
  rcases mem_foldl_walkStep xs [] (List.mem_reverse.mp h) with h | h
  · simp at h
  · exact h

/-- A segment that leads from one place to another. -/
def IsStep (s : String) : Prop := s ≠ "" ∧ s ≠ "." ∧ '/' ∉ s.toList

theorem isStep_of_mem_walk {rooted : Bool} {s x : String} (h : x ∈ walk rooted (segments s)) :
    IsStep x := by
  rcases mem_walk h with rfl | ⟨h,he,hd⟩
  · exact ⟨by decide,by decide,by decide⟩
  · exact ⟨he,hd,not_mem_of_mem_segments h⟩

/-- What a normal form consists of is what its walk leaves. -/
theorem filter_segments_normalize (s : String) : (segments (normalize s)).filter (· ≠ "") =
    walk (isRooted (toPosix (Text.trim s))) (segments (toPosix (Text.trim s))) := by
  simp only [normalize]
  generalize toPosix (Text.trim s) = posix
  have hs : ∀ x ∈ walk (isRooted posix) (segments posix), IsStep x :=
    fun x hx => isStep_of_mem_walk hx
  generalize walk (isRooted posix) (segments posix) = xs at hs ⊢
  have hx : (segments (ofSegments xs)).filter (· ≠ "") = xs := by
    by_cases hn : xs = []
    · subst hn
      decide
    · rw [segments_ofSegments (fun x hx => (hs x hx).2.2) hn]
      exact List.filter_eq_self.mpr fun x hm => by simpa using (hs x hm).1
  split
  · rw [segments_rooted,List.filter_cons_of_neg (by simp),hx]
  · exact hx

/-- The segments of a normal form that are not empty are steps. -/
theorem isStep_of_mem_segments_normalize {s x : String} (h : x ∈ segments (normalize s))
    (hx : x ≠ "") : IsStep x := by
  have hm : x ∈ (segments (normalize s)).filter (· ≠ "") :=
    List.mem_filter.mpr ⟨h,by simpa using hx⟩
  rw [filter_segments_normalize] at hm
  exact isStep_of_mem_walk hm

/-- Steps up stand at the bottom of the stack of a walk that starts at no root. -/
theorem foldl_walkStep_ups (xs : List String) {names : List String} (k : Nat) (h : ".." ∉ names) :
    ∃ others n, ".." ∉ others ∧
      xs.foldl (walkStep false) (names ++ List.replicate k "..") = others ++ List.replicate n ".." := by
  induction xs generalizing names k with
  | nil => exact ⟨names,k,h,rfl⟩
  | cons s r ih =>
    rw [List.foldl_cons]
    by_cases hv : s = "" ∨ s = "."
    · simpa only [walkStep,if_pos hv] using ih k h
    · by_cases hu : s = ".."
      · subst hu
        cases names with
        | nil =>
          cases k with
          | zero => exact ih 1 h
          | succ k => exact ih (k+2) h
        | cons last rest =>
          have hl : last ≠ ".." := fun hl => h (by simp [hl])
          simpa [walkStep,hl] using ih k (fun hm => h (.tail _ hm))
      · have hn : ".." ∉ s :: names := by simp [h,Ne.symm hu]
        simpa only [walkStep,if_neg hv,if_neg hu,List.cons_append] using ih k hn

theorem walk_ups (xs : List String) : ∃ names k, ".." ∉ names ∧
    walk false xs = List.replicate k ".." ++ names := by
  obtain ⟨names,k,hn,hw⟩ := foldl_walkStep_ups xs 0 (List.not_mem_nil (a := ".."))
  refine ⟨names.reverse,k,by simpa using hn,?_⟩
  rw [List.replicate_zero,List.append_nil] at hw
  rw [walk,hw,List.reverse_append,List.reverse_replicate]

theorem ofSegments_cons_cons (s t : String) (r : List String) :
    ofSegments (s :: t :: r) = s ++ "/" ++ ofSegments (t :: r) := by
  apply String.toList_inj.mp
  simp [toList_ofSegments,List.intercalate]

theorem escapesRoot_ofSegments (xs : List String) : escapesRoot (ofSegments (".." :: xs)) = true := by
  cases xs with
  | nil => decide
  | cons s r =>
    have hs : Text.startsWith "../" (ofSegments (".." :: s :: r)) = true := by
      rw [Text.startsWith_iff,ofSegments_cons_cons]
      exact ⟨(ofSegments (s :: r)).toList,by simp⟩
    simp [escapesRoot,hs]

/-- A normal form inside the root takes no step up. -/
theorem up_not_mem_normalize {s : String} (h : isInside (normalize s) = true) :
    ".." ∉ segments (normalize s) := by
  simp only [isInside,normalize,Bool.and_eq_true,Bool.not_eq_true',bne_iff_ne,ne_eq] at h ⊢
  generalize toPosix (Text.trim s) = posix at h ⊢
  obtain ⟨⟨he,hr⟩,hu⟩ := h
  cases hrooted : isRooted posix with
  | true =>
    rw [hrooted,if_pos rfl] at hr
    simp [isRooted,Text.startsWith,List.isPrefixOf] at hr
  | false =>
    simp only [hrooted,Bool.false_eq_true,if_false] at he hu ⊢
    obtain ⟨names,k,hn,hw⟩ := walk_ups (segments posix)
    have hs : ∀ x ∈ List.replicate k ".." ++ names, IsStep x :=
      fun x hx => isStep_of_mem_walk (hw ▸ hx)
    rw [hw] at he hu ⊢
    cases k with
    | succ k =>
      rw [List.replicate_succ,List.cons_append,escapesRoot_ofSegments] at hu
      cases hu
    | zero =>
      have hne : names ≠ [] := fun hx => he (by rw [hx]; decide)
      rw [List.replicate_zero,List.nil_append] at hs ⊢
      rw [segments_ofSegments (fun x hx => (hs x hx).2.2) hne]
      exact hn

theorem segments_ne_nil (s : String) : segments s ≠ [] := by
  simp [segments,Text.splitOn]

theorem ofSegments_segments (s : String) : ofSegments (segments s) = s := by
  apply String.toList_inj.mp
  simp [toList_ofSegments,segments,Text.splitOn,Function.comp_def,List.intercalate_splitOn]

/-- What stands before a slash is the first segment. -/
theorem head?_segments {s head : String} (hh : '/' ∉ head.toList)
    (h : Text.startsWith (head ++ "/") s = true) : (segments s).head? = some head := by
  obtain ⟨r,hr⟩ := (Text.startsWith_iff _ _).mp h
  have hs : s = head ++ "/" ++ String.ofList r := by
    apply String.toList_inj.mp
    simp [← hr]
  rw [hs,segments_slash,segments_of_not_mem hh]
  rfl

theorem escapesRoot_iff {s : String} :
    escapesRoot s = true ↔ (segments s).head? = some ".." := by
  constructor
  · intro h
    rw [escapesRoot,Bool.or_eq_true,beq_iff_eq] at h
    rcases h with rfl | h
    · decide
    · exact head?_segments (by decide) h
  · intro h
    obtain ⟨rest,hr⟩ := List.head?_eq_some_iff.mp h
    rw [← ofSegments_segments s,hr]
    exact escapesRoot_ofSegments rest

theorem ofSegments_concat_append (xs : List String) (s t : String) :
    ofSegments (xs ++ [s]) ++ t = ofSegments (xs ++ [s ++ t]) := by
  induction xs with
  | nil => simp [ofSegments]
  | cons x r ih =>
    have hc : ∀ z : String, ofSegments (x :: r ++ [z]) = x ++ "/" ++ ofSegments (r ++ [z]) := by
      intro z
      obtain ⟨y,ys,hy⟩ := List.exists_cons_of_ne_nil (show r ++ [z] ≠ [] by simp)
      rw [List.cons_append,hy,ofSegments_cons_cons]
    rw [hc,hc,String.append_assoc,ih]

/-- A text without slashes goes on with the last segment. -/
theorem segments_append (s : String) {t : String} (ht : '/' ∉ t.toList) :
    ∃ front last, segments s = front ++ [last] ∧ segments (s ++ t) = front ++ [last ++ t] := by
  obtain ⟨front,last,hs⟩ := (List.eq_nil_or_concat (segments s)).resolve_left (segments_ne_nil s)
  rw [List.concat_eq_append] at hs
  refine ⟨front,last,hs,?_⟩
  have hm : ∀ x ∈ front ++ [last], '/' ∉ x.toList := fun x hx =>
    not_mem_of_mem_segments (hs ▸ hx)
  rw [← ofSegments_segments s,hs,ofSegments_concat_append]
  refine segments_ofSegments ?_ (by simp)
  intro x hx
  rcases List.mem_append.mp hx with hx | hx
  · exact hm x (List.mem_append_left _ hx)
  · rw [List.mem_singleton.mp hx,String.toList_append,List.mem_append,not_or]
    exact ⟨hm last (by simp),ht⟩

theorem ofSegments_append {front back : List String} (hf : front ≠ []) (hb : back ≠ []) :
    ofSegments (front ++ back) = ofSegments front ++ "/" ++ ofSegments back := by
  obtain ⟨t,r,rfl⟩ := List.exists_cons_of_ne_nil hb
  induction front with
  | nil => exact absurd rfl hf
  | cons s front ih =>
    cases front with
    | nil =>
      rw [List.singleton_append,ofSegments_cons_cons]
      simp [ofSegments]
    | cons x front =>
      have hi := ih (List.cons_ne_nil x front)
      rw [List.cons_append] at hi
      rw [List.cons_append,List.cons_append,ofSegments_cons_cons,hi,ofSegments_cons_cons]
      simp only [String.append_assoc]

theorem ofSegments_concat {front : List String} (hf : front ≠ []) (last : String) :
    ofSegments (front ++ [last]) = ofSegments front ++ "/" ++ last := by
  rw [ofSegments_append hf (List.cons_ne_nil last [])]
  simp [ofSegments]

/-- A text has no blanks around it when its first and its last segment have none. -/
theorem trim_of_segments {s : String} (h : ∀ x ∈ segments s, Text.trim x = x) :
    Text.trim s = s := by
  have hslash : Text.isBlank '/' = false := by decide
  refine Text.trimWhere_eq_self_iff.mpr ⟨?_,?_⟩
  · obtain ⟨first,rest,hs⟩ := List.exists_cons_of_ne_nil (segments_ne_nil s)
    have hfirst := (Text.trimWhere_eq_self_iff.mp (h first (hs ▸ .head _))).1
    rw [← ofSegments_segments s,hs]
    cases rest with
    | nil => simpa [ofSegments] using hfirst
    | cons t r =>
      rw [ofSegments_cons_cons]
      cases hc : first.toList with
      | nil => simp [hc,hslash]
      | cons c cs =>
        rw [hc] at hfirst
        simpa [hc] using hfirst
  · obtain ⟨front,last,hs⟩ := (List.eq_nil_or_concat (segments s)).resolve_left (segments_ne_nil s)
    rw [List.concat_eq_append] at hs
    have hlast := (Text.trimWhere_eq_self_iff.mp (h last (hs ▸ by simp))).2
    rw [← ofSegments_segments s,hs]
    by_cases hf : front = []
    · subst hf
      simpa [ofSegments] using hlast
    · rw [ofSegments_concat hf last]
      cases hc : last.toList.getLast? with
      | none =>
        rw [List.getLast?_eq_none_iff] at hc
        simp [hc,hslash]
      | some c =>
        rw [hc] at hlast
        have hl : ('/' :: last.toList).getLast? = some c := by
          rw [List.getLast?_cons,hc]
          rfl
        simpa [hl] using hlast

theorem toPosix_eq_self {s : String} (h : '\\' ∉ s.toList) : toPosix s = s := by
  have hm : s.toList.map (fun c => if c = '\\' then '/' else c) = s.toList.map id :=
    List.map_congr_left fun c hc => if_neg fun hb : c = '\\' => h (hb ▸ hc)
  rw [toPosix,Text.replaceChar,hm,List.map_id,String.ofList_toList]

theorem startsWith_toPosix {head s : String} (hh : '\\' ∉ head.toList)
    (h : Text.startsWith head s = true) : Text.startsWith head (toPosix s) = true := by
  rw [Text.startsWith_iff] at h ⊢
  rw [← toPosix_eq_self hh,toPosix,toPosix,Text.replaceChar,Text.replaceChar,String.toList_ofList,
    String.toList_ofList]
  exact h.map _

/-- Where nothing leads up, a walk leaves out what is no step. -/
theorem foldl_walkStep_filter {xs : List String} (h : ".." ∉ xs) (rooted : Bool) (stack : List String) :
    xs.foldl (walkStep rooted) stack = (xs.filter fun x => x ≠ "" ∧ x ≠ ".").reverse ++ stack := by
  induction xs generalizing stack with
  | nil => rfl
  | cons x xs ih =>
    rw [List.mem_cons,not_or] at h
    rw [List.foldl_cons,ih h.2]
    by_cases hv : x = "" ∨ x = "."
    · rcases hv with rfl | rfl <;> simp
    · rw [not_or] at hv
      simp [walkStep_name rooted stack hv.1 hv.2 (Ne.symm h.1),hv]

theorem walk_filter {xs : List String} (h : ".." ∉ xs) (rooted : Bool) :
    walk rooted xs = xs.filter fun x => x ≠ "" ∧ x ≠ "." := by
  rw [walk,foldl_walkStep_filter h,List.append_nil,List.reverse_reverse]

theorem foldl_walkStep_names {xs : List String} (h : ∀ x ∈ xs, IsStep x ∧ x ≠ "..") (rooted : Bool)
    (stack : List String) : xs.foldl (walkStep rooted) stack = xs.reverse ++ stack := by
  have hf : (xs.filter fun x => x ≠ "" ∧ x ≠ ".") = xs :=
    List.filter_eq_self.mpr fun x hx => decide_eq_true ⟨(h x hx).1.1,(h x hx).1.2.1⟩
  rw [foldl_walkStep_filter (fun hm => (h _ hm).2 rfl),hf]

theorem walk_names {xs : List String} (h : ∀ x ∈ xs, IsStep x ∧ x ≠ "..") (rooted : Bool) :
    walk rooted xs = xs := by
  rw [walk,foldl_walkStep_names h,List.append_nil,List.reverse_reverse]

/-- Steps up that nothing takes back stay. -/
theorem walk_replicate (k : Nat) {names : List String} (h : ∀ x ∈ names, IsStep x ∧ x ≠ "..") :
    walk false (List.replicate k ".." ++ names) = List.replicate k ".." ++ names := by
  have hups : ∀ j, (List.replicate k "..").foldl (walkStep false) (List.replicate j "..") =
      List.replicate (k + j) ".." := by
    induction k with
    | zero => intro j; simp
    | succ k ih =>
      intro j
      have hstep : walkStep false (List.replicate j "..") ".." = List.replicate (j + 1) ".." := by
        cases j <;> rfl
      rw [List.replicate_succ,List.foldl_cons,hstep,ih,Nat.add_right_comm,Nat.add_assoc]
  have hk := hups 0
  rw [List.replicate_zero,Nat.add_zero] at hk
  rw [walk,List.foldl_append,hk,foldl_walkStep_names h,List.reverse_append,List.reverse_replicate,
    List.reverse_reverse]

/-- A relative path of names without blanks around it is a normal form. -/
theorem normalize_of_names {s : String} (ht : Text.trim s = s) (hb : '\\' ∉ s.toList)
    (hr : isRooted s = false) (h : ∀ x ∈ segments s, IsStep x ∧ x ≠ "..") : normalize s = s := by
  simp only [normalize,ht,toPosix_eq_self hb,hr,walk_names h,ofSegments_segments]
  rfl

theorem mem_toList_ofSegments {c : Char} (hc : c ≠ '/') (xs : List String) :
    c ∈ (ofSegments xs).toList ↔ ∃ x ∈ xs, c ∈ x.toList := by
  induction xs with
  | nil => simp [ofSegments]
  | cons s r ih =>
    cases r with
    | nil => simp [ofSegments]
    | cons t r =>
      rw [ofSegments_cons_cons,String.toList_append,String.toList_append,List.mem_append,
        List.mem_append,ih]
      simp [hc]

theorem backslash_not_mem_toPosix (s : String) : '\\' ∉ (toPosix s).toList := by
  rw [toPosix,Text.replaceChar,String.toList_ofList,List.mem_map]
  rintro ⟨c,-,hc⟩
  split at hc
  · cases hc
  · next hn => exact hn hc

/-- Normal forms are written with forward slashes. -/
theorem backslash_not_mem_normalize (s : String) : '\\' ∉ (normalize s).toList := by
  have hp := backslash_not_mem_toPosix (Text.trim s)
  have ho : '\\' ∉ (ofSegments (walk (isRooted (toPosix (Text.trim s)))
      (segments (toPosix (Text.trim s))))).toList := by
    rw [mem_toList_ofSegments (by decide)]
    rintro ⟨x,hx,hc⟩
    rcases mem_walk hx with rfl | ⟨hx,-⟩
    · revert hc
      decide
    · rw [← ofSegments_segments (toPosix _),mem_toList_ofSegments (by decide)] at hp
      exact hp ⟨x,hx,hc⟩
  simp only [normalize]
  split
  · simpa using ho
  · exact ho

/-- A relative normal form without blanks around it is its own normal form. -/
theorem normalize_normalize {s : String} (ht : Text.trim (normalize s) = normalize s)
    (hr : isRooted (normalize s) = false) : normalize (normalize s) = normalize s := by
  have hb := backslash_not_mem_normalize s
  obtain ⟨names,k,hn,hs,hform⟩ : ∃ names k, ".." ∉ names ∧
      (∀ x ∈ List.replicate k ".." ++ names, IsStep x) ∧
        normalize s = ofSegments (List.replicate k ".." ++ names) := by
    obtain ⟨names,k,hn,hw⟩ := walk_ups (segments (toPosix (Text.trim s)))
    refine ⟨names,k,hn,fun x hx => isStep_of_mem_walk (hw ▸ hx),?_⟩
    rw [← hw]
    cases hrooted : isRooted (toPosix (Text.trim s)) with
    | true =>
      simp only [normalize,hrooted,if_true] at hr
      simp [isRooted,Text.startsWith,List.isPrefixOf] at hr
    | false => simp [normalize,hrooted]
  rw [hform] at ht hr hb ⊢
  by_cases he : List.replicate k ".." ++ names = []
  · rw [he]
    decide +kernel
  · have hsegments := segments_ofSegments (fun x hx => (hs x hx).2.2) he
    have hwalk := walk_replicate k fun x (hx : x ∈ names) =>
      ⟨hs x (List.mem_append_right _ hx),fun hu => hn (hu ▸ hx)⟩
    simp only [normalize,ht,toPosix_eq_self hb,hr,hsegments,hwalk]
    rfl

theorem baseName_of_segments {s last : String} {front : List String}
    (h : segments s = front ++ [last]) : baseName s = last := by
  unfold baseName Text.cutLast?
  cases hc : Text.cutLastChars? '/' s.toList with
  | none =>
    have hs := segments_of_not_mem ((Text.cutLastChars?_eq_none _ _).mp hc)
    have h : [] ++ [s] = front ++ [last] := hs ▸ h
    obtain ⟨-,h⟩ := List.append_inj' h rfl
    exact List.singleton_inj.mp h
  | some cut =>
    obtain ⟨hs,hn⟩ := Text.append_of_cutLastChars? hc
    have ht : s = String.ofList cut.1 ++ "/" ++ String.ofList cut.2 := by
      apply String.toList_inj.mp
      simp [← hs]
    rw [ht,segments_slash,segments_of_not_mem (s := String.ofList cut.2) (by simpa using hn)] at h
    obtain ⟨-,h⟩ := List.append_inj' h rfl
    exact List.singleton_inj.mp h

theorem parent_of_segments {s last : String} {front : List String}
    (h : segments s = front ++ [last]) : parent s = ofSegments front := by
  unfold parent Text.cutLast?
  cases hc : Text.cutLastChars? '/' s.toList with
  | none =>
    have hs := segments_of_not_mem ((Text.cutLastChars?_eq_none _ _).mp hc)
    have h : [] ++ [s] = front ++ [last] := hs ▸ h
    obtain ⟨rfl,-⟩ := List.append_inj' h rfl
    rfl
  | some cut =>
    obtain ⟨hs,hn⟩ := Text.append_of_cutLastChars? hc
    have ht : s = String.ofList cut.1 ++ "/" ++ String.ofList cut.2 := by
      apply String.toList_inj.mp
      simp [← hs]
    rw [ht,segments_slash,segments_of_not_mem (s := String.ofList cut.2) (by simpa using hn)] at h
    obtain ⟨rfl,-⟩ := List.append_inj' h rfl
    exact (ofSegments_segments _).symm

/-- What is put behind a name and has a dot gives it an extension. -/
theorem hasExtension_append {s t last : String} {front : List String}
    (hs : segments (s ++ t) = front ++ [last ++ t]) (hl : last ≠ "") (ht : '.' ∈ t.toList) :
    hasExtension (s ++ t) = true := by
  unfold hasExtension extension cutExtension Text.cutLast?
  rw [baseName_of_segments hs]
  cases hc : Text.cutLastChars? '.' (last ++ t).toList with
  | none => exact absurd (by simp [ht]) ((Text.cutLastChars?_eq_none _ _).mp hc)
  | some cut =>
    obtain ⟨he,hn⟩ := Text.append_of_cutLastChars? hc
    have hcut : cut.1 ≠ [] := by
      intro h0
      obtain ⟨c,r,hr⟩ := List.exists_cons_of_ne_nil (show last.toList ≠ [] by simpa using hl)
      rw [h0,String.toList_append,hr] at he
      exact hn ((List.cons.inj he).2 ▸ List.mem_append_right r ht)
    simp [Text.pairOfChars,hcut]

end Path

namespace Location
open ImportResolution.Path (IsStep)

/-- The part that a step adds to a place. -/
def stepPart (s : String) : Part := if s = ".." then .up else .name s

theorem stepPart_inj {s t : String} (h : stepPart s = stepPart t) : s = t := by
  simp only [stepPart] at h
  split at h <;> split at h <;> simp_all

theorem innerPart?_step {s : String} (h : IsStep s) : innerPart? s = some (stepPart s) := by
  obtain ⟨he,hd,-⟩ := h
  simp only [innerPart?,stepPart,he,hd,or_self,if_false]
  split <;> rfl

theorem isRooted_append {a b : String} (h : a ≠ "") : Path.isRooted (a ++ b) = Path.isRooted a := by
  have hn : a.toList ≠ [] := by simpa using h
  obtain ⟨c,r,hc⟩ := List.exists_cons_of_ne_nil hn
  simp [Path.isRooted,Text.startsWith,List.isPrefixOf,hc]

theorem not_isRooted_of_step {s : String} (h : IsStep s) : Path.isRooted s = false := by
  obtain ⟨he,-,hs⟩ := h
  have hn : s.toList ≠ [] := by simpa using he
  obtain ⟨c,r,hc⟩ := List.exists_cons_of_ne_nil hn
  have hcs : '/' ≠ c := fun h => hs (by rw [hc,h]; exact List.mem_cons_self)
  simpa [Path.isRooted,Text.startsWith,List.isPrefixOf,hc] using hcs

/-- The parts of a text whose segments go on by one step. -/
theorem parts_of_segments {a b s : String} (hs : IsStep s) (hr : Path.isRooted b = Path.isRooted a)
    {front : List String} (hf : front ≠ []) (hb : Path.segments b = front ++ [s])
    (ha : Path.segments a = front ∨ Path.segments a = front ++ [""]) :
    parts b = parts a ++ [stepPart s] := by
  obtain ⟨first,rest,rfl⟩ := List.exists_cons_of_ne_nil hf
  have hv : innerPart? "" = none := rfl
  rcases ha with ha | ha <;>
    simp [parts,ha,hb,hr,innerPart?_step hs,hv,List.filterMap_append,List.append_assoc]

theorem parts_join {base s : String} (hs : IsStep s) : parts (join base s) = parts base ++ [stepPart s] := by
  have ho : Path.segments s = [s] := Path.segments_of_not_mem hs.2.2
  have hn := not_isRooted_of_step hs
  simp only [join,isAbsolute,hn,Bool.false_eq_true,if_false]
  split
  · next hb =>
    by_cases hne : base = ""
    · subst hne
      have hv : innerPart? "" = none := rfl
      have hr : Path.isRooted "" = false := by decide
      simp [parts,ho,hn,hv,hr,innerPart?_step hs,hs.2.1]
    · obtain ⟨front,hfront⟩ : ∃ front : String, base = front ++ "/" := by
        have := (Text.endsWith_iff "/" base).mp (hb.resolve_left hne)
        obtain ⟨t,ht⟩ := this
        exact ⟨String.ofList t,by apply String.toList_inj.mp; simp [← ht]⟩
      have hb' : Path.segments (base ++ s) = Path.segments front ++ [s] := by
        rw [hfront,Path.segments_slash,ho]
      have ha' : Path.segments base = Path.segments front ++ [""] := by
        have := Path.segments_slash front ""
        simpa [hfront] using this
      exact parts_of_segments hs (isRooted_append hne) (by simp [Path.segments,Text.splitOn]) hb'
        (.inr ha')
  · next hb =>
    have hne : base ≠ "" := fun h => hb (.inl h)
    have hr : Path.isRooted (base ++ "/" ++ s) = Path.isRooted base := by
      rw [String.append_assoc,isRooted_append hne]
    exact parts_of_segments hs hr (by simp [Path.segments,Text.splitOn])
      (by rw [Path.segments_slash,ho]) (.inl rfl)

theorem parts_foldl_join {steps : List String} (h : ∀ s ∈ steps, IsStep s) (base : String) :
    parts (steps.foldl join base) = parts base ++ steps.map stepPart := by
  induction steps generalizing base with
  | nil => simp
  | cons s r ih =>
    rw [List.foldl_cons,ih (fun t ht => h t (by simp [ht])),parts_join (h s (by simp))]
    simp

theorem exists_normalize_eq_join (dir spec : String) : ∃ s, Path.join dir spec = Path.normalize s := by
  simp only [Path.join]
  split
  · exact ⟨spec,rfl⟩
  · exact ⟨dir ++ "/" ++ spec,rfl⟩

theorem isStep_of_mem_join {dir spec s : String}
    (h : s ∈ (Path.segments (Path.join dir spec)).filter (· ≠ "")) : IsStep s := by
  obtain ⟨x,hx⟩ := exists_normalize_eq_join dir spec
  rw [hx] at h
  obtain ⟨hm,hne⟩ := List.mem_filter.mp h
  exact Path.isStep_of_mem_segments_normalize hm (by simpa using hne)

/-- Joined paths that lead to one place lead to it by one text. -/
theorem ofRelative_join_eq {root p q s t : String}
    (h : parts (ofRelative root (Path.join p s)) = parts (ofRelative root (Path.join q t))) :
    ofRelative root (Path.join p s) = ofRelative root (Path.join q t) := by
  simp only [ofRelative] at h ⊢
  rw [parts_foldl_join fun _ => isStep_of_mem_join,
    parts_foldl_join fun _ => isStep_of_mem_join] at h
  have hm := List.append_cancel_left h
  rw [(List.map_inj_right fun _ _ => stepPart_inj).mp hm]

/-- A name among the parts is a step of the text that is not up. -/
theorem of_mem_parts {s n : String} (h : Part.name n ∈ parts s) :
    n ∈ Path.segments s ∧ IsStep n ∧ n ≠ ".." := by
  have hi : ∀ {segment}, segment ∈ Path.segments s → innerPart? segment = some (.name n) →
      n ∈ Path.segments s ∧ IsStep n ∧ n ≠ ".." := by
    intro segment hm hs
    simp only [innerPart?] at hs
    split at hs
    · cases hs
    · next hv =>
      obtain ⟨he,hd⟩ := not_or.mp hv
      split at hs
      · cases hs
      · next hu =>
        cases hs
        exact ⟨hm,⟨he,hd,Path.not_mem_of_mem_segments hm⟩,hu⟩
  unfold parts at h
  split at h
  · cases h
  · next first rest hseg =>
    rw [hseg] at hi
    rw [hseg]
    rcases List.mem_append.mp h with h | h
    · split at h
      · simp at h
      · split at h
        · simp at h
        · exact hi (.head _) (Option.mem_toList.mp h)
    · obtain ⟨segment,hm,hs⟩ := List.mem_filterMap.mp h
      exact hi (.tail _ hm) hs

/-- The path of a place below the root takes no step up. -/
theorem up_not_mem_within? {root abs rel : String} (h : within? root abs = some rel) :
    ".." ∉ Path.segments rel := by
  unfold within? at h
  split at h
  · cases h
  · next rest hrest =>
    have hparts : ∀ n ∈ (rest.filter (· ≠ Part.here)).filterMap Part.name?,
        IsStep n ∧ n ≠ ".." := by
      intro n hm
      obtain ⟨p,hp,hname⟩ := List.mem_filterMap.mp hm
      cases p <;> cases hname
      refine (of_mem_parts (s := abs) ?_).2
      rw [← Text.isPrefixOf?_eq_some_iff.mp hrest]
      exact List.mem_append_right _ (List.mem_filter.mp hp).1
    simp only at h
    split at h
    · cases h
    · obtain rfl := Option.some.inj h
      generalize (rest.filter (· ≠ Part.here)).filterMap Part.name? = names at hparts ⊢
      by_cases hn : names = []
      · subst hn
        decide
      · rw [Path.segments_ofSegments (fun n hm => (hparts n hm).1.2.2) hn]
        exact fun hm => (hparts _ hm).2 rfl

end Location
end ImportResolution
