import Mathlib.Algebra.Order.BigOperators.Group.List
import Mathlib.Algebra.Order.Group.Nat
import ImportResolution.Proofs.NormalForms

/-! Normal forms are canonical. A path is read as a walk that goes from directory to directory; what it
comes to is its normal form, and paths have one normal form just when their walks cannot be told apart. -/
namespace ImportResolution

namespace Path

def isSeparator (c : Char) : Bool := c == '/' || c == '\\'

/-- Segments of a path as it is written, between separators of both kinds. -/
def pieces (s : String) : List String := (s.toList.splitOnP isSeparator).map String.ofList

def startsAtRoot (s : String) : Bool := s.toList.head?.any isSeparator

theorem splitOn_posix (s : List Char) :
    (s.map fun c => if c = '\\' then '/' else c).splitOn '/' = s.splitOnP isSeparator := by
  induction s with
  | nil => rfl
  | cons c r ih =>
    rw [List.map_cons,List.splitOn_cons_eq_if_modifyHead,List.splitOnP_cons_eq_if_modifyHead,ih]
    by_cases hb : c = '\\'
    · simp [hb,isSeparator]
    · simp [hb,isSeparator]

theorem pieces_eq (s : String) : pieces s = segments (toPosix s) := by
  rw [pieces,segments,Text.splitOn,toPosix,Text.replaceChar,String.toList_ofList,splitOn_posix]

theorem startsAtRoot_eq (s : String) : startsAtRoot s = isRooted (toPosix s) := by
  rw [startsAtRoot,isRooted,Text.startsWith,toPosix,Text.replaceChar,String.toList_ofList]
  cases s.toList with
  | nil => simp
  | cons c r =>
    by_cases hb : c = '\\'
    · simp [hb,isSeparator]
    · simp [hb,isSeparator,List.isPrefixOf,Bool.beq_comm]

/-- A directory, as the names that lead to it from the root. -/
def IsDirectory (dir : List String) : Prop := ∀ x ∈ dir, IsStep x ∧ x ≠ ".."

/-- The directory that one segment leads to; above the root there is none. -/
def enter (dir : List String) (segment : String) : List String :=
  if segment = "" ∨ segment = "." then dir
  else if segment = ".." then dir.dropLast
  else dir ++ [segment]

/-- Where a walk ends that starts in the directory. -/
def visit (dir xs : List String) : List String := xs.foldl enter dir

theorem enter_eq {dir : List String} (h : ".." ∉ dir) (x : String) :
    enter dir x = (walkStep true dir.reverse x).reverse := by
  simp only [enter,walkStep]
  split
  · rw [List.reverse_reverse]
  split
  · rcases List.eq_nil_or_concat dir with rfl | ⟨front,last,rfl⟩
    · rfl
    · have hl : last ≠ ".." := fun he => h (by simp [he])
      simp [hl]
  · simp

theorem up_not_mem_enter {dir : List String} (h : ".." ∉ dir) (x : String) : ".." ∉ enter dir x := by
  simp only [enter]
  split
  · exact h
  split
  · exact fun hm => h (List.mem_of_mem_dropLast hm)
  · next hu => simpa [h] using Ne.symm hu

theorem visit_eq {dir : List String} (h : ".." ∉ dir) (xs : List String) :
    visit dir xs = (xs.foldl (walkStep true) dir.reverse).reverse := by
  induction xs generalizing dir with
  | nil => exact (List.reverse_reverse dir).symm
  | cons x xs ih =>
    have hi := ih (up_not_mem_enter h x)
    rw [enter_eq h,List.reverse_reverse,← enter_eq h] at hi
    exact hi

theorem visit_root (xs : List String) : visit [] xs = walk true xs := visit_eq List.not_mem_nil xs

/-- To walk what is left of a walk leads where the walk leads, from every directory. -/
theorem visit_walk {dir : List String} (h : ".." ∉ dir) (xs : List String) :
    visit dir (walk false xs) = visit dir xs := by
  rw [visit_eq h,visit_eq h,foldl_walkStep_walk]

theorem visit_append (dir xs ys : List String) : visit dir (xs ++ ys) = visit (visit dir xs) ys :=
  List.foldl_append

theorem visit_names {names : List String} (h : IsDirectory names) (dir : List String) :
    visit dir names = dir ++ names := by
  induction names generalizing dir with
  | nil => exact (List.append_nil dir).symm
  | cons x names ih =>
    obtain ⟨⟨he,hd,-⟩,hu⟩ := h x (.head _)
    have hx : enter dir x = dir ++ [x] := by simp [enter,he,hd,hu]
    rw [List.append_cons,← hx]
    exact ih (fun y hy => h y (.tail _ hy)) _

theorem visit_ups (dir : List String) (k : Nat) :
    visit dir (List.replicate k "..") = dir.take (dir.length - k) := by
  induction k generalizing dir with
  | zero => simp [visit]
  | succ k ih =>
    have hu : enter dir ".." = dir.dropLast := by simp [enter]
    have hi := ih dir.dropLast
    rw [List.length_dropLast,List.dropLast_eq_take,List.take_take,Nat.min_eq_left (Nat.sub_le _ _),
      Nat.sub_sub,Nat.add_comm 1 k,← List.dropLast_eq_take,← hu] at hi
    exact hi

/-- There is always one more name. -/
theorem exists_fresh (xs : List String) : ∃ z, IsStep z ∧ z ≠ ".." ∧ z ∉ xs := by
  -- It is longer than all the names, and than the segments that are none.
  let n := (xs.map String.length).sum + 3
  have hne : ∀ s : String, s.length < n → String.ofList (List.replicate n 'a') ≠ s := by
    rintro s hs rfl
    simp at hs
  have hlen : ∀ x ∈ xs, x.length < n := fun x hx =>
    Nat.lt_add_right 2 (Nat.lt_succ_of_le (List.le_sum_of_mem (List.mem_map_of_mem hx)))
  refine ⟨String.ofList (List.replicate n 'a'),⟨hne _ ?_,hne _ ?_,by simp⟩,hne _ ?_,
    fun hm => hne _ (hlen _ hm) rfl⟩
  all_goals exact Nat.lt_add_left _ (by decide)

/-- Walks from no root leave the same just when they end in the same directories, however deep one has to
start. -/
theorem walk_eq_iff {xs ys : List String} (hx : ∀ x ∈ walk false xs, IsStep x)
    (hy : ∀ y ∈ walk false ys, IsStep y) (depth : Nat) : walk false xs = walk false ys ↔
      ∀ dir, IsDirectory dir → depth ≤ dir.length → visit dir xs = visit dir ys := by
  constructor
  · intro h dir hd _
    have hu : ".." ∉ dir := fun hm => (hd _ hm).2 rfl
    rw [← visit_walk hu xs,h,visit_walk hu]
  intro h
  obtain ⟨names,k,hn,hw⟩ := walk_ups xs
  obtain ⟨others,j,ho,hv⟩ := walk_ups ys
  have hnames : IsDirectory names := fun x hm =>
    ⟨hx x (hw ▸ List.mem_append_right _ hm),fun he => hn (he ▸ hm)⟩
  have hothers : IsDirectory others := fun x hm =>
    ⟨hy x (hv ▸ List.mem_append_right _ hm),fun he => ho (he ▸ hm)⟩
  -- A directory of names that neither path has, deep enough for both.
  obtain ⟨z,hz,hzu,hf⟩ := exists_fresh (names ++ others)
  rw [List.mem_append,not_or] at hf
  have hd : IsDirectory (List.replicate (depth + k + j) z) := fun x hm => by
    rw [List.eq_of_mem_replicate hm]
    exact ⟨hz,hzu⟩
  have hu : ".." ∉ List.replicate (depth + k + j) z := fun hm => (hd _ hm).2 rfl
  have he := h _ hd (by rw [List.length_replicate]; omega)
  rw [← visit_walk hu xs,← visit_walk hu ys,hw,hv,visit_append,visit_append,visit_ups,visit_ups,
    visit_names hnames,visit_names hothers,List.length_replicate,List.take_replicate,
    List.take_replicate] at he
  have hc := congrArg (List.count z) he
  rw [List.count_append,List.count_append,List.count_eq_zero_of_not_mem hf.1,
    List.count_eq_zero_of_not_mem hf.2,List.count_replicate_self,List.count_replicate_self] at hc
  have hk : k = j := by omega
  subst hk
  rw [hw,hv,List.append_cancel_left he]

/-- What a normal form looks like: steps up in front, where it is not rooted, and names. -/
structure IsCanonical (rooted : Bool) (t : String) : Prop where
  posix : '\\' ∉ t.toList
  form : ∃ ups names, t = render rooted (List.replicate ups ".." ++ names) ∧ IsDirectory names ∧
    (rooted = true → ups = 0)

section Tidy
variable {s : String} (h : ∀ x ∈ pieces s, Text.trim x = x)
include h

theorem trim_of_pieces : Text.trim s = s :=
  trim_of_toPosix (trim_of_segments (by rwa [← pieces_eq]))

theorem normalize_eq_render :
    normalize s = render (startsAtRoot s) (walk (startsAtRoot s) (pieces s)) := by
  simp only [normalize,trim_of_pieces h,startsAtRoot_eq,pieces_eq,render]

theorem trim_normalize : Text.trim (normalize s) = normalize s := by
  refine trim_of_segments fun x hx => ?_
  by_cases he : x = ""
  · rw [he]
    decide
  have hm : x ∈ (segments (normalize s)).filter (· ≠ "") :=
    List.mem_filter.mpr ⟨hx,by simpa using he⟩
  rw [filter_segments_normalize,trim_of_pieces h,← pieces_eq] at hm
  rcases mem_walk hm with rfl | ⟨hm,-⟩
  · decide
  · exact h x hm

theorem isCanonical_normalize : IsCanonical (startsAtRoot s) (normalize s) where
  posix := backslash_not_mem_normalize s
  form := by
    have hs : ∀ x ∈ walk (startsAtRoot s) (pieces s), IsStep x := fun x hx =>
      isStep_of_mem_walk (pieces_eq s ▸ hx)
    rw [normalize_eq_render h]
    cases hr : startsAtRoot s with
    | true =>
      rw [hr] at hs
      refine ⟨0,_,rfl,fun x hx => ⟨hs x hx,?_⟩,fun _ => rfl⟩
      exact fun hu => up_not_mem_walk_rooted _ (hu ▸ hx)
    | false =>
      obtain ⟨names,k,hn,hw⟩ := walk_ups (pieces s)
      rw [hr,hw] at hs
      rw [hw]
      refine ⟨k,names,rfl,fun x hx => ⟨hs x (List.mem_append_right _ hx),?_⟩,fun hf => by cases hf⟩
      exact fun hu => hn (hu ▸ hx)

theorem normalize_eq_iff {t : String} (ht : ∀ x ∈ pieces t, Text.trim x = x)
    (hr : startsAtRoot t = startsAtRoot s) : normalize s = normalize t ↔
      walk (startsAtRoot s) (pieces s) = walk (startsAtRoot s) (pieces t) := by
  constructor
  · intro he
    have hf := filter_segments_normalize s
    rw [he,filter_segments_normalize t,trim_of_pieces h,trim_of_pieces ht,← startsAtRoot_eq,
      ← startsAtRoot_eq,← pieces_eq,← pieces_eq,hr] at hf
    exact hf.symm
  · intro he
    rw [normalize_eq_render h,normalize_eq_render ht,hr,he]

end Tidy

/-- Of paths without blanks around their segments, the normal form is canonical: it is in order and its
own normal form, and it is shared by just those paths that lead to the same place, from the root if they
start there, or else from every directory that is deep enough. -/
theorem normalize_canonical {s t : String} (hs : ∀ x ∈ pieces s, Text.trim x = x)
    (ht : ∀ x ∈ pieces t, Text.trim x = x) :
    IsCanonical (startsAtRoot s) (normalize s) ∧ normalize (normalize s) = normalize s ∧
      (startsAtRoot s = true → startsAtRoot t = true →
        (normalize s = normalize t ↔ visit [] (pieces s) = visit [] (pieces t))) ∧
      (startsAtRoot s = false → startsAtRoot t = false → ∀ depth, (normalize s = normalize t ↔
        ∀ dir, IsDirectory dir → depth ≤ dir.length → visit dir (pieces s) = visit dir (pieces t))) := by
  refine ⟨isCanonical_normalize hs,normalize_of_trimmed (trim_normalize hs),fun h h' => ?_,
    fun h h' depth => ?_⟩
  · rw [normalize_eq_iff hs ht (h'.trans h.symm),h,visit_root,visit_root]
  · have hstep : ∀ u, ∀ x ∈ walk false (pieces u), IsStep x := fun u x hx =>
      isStep_of_mem_walk (pieces_eq u ▸ hx)
    rw [normalize_eq_iff hs ht (h'.trans h.symm),h]
    exact walk_eq_iff (hstep s) (hstep t) depth

theorem normalize_canonical_app :
    let s := ".\\src\\..//..\\lib/./app.ts"
    let t := "../lib/app.ts/"
    IsCanonical false (normalize s) ∧ normalize s = "../lib/app.ts" ∧ normalize t = normalize s ∧
      (∀ dir, IsDirectory dir → visit dir (pieces s) = visit dir (pieces t)) ∧
      visit [] (pieces "\\..\\lib/app.ts") = visit [] (pieces "/src/../lib//app.ts") := by
  intro s t
  have hs : startsAtRoot s = false := by decide +kernel
  have he : normalize s = normalize t := by decide +kernel
  obtain ⟨hc,-,-,hv⟩ := normalize_canonical (s := s) (t := t) (by decide +kernel) (by decide +kernel)
  have hroot := (normalize_canonical (s := "\\..\\lib/app.ts") (t := "/src/../lib//app.ts")
    (by decide +kernel) (by decide +kernel)).2.2.1 (by decide +kernel) (by decide +kernel)
  rw [hs] at hc
  exact ⟨hc,by decide +kernel,he.symm,
    fun dir hd => (hv hs (by decide +kernel) 0).mp he dir hd (Nat.zero_le _),
    hroot.mp (by decide +kernel)⟩

end Path
end ImportResolution
