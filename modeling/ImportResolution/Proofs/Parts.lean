import ImportResolution.Digest.Sha256

/-! Digested lists of parts. A digest sees the pieces between bars and not the parts that they come
from, so that parts without bars are known by their digest and others need not be. -/
namespace ImportResolution

namespace Text

theorem splitOn_bar (a b : String) :
    splitOn '|' (a ++ "|" ++ b) = splitOn '|' a ++ splitOn '|' b := by
  have h : (a ++ "|" ++ b).toList = a.toList ++ '|' :: b.toList := by simp
  simp only [splitOn,h,List.splitOn_append_cons_self,List.map_append]

theorem splitOn_of_not_mem {sep : Char} {s : String} (h : sep ∉ s.toList) :
    splitOn sep s = [s] := by
  simp [splitOn,List.splitOn_eq_singleton h]

theorem splitOn_inj {sep : Char} {s t : String} (h : splitOn sep s = splitOn sep t) : s = t := by
  have hl := congrArg (List.map String.toList) h
  simp only [splitOn,List.map_map,Function.comp_def,String.toList_ofList,List.map_id'] at hl
  have hi := congrArg (List.intercalate [sep]) hl
  rw [List.intercalate_splitOn,List.intercalate_splitOn] at hi
  exact String.toList_inj.mp hi

/-- Texts without the separator are known by what joins them. -/
theorem intercalate_comma_inj {xs ys : List String} (hx : ∀ x ∈ xs, ',' ∉ x.toList)
    (hy : ∀ y ∈ ys, ',' ∉ y.toList) (nx : xs ≠ []) (ny : ys ≠ [])
    (h : ",".intercalate xs = ",".intercalate ys) : xs = ys := by
  have hs : ∀ zs : List String, (∀ z ∈ zs, ',' ∉ z.toList) → zs ≠ [] →
      (",".intercalate zs).toList.splitOn ',' = zs.map String.toList := by
    intro zs hz nz
    have hc : (",".intercalate zs).toList = [','].intercalate (zs.map String.toList) := by
      simp [String.toList_intercalate]
    rw [hc]
    exact List.splitOn_intercalate ',' (by simpa using hz) (by simpa using nz)
  have hl := hs xs hx nx
  rw [h,hs ys hy ny] at hl
  exact ((List.map_inj_right fun _ _ => String.toList_inj.mp).mp hl).symm

/-- Cut at the first occurrence of two characters, a text has one front and one back. -/
theorem cutChars?_append_pair {c d : Char} (hne : c ≠ d) {front : List Char}
    (h : cutChars? [c,d] front = none) (back : List Char) :
    cutChars? [c,d] (front ++ c :: d :: back) = some (front,back) := by
  induction front with
  | nil =>
    have hp : [c,d].isPrefixOf? (c :: d :: back) = some back := isPrefixOf?_eq_some_iff.mpr rfl
    simp [cutChars?,hp]
  | cons x rest ih =>
    simp only [cutChars?] at h
    split at h
    · cases h
    · next hp =>
      have hr : cutChars? [c,d] rest = none := by simpa using h
      -- An occurrence that starts in front and ends behind it would need both characters to be one.
      have hn : [c,d].isPrefixOf? (x :: (rest ++ c :: d :: back)) = none := by
        rw [Option.eq_none_iff_forall_ne_some] at hp ⊢
        intro r hr
        obtain ⟨rfl,ht⟩ := List.cons.inj (isPrefixOf?_eq_some_iff.mp hr)
        cases rest with
        | nil => exact hne (List.cons.inj ht).1.symm
        | cons y more =>
          obtain ⟨rfl,-⟩ := List.cons.inj ht
          exact hp more (isPrefixOf?_eq_some_iff.mpr rfl)
      rw [List.cons_append,cutChars?,hn]
      simp [ih hr]

/-- Two texts that go on behind a mark of two characters, and do not have it before. -/
theorem append_pair_inj {mark a b c d : String} {x y : Char} (hm : mark.toList = [x,y])
    (hne : x ≠ y) (ha : contains mark a = false) (hc : contains mark c = false)
    (h : a ++ mark ++ b = c ++ mark ++ d) : a = c ∧ b = d := by
  have hcut : ∀ s t : String, contains mark s = false →
      cutChars? [x,y] (s ++ mark ++ t).toList = some (s.toList,t.toList) := by
    intro s t hs
    have hk : (s ++ mark ++ t).toList = s.toList ++ x :: y :: t.toList := by simp [hm]
    rw [hk]
    apply cutChars?_append_pair hne
    simpa [contains,hm] using hs
  have hk := hcut a b ha
  rw [h,hcut c d hc] at hk
  obtain ⟨hl,hr⟩ := Prod.mk.inj (Option.some.inj hk)
  exact ⟨(String.toList_inj.mp hl).symm,(String.toList_inj.mp hr).symm⟩

end Text

namespace Digest

theorem toList_loop (b : ByteArray) (n : Nat) (r : List UInt8) :
    ByteArray.toList.loop b n r = r.reverse ++ b.data.toList.drop n := by
  fun_induction ByteArray.toList.loop b n r with
  | case1 n r h ih =>
    have hl : n < b.data.toList.length := h
    have hg : b.get! n = b.data.toList[n] := getElem!_pos b.data n h
    rw [ih,hg,List.drop_eq_getElem_cons h]
    simp
  | case2 n r h =>
    rw [List.drop_eq_nil_iff.mpr (Nat.not_lt.mp h),List.append_nil]

theorem utf8_inj {s t : String} (h : utf8 s = utf8 t) : s = t := by
  have hd : ∀ b : ByteArray, b.toList = b.data.toList := fun b => toList_loop b 0 []
  rw [utf8,utf8,hd,hd] at h
  exact String.toByteArray_inj.mp (ByteArray.ext (Array.toList_inj.mp h))

/-- The bytes that are digested for a versioned list of parts. -/
def message (version : String) (parts : List String) : List UInt8 :=
  utf8 (encodeParts version parts)

theorem ofParts_eq (version : String) (parts : List String) :
    ofParts version parts = sha256 (message version parts) := rfl

/-- The digest does not take the one message for the other. -/
def TellsApart (m n : List UInt8) : Prop := sha256 m = sha256 n → m = n

/-- What is digested, cut at its bars. -/
theorem splitOn_encodeParts (version : String) (parts : List String) :
    Text.splitOn '|' (encodeParts version parts) =
      Text.splitOn '|' version ++ parts.flatMap (Text.splitOn '|') := by
  induction parts generalizing version with
  | nil => simp [encodeParts_nil]
  | cons part rest ih =>
    rw [encodeParts_cons,ih,Text.splitOn_bar,List.flatMap_cons,List.append_assoc]

/-- Lists of parts are digested as one text when they have the same pieces. -/
theorem encodeParts_eq_iff {version : String} {xs ys : List String} :
    encodeParts version xs = encodeParts version ys ↔
      xs.flatMap (Text.splitOn '|') = ys.flatMap (Text.splitOn '|') := by
  constructor
  · intro h
    have hs := congrArg (Text.splitOn '|') h
    rw [splitOn_encodeParts,splitOn_encodeParts] at hs
    exact List.append_cancel_left hs
  · intro h
    have hs : Text.splitOn '|' (encodeParts version xs) =
        Text.splitOn '|' (encodeParts version ys) := by
      rw [splitOn_encodeParts,splitOn_encodeParts,h]
    exact Text.splitOn_inj hs

theorem flatMap_splitOn {xs : List String} (h : ∀ x ∈ xs, '|' ∉ x.toList) :
    xs.flatMap (Text.splitOn '|') = xs := by
  induction xs with
  | nil => rfl
  | cons x rest ih =>
    rw [List.flatMap_cons,Text.splitOn_of_not_mem (h x (.head _)),ih fun y hy => h y (.tail _ hy)]
    rfl

/-- Parts without bars can be told from what is digested. -/
theorem encodeParts_inj {version : String} {xs ys : List String}
    (h : encodeParts version xs = encodeParts version ys) (hx : ∀ x ∈ xs, '|' ∉ x.toList)
    (hy : ∀ y ∈ ys, '|' ∉ y.toList) : xs = ys := by
  rwa [encodeParts_eq_iff,flatMap_splitOn hx,flatMap_splitOn hy] at h

/-- One digest, one text, as far as the digest can be relied on. -/
theorem encodeParts_of_ofParts {version : String} {xs ys : List String}
    (hd : TellsApart (message version xs) (message version ys))
    (h : ofParts version xs = ofParts version ys) :
    encodeParts version xs = encodeParts version ys := by
  rw [ofParts_eq,ofParts_eq] at h
  exact utf8_inj (hd h)

end Digest
end ImportResolution
