import ImportResolution.Proofs.Assembly
import ImportResolution.Proofs.Keys
import ImportResolution.Proofs.Parts

/-! The order of keys. Texts compare by their characters as they do by their bytes, and texts that
are joined by the null character compare as the lists of their parts, as long as no part has it. -/
namespace ImportResolution

-- No text is computed here, and no unifier should try to.
attribute [local irreducible] String.toList

/-- The order of texts by their bytes. -/
def BytesLt (s t : String) : Prop := List.Lex (· < ·) (Digest.utf8 s) (Digest.utf8 t)

namespace Digest

theorem utf8_eq_flatMap (s : String) : utf8 s = s.toList.flatMap String.utf8EncodeChar := by
  have hb : s.toUTF8.toList = s.toUTF8.data.toList := toList_loop s.toUTF8 0 []
  have hd : s.toList.utf8Encode = s.toUTF8 := String.utf8Encode_toList
  rw [utf8,hb,← hd,List.utf8Encode]
  simp

/-- Of the codes of two characters none goes on as the other, and the smaller has the smaller code:
codes of one length differ first in a digit, and longer codes start with larger bytes. -/
theorem encodeChar_lt {c d : Char} (h : c < d) (xs ys : List UInt8) :
    List.Lex (· < ·) (String.utf8EncodeChar c ++ xs) (String.utf8EncodeChar d ++ ys) := by
  have hv : c.val.toNat < d.val.toNat := h
  have hd : d.val.toNat < 0x110000 := by
    rcases d.valid with hl | ⟨-,hl⟩
    · exact Nat.lt_trans hl (by decide)
    · exact hl
  have hdigits (n : Nat) : n / 4096 = n / 64 / 64 ∧ n / 262144 = n / 64 / 64 / 64 := by
    simp only [Nat.div_div_eq_div_mul,and_self]
  fun_cases String.utf8EncodeChar c <;> fun_cases String.utf8EncodeChar d <;>
    simp only [List.cons_append,List.nil_append,List.cons_lex_cons_iff,
      UInt8.lt_iff_toNat_lt,← UInt8.toNat_inj,UInt8.toNat_ofNat',(hdigits _).1,(hdigits _).2] <;>
    omega

theorem lex_append_left {α : Type} {r : α → α → Prop} (front : List α) {xs ys : List α}
    (h : List.Lex r xs ys) : List.Lex r (front ++ xs) (front ++ ys) := by
  induction front with
  | nil => exact h
  | cons x front ih => exact .cons ih

theorem lex_flatMap_encodeChar {cs ds : List Char} (h : List.Lex (· < ·) cs ds) :
    List.Lex (· < ·) (cs.flatMap String.utf8EncodeChar) (ds.flatMap String.utf8EncodeChar) := by
  induction h with
  | @nil d ds =>
    obtain ⟨b,bs,hb⟩ := List.exists_cons_of_ne_nil (String.utf8EncodeChar_ne_nil (c := d))
    simp [hb]
  | @cons c cs ds _ ih =>
    simp only [List.flatMap_cons]
    exact lex_append_left _ ih
  | @rel c cs d ds h =>
    simp only [List.flatMap_cons]
    exact encodeChar_lt h _ _

end Digest

/-- The order by bytes is the order by characters. -/
theorem bytesLt_iff {s t : String} : BytesLt s t ↔ s < t := by
  have hlt {a b : String} (h : a < b) : BytesLt a b := by
    rw [BytesLt,Digest.utf8_eq_flatMap,Digest.utf8_eq_flatMap]
    exact Digest.lex_flatMap_encodeChar h
  have hasymm {a b : String} (h : BytesLt a b) : ¬BytesLt b a :=
    List.lex_asymm (fun hx hy => Nat.lt_asymm hx hy) h
  constructor
  · intro h
    rcases String.le_total t s with hle | hle
    · rcases Classical.em (t < s) with hts | hts
      · exact absurd (hlt hts) (hasymm h)
      · obtain rfl := String.le_antisymm hle (String.not_lt.mp hts)
        exact absurd h (hasymm h)
    · exact Classical.byContradiction fun hn => by
        obtain rfl := String.le_antisymm hle (String.not_lt.mp hn)
        exact hasymm h h
  · exact hlt

section Joining

theorem nullChar_lt {c : Char} (h : c ≠ nullChar) : nullChar < c := by
  have hv : c.val ≠ 0 := fun hz => h (Char.ext hz)
  have hn : c.val.toNat ≠ 0 := fun hz => hv (UInt32.toNat_inj.mp hz)
  exact Nat.pos_of_ne_zero hn

/-- A separator that is smaller than all before it lets the fronts decide first. -/
theorem lex_separated {z : Char} {a b c d : List Char} (ha : ∀ x ∈ a, z < x) (hc : ∀ x ∈ c, z < x) :
    List.Lex (· < ·) (a ++ z :: b) (c ++ z :: d) ↔
      List.Lex (· < ·) a c ∨ a = c ∧ List.Lex (· < ·) b d := by
  have hirrefl (x : Char) : ¬x < x := Nat.lt_irrefl _
  induction a generalizing c with
  | nil =>
    cases c with
    | nil => simp [List.cons_lex_cons_iff,hirrefl]
    | cons y c => simp [List.cons_lex_cons_iff,hc y (by simp)]
  | cons x a ih =>
    have hx := ha x (by simp)
    cases c with
    | nil =>
      have hxz : ¬x < z := Nat.lt_asymm hx
      have hne : x ≠ z := fun he => hirrefl z (he ▸ hx)
      simp [List.cons_lex_cons_iff,hxz,hne]
    | cons y c =>
      have hi := ih (c := c) (fun u hu => ha u (.tail _ hu)) (fun u hu => hc u (.tail _ hu))
      simp only [List.cons_append,List.cons_lex_cons_iff,hi,List.cons.injEq,and_or_left,or_assoc,
        and_assoc]

/-- A text without the character that joins the parts of a key. -/
def IsSingle (s : String) : Prop := nullChar ∉ s.toList

theorem toList_joinKey_cons (s t : String) (parts : List String) :
    (joinKey (s :: t :: parts)).toList = s.toList ++ nullChar :: (joinKey (t :: parts)).toList := by
  simp [joinKey,nullChar]

/-- Keys of as many parts compare as their parts do, one part after the other. -/
theorem joinKey_lt_iff {xs ys : List String} (hl : xs.length = ys.length)
    (hx : ∀ s ∈ xs, IsSingle s) (hy : ∀ s ∈ ys, IsSingle s) :
    joinKey xs < joinKey ys ↔ List.Lex BytesLt xs ys := by
  have hsmall {s : String} (hs : IsSingle s) : ∀ c ∈ s.toList, nullChar < c :=
    fun c hc => nullChar_lt fun he => hs (he ▸ hc)
  induction xs generalizing ys with
  | nil =>
    obtain rfl := List.length_eq_zero_iff.mp hl.symm
    simp
  | cons s xs ih =>
    obtain ⟨t,ys,rfl⟩ := List.exists_cons_of_length_eq_add_one hl.symm
    cases xs with
    | nil =>
      obtain rfl := List.length_eq_zero_iff.mp (Nat.succ.inj hl).symm
      simp [joinKey,bytesLt_iff,List.cons_lex_cons_iff]
    | cons u xs =>
      obtain ⟨v,ys,rfl⟩ := List.exists_cons_of_length_eq_add_one (Nat.succ.inj hl).symm
      have hi : joinKey (u :: xs) < joinKey (v :: ys) ↔ List.Lex BytesLt (u :: xs) (v :: ys) :=
        ih (Nat.succ.inj hl) (fun w hw => hx w (.tail _ hw)) (fun w hw => hy w (.tail _ hw))
      have hs := lex_separated (b := (joinKey (u :: xs)).toList) (d := (joinKey (v :: ys)).toList)
        (hsmall (hx s (by simp))) (hsmall (hy t (by simp)))
      rw [← toList_joinKey_cons,← toList_joinKey_cons] at hs
      rw [List.cons_lex_cons_iff,bytesLt_iff,← hi,← String.toList_inj]
      exact hs

theorem joinKey_inj {xs ys : List String} (hl : xs.length = ys.length)
    (hx : ∀ s ∈ xs, IsSingle s) (hy : ∀ s ∈ ys, IsSingle s) (h : joinKey xs = joinKey ys) :
    xs = ys := by
  induction xs generalizing ys with
  | nil => exact (List.length_eq_zero_iff.mp hl.symm).symm
  | cons s xs ih =>
    obtain ⟨t,ys,rfl⟩ := List.exists_cons_of_length_eq_add_one hl.symm
    cases xs with
    | nil =>
      obtain rfl := List.length_eq_zero_iff.mp (Nat.succ.inj hl).symm
      simpa [joinKey] using h
    | cons u xs =>
      obtain ⟨v,ys,rfl⟩ := List.exists_cons_of_length_eq_add_one (Nat.succ.inj hl).symm
      have hk := congrArg String.toList h
      rw [toList_joinKey_cons,toList_joinKey_cons] at hk
      obtain ⟨hs,hr⟩ := eq_of_append_cons_of_not_mem_left hk (hx s (by simp)) (hy t (by simp))
      rw [String.toList_inj.mp hs,ih (Nat.succ.inj hl) (fun w hw => hx w (.tail _ hw))
        (fun w hw => hy w (.tail _ hw)) (String.toList_inj.mp hr)]

end Joining

/-- Sorted by a key that joins as many parts of each, a list is sorted by the parts. -/
theorem isStableSort_joinKey {α : Type} (fields : α → List String) {n : Nat} {xs : List α}
    (hl : ∀ x, (fields x).length = n) (hs : ∀ x ∈ xs, ∀ s ∈ fields x, IsSingle s) :
    IsStableSort (List.Lex BytesLt) fields xs (sortByKey (fun x => joinKey (fields x)) xs) := by
  have hlength (a b : α) : (fields a).length = (fields b).length := (hl a).trans (hl b).symm
  refine (isStableSort_sortByKey _ xs).of_iff ?_ ?_
  · intro a ha b hb
    exact (joinKey_lt_iff (hlength a b) (hs a ha) (hs b hb)).symm
  · intro a ha b hb
    exact ⟨fun h => congrArg joinKey h,joinKey_inj (hlength a b) (hs a ha) (hs b hb)⟩

end ImportResolution
