import ImportResolution.Cache.Entry
import ImportResolution.Digest.Sha256

/-! Keys of outcomes in memory. A key joins importer, specifier and configuration by the null
character. The configuration never has it; an importer that has it may be taken for another one with
a longer specifier. -/
namespace ImportResolution

/-- The character that joins the parts of a key. -/
def nullChar : Char := Char.ofNat 0

theorem nullChar_not_mem_none : nullChar ∉ "none".toList := by decide

namespace Digest

theorem hexDigit_ne_nullChar (n : Nat) : Text.hexDigit (n % 16) ≠ nullChar := by
  have h : ∀ k < 16, Text.hexDigit k ≠ nullChar := by decide
  exact h _ (Nat.mod_lt _ (by decide))

theorem nullChar_not_mem_hexOfWord (w : UInt32) : nullChar ∉ hexOfWord w := by
  intro h
  obtain ⟨i,-,hi⟩ := List.mem_map.mp h
  exact hexDigit_ne_nullChar _ hi

theorem nullChar_not_mem_sha256 (message : List UInt8) : nullChar ∉ (sha256 message).toList := by
  intro h
  simp only [sha256,String.toList_ofList] at h
  obtain ⟨w,-,hw⟩ := List.mem_flatMap.mp h
  exact nullChar_not_mem_hexOfWord w hw

theorem length_sha256 (message : List UInt8) : (sha256 message).length = 64 := by
  simp [sha256,String.length_ofList,Chain.words,hexOfWord]

/-- A digest is no word that stands for the lack of one. -/
theorem ofParts_ne_none (version : String) (parts : List String) : ofParts version parts ≠ "none" := by
  intro h
  have hl := congrArg String.length h
  simp only [ofParts,ofText,length_sha256] at hl
  exact absurd hl (by decide)

end Digest

section Cutting
variable {α : Type} {z : α} {a b c d : List α}

/-- Cut at its first separator, a list has one front and one back. -/
theorem eq_of_append_cons_of_not_mem_left (h : a ++ z :: b = c ++ z :: d) (ha : z ∉ a)
    (hc : z ∉ c) : a = c ∧ b = d := by
  rcases List.append_eq_append_iff.mp h with ⟨m,rfl,hm⟩ | ⟨m,rfl,hm⟩
  · cases m with
    | nil => exact ⟨by simp,by simpa using hm⟩
    | cons y m =>
      obtain ⟨rfl,-⟩ := List.cons.inj hm
      simp at hc
  · cases m with
    | nil => exact ⟨by simp,by simpa using hm.symm⟩
    | cons y m =>
      obtain ⟨rfl,-⟩ := List.cons.inj hm
      simp at ha

/-- Cut at its last separator, a list has one front and one back. -/
theorem eq_of_append_cons_of_not_mem (h : a ++ z :: b = c ++ z :: d) (hb : z ∉ b)
    (hd : z ∉ d) : a = c ∧ b = d := by
  have hr : b.reverse ++ z :: a.reverse = d.reverse ++ z :: c.reverse := by
    simpa using congrArg List.reverse h
  obtain ⟨hx,hy⟩ := eq_of_append_cons_of_not_mem_left hr (by simpa using hb) (by simpa using hd)
  exact ⟨List.reverse_inj.mp hy,List.reverse_inj.mp hx⟩

end Cutting

theorem toList_joinKey_pair (a b : String) :
    (joinKey [a,b]).toList = a.toList ++ nullChar :: b.toList := by
  simp [joinKey,nullChar]

namespace Cache

theorem toList_key (importer spec : String) (config : Option String) :
    (key importer spec config).toList =
      (joinKey [importer,spec]).toList ++ nullChar :: (config.getD "none").toList := by
  simp [key,joinKey,nullChar]

/-- A key tells the configuration from what stands before it. -/
theorem key_inj {i j s t : String} {f g : Option String} (h : key i s f = key j t g)
    (hf : nullChar ∉ (f.getD "none").toList) (hg : nullChar ∉ (g.getD "none").toList) :
    joinKey [i,s] = joinKey [j,t] ∧ f.getD "none" = g.getD "none" := by
  have hl := congrArg String.toList h
  rw [toList_key,toList_key] at hl
  obtain ⟨hs,hc⟩ := eq_of_append_cons_of_not_mem hl hf hg
  exact ⟨String.toList_inj.mp hs,String.toList_inj.mp hc⟩

/-- Pairs of importer and specifier that keys tell apart. -/
def Apart (pairs : List (String × String)) : Prop :=
  ∀ a ∈ pairs, ∀ b ∈ pairs, joinKey [a.1,a.2] = joinKey [b.1,b.2] → a = b

/-- Importers without the null character are told from their specifiers. -/
theorem apart_of_plain {pairs : List (String × String)}
    (h : ∀ a ∈ pairs, nullChar ∉ a.1.toList) : Apart pairs := by
  intro a ha b hb he
  have hl := congrArg String.toList he
  rw [toList_joinKey_pair,toList_joinKey_pair] at hl
  obtain ⟨hi,hs⟩ := eq_of_append_cons_of_not_mem_left hl (h a ha) (h b hb)
  exact Prod.ext (String.toList_inj.mp hi) (String.toList_inj.mp hs)

end Cache
end ImportResolution
