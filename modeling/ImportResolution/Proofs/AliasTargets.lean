import ImportResolution.Proofs.AliasOrder
import ImportResolution.Proofs.Segments

/-! What an alias makes of a specifier: its target, with or without a slash, or what follows the head of
the rule put below the target. A rule whose head closes with a slash puts it right behind the target,
so that one is needed there; and a rule without a slash takes all slashes from the end of its target. -/
namespace ImportResolution

-- No text is computed here, and no unifier should try to.
attribute [local irreducible] String.toList

namespace AliasRule
variable {spec : AliasSpec} {r : AliasRule} {s out : String}

/-- A side of a rule without the slash, or the slash and the star, at its end. -/
def stem (side : String) : String :=
  (Text.beforeTail? "/*" side).getD ((Text.beforeTail? "/" side).getD side)

theorem stem_star (side : String) : stem (side ++ "/*") = side := by
  rw [stem,Text.beforeTail?_eq_some_iff.mpr rfl,Option.getD_some]

theorem stem_slash (side : String) : stem (side ++ "/") = side := by
  have hstar : Text.endsWith "/*" (side ++ "/") = false := by
    refine eq_false_of_ne_true fun h => ?_
    obtain ⟨front,hf⟩ := Text.exists_of_endsWith h
    have hl := congrArg (List.getLast? ∘ String.toList) hf
    simp at hl
  rw [stem,Text.beforeTail?_eq_none hstar,Option.getD_none,Text.beforeTail?_eq_some_iff.mpr rfl,
    Option.getD_some]

theorem stem_plain {side : String} (hs : Text.endsWith "/*" side = false)
    (h : Text.endsWith "/" side = false) : stem side = side := by
  rw [stem,Text.beforeTail?_eq_none hs,Text.beforeTail?_eq_none h,Option.getD_none,Option.getD_none]

/-- A specifier lands where a rule sends it: at the target, or as far below it as it was below the
head. -/
inductive Lands (r : AliasRule) (s : String) : String → Prop
  | target : Lands r s (stem r.target)
  | slash : Lands r s (stem r.target ++ "/")
  | below {rest : String} (h : s = stem r.head ++ "/" ++ rest) : Lands r s (stem r.target ++ "/" ++ rest)

theorem Lands.cases (h : r.Lands s out) :
    out = stem r.target ∨ Text.startsWith (stem r.target ++ "/") out = true := by
  cases h with
  | target => exact .inl rfl
  | slash => exact .inr ((Text.startsWith_iff _ _).mpr (List.prefix_refl _))
  | below _ => exact .inr (Text.startsWith_append _ _)

/-- The target closes with a slash where the rest is put right behind it, and with one at most where a
slash is put between. -/
def Joins (r : AliasRule) : Prop :=
  match r.form with
  | .headed => Text.endsWith "/" r.replaceHead = true
  | .whole => Text.endsWith "//" r.target = false

theorem endsWith_star_target (h : of? spec = some r) :
    Text.endsWith "/*" r.head = Text.endsWith "/*" r.target := by
  simp only [of?] at h
  split at h
  · cases h
  next hn =>
  rw [not_or,not_or] at hn
  exact Option.some.inj h ▸ Decidable.not_not.mp hn.2.2

theorem withoutStar_append (side : String) : withoutStar true (side ++ "/*") = side ++ "/" := by
  apply String.toList_inj.mp
  simp [withoutStar]

/-- The one slash that a target may close with is taken from its end. -/
theorem dropEndWhile_target {target : String} (hs : Text.endsWith "/*" target = false)
    (h : Text.endsWith "//" target = false) : Text.dropEndWhile (· = '/') target = stem target := by
  have hlast : ∀ side : String, Text.endsWith "/" side = false →
      ∀ c ∈ side.toList.getLast?, decide (c = '/') = false := by
    intro side hn c hc
    obtain ⟨front,hf⟩ := List.getLast?_eq_some_iff.mp (Option.mem_def.mp hc)
    refine decide_eq_false fun he => ?_
    have hside : side = String.ofList front ++ "/" := by
      apply String.toList_inj.mp
      simp [hf,he]
    rw [hside,Text.endsWith_append] at hn
    cases hn
  cases hslash : Text.endsWith "/" target with
  | false =>
    rw [stem_plain hs hslash,Text.dropEndWhile,Text.trimEndChars_eq_self_iff.mpr (hlast target hslash),
      String.ofList_toList]
  | true =>
    obtain ⟨front,rfl⟩ := Text.exists_of_endsWith hslash
    have hfront : Text.endsWith "/" front = false := by
      refine eq_false_of_ne_true fun hf => ?_
      obtain ⟨more,rfl⟩ := Text.exists_of_endsWith hf
      have htwo : "/" ++ "/" = "//" := by decide +kernel
      rw [String.append_assoc,htwo,Text.endsWith_append] at h
      cases h
    have hone : Text.trimEndChars (fun c => decide (c = '/')) "/".toList = [] := by decide +kernel
    rw [stem_slash,Text.dropEndWhile,String.toList_append,
      Text.trimEndChars_append_of_not (hlast front hfront),hone,List.append_nil,String.ofList_toList]

section Texts
variable {head target : String}

theorem lands_of_star (hh : Text.endsWith "/*" head = true) (ht : Text.endsWith "/*" target = true)
    (hs : (ofTexts head target).substitute? s = some out) : (ofTexts head target).Lands s out := by
  obtain ⟨x,rfl⟩ := Text.exists_of_endsWith hh
  obtain ⟨y,rfl⟩ := Text.exists_of_endsWith ht
  simp only [ofTexts,substitute?,hh,Bool.true_or,if_true,withoutStar_append] at hs
  obtain ⟨rest,hr,rfl⟩ := Option.map_eq_some_iff.mp hs
  have hspec : stem (x ++ "/*") ++ "/" ++ rest = s := by
    rw [stem_star]
    exact Text.afterHead?_eq_some_iff.mp hr
  have hl : (ofTexts (x ++ "/*") (y ++ "/*")).Lands s (stem (y ++ "/*") ++ "/" ++ rest) :=
    .below hspec.symm
  rwa [stem_star] at hl

theorem lands_of_slash (hn : Text.endsWith "/*" head = false) (hh : Text.endsWith "/" head = true)
    (hj : (ofTexts head target).Joins) (hs : (ofTexts head target).substitute? s = some out) :
    (ofTexts head target).Lands s out := by
  simp only [Joins,ofTexts,hn,hh,Bool.or_true,if_true,withoutStar,Bool.false_eq_true,if_false] at hj
  simp only [ofTexts,substitute?,hn,hh,Bool.or_true,if_true,withoutStar,Bool.false_eq_true,if_false] at hs
  obtain ⟨x,rfl⟩ := Text.exists_of_endsWith hh
  obtain ⟨y,rfl⟩ := Text.exists_of_endsWith hj
  obtain ⟨rest,hr,rfl⟩ := Option.map_eq_some_iff.mp hs
  have hspec : stem (x ++ "/") ++ "/" ++ rest = s := by
    rw [stem_slash]
    exact Text.afterHead?_eq_some_iff.mp hr
  have hl : (ofTexts (x ++ "/") (y ++ "/")).Lands s (stem (y ++ "/") ++ "/" ++ rest) :=
    .below hspec.symm
  rwa [stem_slash] at hl

theorem lands_of_whole (hn : Text.endsWith "/*" head = false) (hh : Text.endsWith "/" head = false)
    (ht : Text.endsWith "/*" target = false) (hj : (ofTexts head target).Joins)
    (hs : (ofTexts head target).substitute? s = some out) : (ofTexts head target).Lands s out := by
  simp only [Joins,ofTexts,hn,hh,Bool.or_false,Bool.false_eq_true,if_false] at hj
  simp only [ofTexts,substitute?,hn,hh,Bool.or_false,Bool.false_eq_true,if_false] at hs
  split at hs
  · obtain rfl := Option.some.inj hs
    cases hslash : Text.endsWith "/" target with
    | true =>
      obtain ⟨y,rfl⟩ := Text.exists_of_endsWith hslash
      have hl : (ofTexts head (y ++ "/")).Lands s (stem (y ++ "/") ++ "/") := .slash
      rwa [stem_slash] at hl
    | false =>
      have hl : (ofTexts head target).Lands s (stem target) := .target
      rwa [stem_plain ht hslash] at hl
  · obtain ⟨rest,hr,rfl⟩ := Option.map_eq_some_iff.mp hs
    obtain ⟨more,hmore,hr⟩ := Option.bind_eq_some_iff.mp hr
    rw [dropEndWhile_target ht hj]
    apply Lands.below
    rw [← Text.afterHead?_eq_some_iff.mp hmore,← Text.afterHead?_eq_some_iff.mp hr,ofTexts,
      stem_plain hn hh,String.append_assoc]

end Texts

/-- A rule whose sides can be joined sends specifiers to its target and below. -/
theorem lands_of_substitute? (h : of? spec = some r) (hj : r.Joins) (hs : r.substitute? s = some out) :
    r.Lands s out := by
  have hstar := endsWith_star_target h
  have he := eq_ofTexts h
  generalize r.head = head at he hstar
  generalize r.target = target at he hstar
  subst he
  cases hw : Text.endsWith "/*" head with
  | true => exact lands_of_star hw (hstar ▸ hw) hs
  | false =>
    cases hslash : Text.endsWith "/" head with
    | true => exact lands_of_slash hw hslash hj hs
    | false => exact lands_of_whole hw hslash (hstar ▸ hw) hj hs

/-- A target that closes with a slash already. -/
theorem lands_of_substitute?_library :
    (of? ⟨"@ui","src/ui/"⟩ = some (ofTexts "@ui" "src/ui/") ∧ (ofTexts "@ui" "src/ui/").Joins ∧
      (ofTexts "@ui" "src/ui/").substitute? "@ui/a/b" = some "src/ui/a/b") ∧
        (ofTexts "@ui" "src/ui/").Lands "@ui/a/b" "src/ui/a/b" := by
  have h : of? ⟨"@ui","src/ui/"⟩ = some (ofTexts "@ui" "src/ui/") := by decide +kernel
  have hj : (ofTexts "@ui" "src/ui/").Joins := by
    have hform : (ofTexts "@ui" "src/ui/").form = .whole := by decide +kernel
    rw [Joins,hform]
    decide +kernel
  have hs : (ofTexts "@ui" "src/ui/").substitute? "@ui/a/b" = some "src/ui/a/b" := by decide +kernel
  exact ⟨⟨h,hj,hs⟩,lands_of_substitute? h hj hs⟩

/-- Without a slash at its end, a target is run together with what follows the head; and one with two
slashes there loses both. -/
theorem not_lands_library :
    (of? ⟨"@ui/","src/ui"⟩ = some (ofTexts "@ui/" "src/ui") ∧
      (ofTexts "@ui/" "src/ui").substitute? "@ui/x" = some "src/uix" ∧
        ¬(ofTexts "@ui/" "src/ui").Lands "@ui/x" "src/uix") ∧
    of? ⟨"@ui","src//"⟩ = some (ofTexts "@ui" "src//") ∧
      (ofTexts "@ui" "src//").substitute? "@ui/x" = some "src/x" ∧
        ¬(ofTexts "@ui" "src//").Lands "@ui/x" "src/x" := by
  have hrun : ¬(ofTexts "@ui/" "src/ui").Lands "@ui/x" "src/uix" := fun hl =>
    hl.cases.elim (by decide +kernel) (by decide +kernel)
  have hlost : ¬(ofTexts "@ui" "src//").Lands "@ui/x" "src/x" := fun hl =>
    hl.cases.elim (by decide +kernel) (by decide +kernel)
  exact ⟨⟨by decide +kernel,by decide +kernel,hrun⟩,by decide +kernel,by decide +kernel,hlost⟩

end AliasRule
end ImportResolution
