import ImportResolution.Language.Label
import ImportResolution.Proofs.Inner
import ImportResolution.Proofs.PathRules

/-! Labels as they are written. A label that was read says where to cut it: its repository holds no double
slash, its package no colon, and its target ends in no blank. So its text reads back to it, in whatever
directory. -/
namespace ImportResolution

namespace Text

/-- Whether a text starts with a pattern does not hang on what stands behind a part that is as long. -/
theorem isPrefixOf?_append_eq_none_iff {pattern s : List Char} (hl : pattern.length ≤ s.length)
    (t : List Char) : pattern.isPrefixOf? (s ++ t) = none ↔ ¬pattern <+: s := by
  rw [Option.eq_none_iff_forall_ne_some]
  constructor
  · rintro h ⟨r,rfl⟩
    exact h (r ++ t) (isPrefixOf?_eq_some_iff.mpr (List.append_assoc ..).symm)
  · intro h r hr
    exact h (List.prefix_of_prefix_length_le ⟨r,isPrefixOf?_eq_some_iff.mp hr⟩
      (List.prefix_append s t) hl)

/-- Where a text is first cut does not hang on what stands behind the cut. -/
theorem cutChars?_behind {pattern front back : List Char}
    (h : cutChars? pattern (front ++ pattern ++ back) = some (front,back)) (other : List Char) :
    cutChars? pattern (front ++ pattern ++ other) = some (front,other) := by
  induction front with
  | nil =>
    cases hp : pattern ++ other with
    | nil =>
      obtain ⟨rfl,rfl⟩ := List.append_eq_nil_iff.mp hp
      rfl
    | cons c r =>
      have hr : pattern.isPrefixOf? (c :: r) = some other := isPrefixOf?_eq_some_iff.mpr hp
      rw [List.nil_append,hp,cutChars?,hr]
  | cons x front ih =>
    have hl : pattern.length ≤ (x :: front ++ pattern).length := by
      simp only [List.length_append]
      omega
    have hn := isPrefixOf?_append_eq_none_iff hl
    simp only [List.cons_append,cutChars?] at h hn ⊢
    -- The pattern does not start here in the one text, and so in neither.
    cases hf : pattern.isPrefixOf? (x :: (front ++ pattern ++ back)) with
    | some rest =>
      rw [hf] at h
      cases h
    | none =>
      rw [hf] at h
      obtain ⟨⟨inner,rest⟩,hc,he⟩ := Option.map_eq_some_iff.mp h
      obtain ⟨hx,rfl⟩ := Prod.mk.inj he
      obtain rfl := (List.cons.inj hx).2
      rw [(hn other).mpr ((hn rest).mp hf),ih hc]
      rfl

theorem cut?_behind {pattern s front back : String} (h : cut? pattern s = some (front,back)) :
    s = front ++ pattern ++ back ∧
      ∀ other, cut? pattern (front ++ pattern ++ other) = some (front,other) := by
  obtain ⟨⟨a,b⟩,hc,he⟩ := Option.map_eq_some_iff.mp h
  obtain ⟨rfl,rfl⟩ := Prod.mk.inj he
  have hs := append_of_cutChars? hc
  rw [← hs] at hc
  refine ⟨String.toList_inj.mp (by simp [← hs]),fun other => ?_⟩
  refine Option.map_eq_some_iff.mpr ⟨(a,other.toList),?_,by simp [pairOfChars]⟩
  simpa using cutChars?_behind hc other.toList

/-- What ends a text without blanks around it has none at its end. -/
theorem eq_empty_or_isTight {s tail : String} (h : trim s = s) (ht : tail.toList <:+ s.toList) :
    tail = "" ∨ IsTight tail := by
  by_cases hn : tail = ""
  · exact .inl hn
  · obtain ⟨front,hs⟩ := ht
    have hl : s.toList.getLast? = tail.toList.getLast? := by
      rw [← hs,List.getLast?_append_of_ne_nil _ (by simpa using hn)]
    have hne : s ≠ "" := by
      rintro rfl
      simp [hn] at hs
    refine .inr ?_
    rw [IsTight,← hl]
    exact isTight_of_trim h hne

end Text

theorem Path.baseName_suffix (s : String) : (baseName s).toList <:+ s.toList := by
  unfold baseName Text.cutLast?
  cases hc : Text.cutLastChars? '/' s.toList with
  | none => exact List.suffix_rfl
  | some cut =>
    refine ⟨cut.1 ++ ['/'],?_⟩
    simpa [Text.pairOfChars] using (Text.append_of_cutLastChars? hc).1

namespace Label

/-- A label whose text says where to cut it. -/
structure IsReadable (l : Label) : Prop where
  repo : ∀ r ∈ l.repo, ∀ body, Text.cut? "//" (r ++ "//" ++ body) = some (r,body)
  relative : Path.isRooted l.package = false
  uncut : ':' ∉ l.package.toList
  named : ¬(l.package = "" ∧ l.target = "")
  tight : l.target = "" ∨ Text.IsTight l.target

variable {l : Label} {spec dir body : String} {repo : Option String}

/-- What stands behind the double slash is cut at its first colon, or names the last part of a package
without colons. -/
theorem cases_of_ofBody? (h : ofBody? repo body = some l) :
    l.repo = repo ∧ Path.isRooted body = false ∧ ¬(l.package = "" ∧ l.target = "") ∧
      ':' ∉ l.package.toList ∧
        (body = l.package ++ ":" ++ l.target ∨ body = l.package ∧ l.target = Path.baseName body) := by
  unfold ofBody? at h
  split at h
  · cases h
  next hr =>
  have hr : Path.isRooted body = false := eq_false_of_ne_true hr
  cases hc : Text.cut? ":" body with
  | none =>
    simp only [hc,Option.getD_none] at h
    split at h
    · cases h
    next hn =>
    obtain rfl := Option.some.inj h
    exact ⟨rfl,hr,hn,(Text.cut?_eq_none_iff (by simp)).mp hc,.inr ⟨rfl,rfl⟩⟩
  | some cut =>
    simp only [hc,Option.getD_some] at h
    split at h
    · cases h
    next hn =>
    obtain rfl := Option.some.inj h
    obtain ⟨hb,hm⟩ := (Text.cut?_eq_some_iff (c := ':') (by simp)).mp hc
    exact ⟨rfl,hr,hn,hm,.inl hb⟩

/-- A label behind a double slash is readable if its repository is. -/
theorem isReadable_of_ofBody? (h : ofBody? repo body = some l) {s : String} (hs : Text.trim s = s)
    (hb : body.toList <:+ s.toList)
    (hrepo : ∀ r ∈ repo, ∀ more, Text.cut? "//" (r ++ "//" ++ more) = some (r,more)) :
    l.IsReadable := by
  obtain ⟨rfl,hr,hn,hm,hbody⟩ := cases_of_ofBody? h
  refine ⟨hrepo,?_,hm,hn,Text.eq_empty_or_isTight hs (.trans ?_ hb)⟩
  · rcases hbody with rfl | ⟨rfl,-⟩
    · by_cases hp : l.package = ""
      · rw [hp]
        decide
      · rwa [String.append_assoc,Location.isRooted_append hp] at hr
    · exact hr
  · rcases hbody with rfl | ⟨-,ht⟩
    · rw [String.toList_append]
      exact List.suffix_append ..
    · rw [ht]
      exact Path.baseName_suffix body

/-- A label of the importer's directory takes that for its package. -/
theorem isReadable_of_parse? (hdir : Path.isRooted dir = false) (hcolon : ':' ∉ dir.toList)
    (h : parse? spec dir = some l) : l.IsReadable := by
  have htrim := Text.trim_trim spec
  unfold parse? at h
  generalize Text.trim spec = s at h htrim
  cases hat : Text.afterHead? "@" s with
  | some rest =>
    simp only [hat] at h
    obtain ⟨⟨r,body⟩,hc,hb⟩ := Option.bind_eq_some_iff.mp h
    obtain ⟨hrest,hbehind⟩ := Text.cut?_behind hc
    refine isReadable_of_ofBody? hb htrim ?_ ?_
    · rw [← Text.afterHead?_eq_some_iff.mp hat,hrest,← String.append_assoc,String.toList_append]
      exact List.suffix_append ..
    · rintro _ ⟨⟩
      exact hbehind
  | none =>
    simp only [hat] at h
    cases hslash : Text.afterHead? "//" s with
    | some body =>
      simp only [hslash] at h
      refine isReadable_of_ofBody? h htrim ?_ (by simp)
      rw [← Text.afterHead?_eq_some_iff.mp hslash,String.toList_append]
      exact List.suffix_append ..
    | none =>
      simp only [hslash] at h
      cases hlocal : Text.afterHead? ":" s with
      | none =>
        simp only [hlocal] at h
        cases h
      | some target =>
        simp only [hlocal] at h
        split at h
        · cases h
        next hn =>
        obtain rfl := Option.some.inj h
        refine ⟨by simp,hdir,hcolon,fun he => hn he.2,Text.eq_empty_or_isTight htrim ?_⟩
        rw [← Text.afterHead?_eq_some_iff.mp hlocal,String.toList_append]
        exact List.suffix_append ..

theorem render_none (package target : String) :
    render ⟨none,package,target⟩ = "//" ++ (package ++ ":" ++ target) := by
  simp only [render,Option.map_none,Option.getD_none,String.empty_append,String.append_assoc]

theorem render_some (r package target : String) :
    render ⟨some r,package,target⟩ = "@" ++ (r ++ "//" ++ (package ++ ":" ++ target)) := by
  simp only [render,Option.map_some,Option.getD_some,String.append_assoc]

theorem startsBy_render (l : Label) : StartsBy '@' l.render ∨ StartsBy '/' l.render := by
  obtain ⟨repo,package,target⟩ := l
  cases repo with
  | none =>
    rw [render_none]
    exact .inr (StartsBy.append ⟨['/'],by simp⟩ _)
  | some r =>
    rw [render_some]
    exact .inl (StartsBy.append ⟨[],by simp⟩ _)

namespace IsReadable
variable (h : l.IsReadable)
include h

theorem ofBody?_eq (repo : Option String) :
    ofBody? repo (l.package ++ ":" ++ l.target) = some ⟨repo,l.package,l.target⟩ := by
  have hr : Path.isRooted (l.package ++ ":" ++ l.target) = false := by
    by_cases hp : l.package = ""
    · have hcolon : StartsBy ':' (":" ++ l.target) := StartsBy.append ⟨[],by simp⟩ _
      rw [hp,String.empty_append]
      exact hcolon.startsWith_eq_false (d := '/') ⟨[],by simp⟩ (by decide)
    · rw [String.append_assoc,Location.isRooted_append hp]
      exact h.relative
  have hc : Text.cut? ":" (l.package ++ ":" ++ l.target) = some (l.package,l.target) :=
    (Text.cut?_eq_some_iff (by simp)).mpr ⟨rfl,h.uncut⟩
  simp only [ofBody?,hr,hc,Bool.false_eq_true,if_false,Option.getD_some,if_neg h.named]

/-- The text of a label has no blanks around it. -/
theorem trim_render : Text.trim l.render = l.render := by
  have ht : Text.IsTight l.render := by
    rw [render]
    rcases h.tight with ht | ht
    · rw [ht,String.append_empty]
      exact Text.IsTight.append (by decide) _
    · exact ht.append _
  refine Text.trimWhere_eq_self_iff.mpr ⟨?_,fun c hc => ?_⟩
  · rcases startsBy_render l with hs | hs <;> exact hs.not_head (by decide)
  · rw [Text.IsTight,Option.mem_def.mp hc] at ht
    exact Option.some.inj ht

theorem parse?_render (dir : String) : parse? l.render dir = some l := by
  have hbody := h.ofBody?_eq l.repo
  rw [parse?,h.trim_render]
  obtain ⟨repo,package,target⟩ := l
  cases repo with
  | none =>
    rw [render_none]
    have hslash : StartsBy '/' ("//" ++ (package ++ ":" ++ target)) := StartsBy.append ⟨['/'],by simp⟩ _
    have hat := hslash.afterHead?_eq_none (d := '@') (t := "@") ⟨[],by simp⟩ (by decide)
    have hafter : Text.afterHead? "//" ("//" ++ (package ++ ":" ++ target)) =
        some (package ++ ":" ++ target) := Text.afterHead?_eq_some_iff.mpr rfl
    simp only [hat,hafter]
    exact hbody
  | some r =>
    rw [render_some]
    have hafter : Text.afterHead? "@" ("@" ++ (r ++ "//" ++ (package ++ ":" ++ target))) =
        some (r ++ "//" ++ (package ++ ":" ++ target)) := Text.afterHead?_eq_some_iff.mpr rfl
    simp only [hafter,h.repo r rfl,Option.bind_some]
    exact hbody

end IsReadable

/-- The text of a label that was read in a directory reads back to the label in any other. -/
theorem parse?_render_of_parse? {spec dir : String} {l : Label} (hdir : Path.isRooted dir = false)
    (hcolon : ':' ∉ dir.toList) (h : parse? spec dir = some l) (other : String) :
    parse? l.render other = some l :=
  (isReadable_of_parse? hdir hcolon h).parse?_render other

/-- A blank in front, a package that ends in a slash and a second colon; and a label of the directory. -/
theorem parse?_render_of_parse?_rules :
    Path.isRooted "build/rules" = false ∧ ':' ∉ "build/rules".toList ∧
      parse? " @rules//go/:a:b" "build/rules" = some ⟨some "rules","go/","a:b"⟩ ∧
      parse? "@rules//go/:a:b" "web" = some ⟨some "rules","go/","a:b"⟩ ∧
      parse? ":defs.bzl" "build/rules" = some ⟨none,"build/rules","defs.bzl"⟩ ∧
      parse? "//build/rules:defs.bzl" "web" = some ⟨none,"build/rules","defs.bzl"⟩ := by
  have hdir : Path.isRooted "build/rules" = false := by decide +kernel
  have hcolon : ':' ∉ "build/rules".toList := by decide +kernel
  have hfar : parse? " @rules//go/:a:b" "build/rules" = some ⟨some "rules","go/","a:b"⟩ := by
    decide +kernel
  have hnear : parse? ":defs.bzl" "build/rules" = some ⟨none,"build/rules","defs.bzl"⟩ := by
    decide +kernel
  exact ⟨hdir,hcolon,hfar,parse?_render_of_parse? hdir hcolon hfar "web",hnear,
    parse?_render_of_parse? hdir hcolon hnear "web"⟩

end Label
end ImportResolution
