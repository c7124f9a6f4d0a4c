import ImportResolution.Alias
import ImportResolution.Proofs.Assembly
import ImportResolution.Proofs.Parts

/-! Aliases and their fingerprint. Rules are tried by their heads, and rules with one head as they
are declared. The fingerprint has the texts of the rules and nothing of the order in which they are
declared, so it tells what rules do as long as those with one head keep theirs. -/
namespace ImportResolution

theorem Text.findSome?_filter_ne {α : Type} {f : String → Option α} {y : String} (h : f y = none)
    (xs : List String) : (xs.filter fun z => !z == y).findSome? f = xs.findSome? f := by
  induction xs with
  | nil => rfl
  | cons z rest ih =>
    by_cases hz : z = y
    · subst hz
      simp [h,ih]
    · simp [List.findSome?_cons,hz,ih]

/-- What is dropped has no more to say than what it repeats. -/
theorem Text.findSome?_distinct {α : Type} (f : String → Option α) (xs : List String) :
    (distinct xs).findSome? f = xs.findSome? f := by
  cases xs with
  | nil => rfl
  | cons y rest =>
    have ih := findSome?_distinct f (rest.filter fun z => !z == y)
    rw [distinct] at ih ⊢
    rw [List.eraseDups_cons,List.findSome?_cons,List.findSome?_cons,ih]
    cases hy : f y with
    | some v => rfl
    | none => exact findSome?_filter_ne hy rest
termination_by xs.length
decreasing_by
  have h := List.length_filter_le (fun z => !z == y) rest
  simp only [List.length_cons]
  omega

namespace AliasRule

/-- The text of a rule in a fingerprint. -/
def text (r : AliasRule) : String := r.head ++ "->" ++ r.target

/-- A rule that can be read from its text. -/
structure IsLegible (r : AliasRule) : Prop where
  arrow : Text.contains "->" r.head = false
  bar : '|' ∉ r.head.toList ∧ '|' ∉ r.target.toList

namespace IsLegible
variable {r s : AliasRule}

theorem bar_not_mem (h : r.IsLegible) : '|' ∉ r.text.toList := by
  simp only [text,String.toList_append,List.mem_append,not_or]
  exact ⟨⟨h.bar.1,by decide⟩,h.bar.2⟩

theorem eq_of_text (h : r.IsLegible) (k : s.IsLegible) (ht : r.text = s.text) :
    r.head = s.head ∧ r.target = s.target :=
  Text.append_pair_inj (x := '-') (y := '>') rfl (by decide) h.arrow k.arrow ht

end IsLegible

/-- Rules as they are declared. -/
def compiled (specs : List AliasSpec) : List AliasRule := specs.filterMap of?

/-- The rule of a head and a target. -/
def ofTexts (head target : String) : AliasRule where
  head
  target
  form := if Text.endsWith "/*" head || Text.endsWith "/" head then .headed else .whole
  matchHead := withoutStar (Text.endsWith "/*" head) head
  replaceHead := withoutStar (Text.endsWith "/*" head) target

theorem eq_ofTexts {spec : AliasSpec} {r : AliasRule} (h : of? spec = some r) :
    r = ofTexts r.head r.target := by
  simp only [of?] at h
  split at h
  · cases h
  · exact Option.some.inj h ▸ rfl

theorem eq_ofTexts_of_mem {specs : List AliasSpec} {r : AliasRule} (h : r ∈ compiled specs) :
    r = ofTexts r.head r.target := by
  obtain ⟨spec,-,hr⟩ := List.mem_filterMap.mp h
  exact eq_ofTexts hr

/-- What a rule has to say on a specifier: what is accepted of its target inside the root. -/
def answer (spec : String) (accept : String → Option String) (r : AliasRule) : Option String :=
  ((r.substitute? spec).map Path.normalize).bind fun p =>
    if p != "" && !Path.isRooted p && !Text.startsWith ".." p then accept p else none

/-! The order in which rules are tried. -/

theorem precedes_trans (a b c : AliasRule) (h : a.precedes b = true) (k : b.precedes c = true) :
    a.precedes c = true := by
  simp only [precedes,Bool.or_eq_true,Bool.and_eq_true,decide_eq_true_eq,beq_iff_eq] at h k ⊢
  rcases h with h | ⟨h,hh⟩ <;> rcases k with k | ⟨k,hk⟩
  · exact .inl (Nat.lt_trans k h)
  · exact .inl (k ▸ h)
  · exact .inl (h ▸ k)
  · exact .inr ⟨h.trans k,String.le_trans hh hk⟩

theorem precedes_total (a b : AliasRule) : (a.precedes b || b.precedes a) = true := by
  simp only [precedes,Bool.or_eq_true,Bool.and_eq_true,decide_eq_true_eq,beq_iff_eq]
  rcases Nat.lt_trichotomy a.matchHead.utf8ByteSize b.matchHead.utf8ByteSize with h | h | h
  · exact .inr (.inl h)
  · rcases String.le_total a.head b.head with k | k
    · exact .inl (.inr ⟨h,k⟩)
    · exact .inr (.inr ⟨h.symm,k⟩)
  · exact .inl (.inl h)

theorem head_eq_of_precedes {a b : AliasRule} (h : a.precedes b = true) (k : b.precedes a = true) :
    a.head = b.head := by
  simp only [precedes,Bool.or_eq_true,Bool.and_eq_true,decide_eq_true_eq,beq_iff_eq] at h k
  rcases h with h | ⟨h,hh⟩ <;> rcases k with k | ⟨k,hk⟩
  · exact absurd h (Nat.lt_asymm k)
  · omega
  · omega
  · exact String.le_antisymm hh hk

theorem precedes_of_head_eq {specs : List AliasSpec} {a b : AliasRule} (ha : a ∈ compiled specs)
    (hb : b ∈ compiled specs) (h : a.head = b.head) : a.precedes b = true := by
  have hm : a.matchHead = b.matchHead := by
    rw [eq_ofTexts_of_mem ha,eq_ofTexts_of_mem hb,h]
    rfl
  simp [precedes,h,hm]

/-- Rules with one head are tried as they are declared. -/
theorem filter_mergeSort (specs : List AliasSpec) (head : String) :
    ((compiled specs).mergeSort precedes).filter (·.head == head) =
      (compiled specs).filter (·.head == head) := by
  apply filter_mergeSort_of_tied precedes_trans precedes_total
  intro a ha hah b hb hbh
  rw [beq_iff_eq] at hah hbh
  exact precedes_of_head_eq ha hb (hah.trans hbh.symm)

/-- What stands before others of a selection stands before them in the whole list. -/
theorem idxOf_lt_of_filter {xs pre post : List AliasRule} {keep : AliasRule → Bool}
    {r s : AliasRule} (h : xs.filter keep = pre ++ r :: post) (hs : keep s = true) (hn : s ∉ pre)
    (hr : s ≠ r) : xs.idxOf r < xs.idxOf s := by
  induction xs generalizing pre with
  | nil => simp at h
  | cons x rest ih =>
    have hnext : x ≠ s → (x ≠ r → rest.idxOf r < rest.idxOf s) →
        (x :: rest).idxOf r < (x :: rest).idxOf s := by
      intro hx hlt
      rw [List.idxOf_cons,List.idxOf_cons,beq_false_of_ne hx]
      cases hk : x == r with
      | true => exact Nat.succ_pos _
      | false => exact Nat.succ_lt_succ (hlt (by simpa using hk))
    cases hx : keep x with
    | false =>
      rw [List.filter_cons_of_neg (by simp [hx])] at h
      exact hnext (fun he => by simp [he,hs] at hx) fun _ => ih h hn
    | true =>
      rw [List.filter_cons_of_pos hx] at h
      cases pre with
      | nil =>
        obtain ⟨rfl,-⟩ := List.cons.inj h
        exact hnext hr.symm fun hne => absurd rfl hne
      | cons y more =>
        obtain ⟨rfl,ht⟩ := List.cons.inj h
        rw [List.mem_cons,not_or] at hn
        exact hnext (Ne.symm hn.1) fun _ => ih ht hn.2

/-- The rule that answers: it precedes all others that have an answer, and those with its head are
declared behind it. -/
structure Leads (xs : List AliasRule) (f : AliasRule → Option String) (r : AliasRule) : Prop where
  mem : r ∈ xs
  answers : (f r).isSome
  precedes : ∀ s ∈ xs, (f s).isSome → r.precedes s = true
  declared : ∀ s ∈ xs, (f s).isSome → s.head = r.head → s ≠ r → xs.idxOf r < xs.idxOf s

theorem Leads.unique {xs : List AliasRule} {f : AliasRule → Option String} {r s : AliasRule}
    (h : Leads xs f r) (k : Leads xs f s) : r = s := by
  have hh := head_eq_of_precedes (h.precedes s k.mem k.answers) (k.precedes r h.mem h.answers)
  refine Decidable.byContradiction fun hn => ?_
  exact Nat.lt_asymm (h.declared s k.mem k.answers hh.symm (Ne.symm hn))
    (k.declared r h.mem h.answers hh hn)

theorem leads_of_findSome? {specs : List AliasSpec} {f : AliasRule → Option String} {v : String}
    (h : ((compiled specs).mergeSort precedes).findSome? f = some v) :
    ∃ r, Leads (compiled specs) f r ∧ f r = some v := by
  obtain ⟨pre,r,post,hs,hv,hpre⟩ := List.findSome?_eq_some_iff.mp h
  have hmem : ∀ s ∈ compiled specs, (f s).isSome → s = r ∨ s ∈ post := by
    intro s hm ha
    have hm : s ∈ (compiled specs).mergeSort precedes := List.mem_mergeSort.mpr hm
    rw [hs,List.mem_append,List.mem_cons] at hm
    rcases hm with hm | hm
    · simp [hpre s hm] at ha
    · exact hm
  have hr : r ∈ compiled specs := by
    apply List.mem_mergeSort.mp
    rw [hs]
    simp
  refine ⟨r,⟨hr,by simp [hv],?_,?_⟩,hv⟩
  · intro s hm ha
    rcases hmem s hm ha with rfl | hp
    · exact precedes_of_head_eq hr hr rfl
    · have ho := List.pairwise_mergeSort precedes_trans precedes_total (compiled specs)
      rw [hs] at ho
      exact (List.pairwise_cons.mp (List.pairwise_append.mp ho).2.1).1 s hp
  · intro s hm ha hh hn
    have hf := filter_mergeSort specs r.head
    rw [hs,List.filter_append,List.filter_cons_of_pos (by simp)] at hf
    refine idxOf_lt_of_filter hf.symm (by simpa using hh) ?_ hn
    intro hp
    simp [hpre s (List.mem_filter.mp hp).1] at ha

/-- Rules with one head are declared in one order. -/
def SameOrder (xs ys : List AliasRule) : Prop :=
  ∀ a ∈ xs, ∀ b ∈ xs, a.head = b.head → (xs.idxOf a < xs.idxOf b ↔ ys.idxOf a < ys.idxOf b)

instance (xs ys : List AliasRule) : Decidable (SameOrder xs ys) :=
  inferInstanceAs (Decidable (∀ a ∈ xs, ∀ b ∈ xs, a.head = b.head →
    (xs.idxOf a < xs.idxOf b ↔ ys.idxOf a < ys.idxOf b)))

theorem Leads.of_sameOrder {xs ys : List AliasRule} {f : AliasRule → Option String} {r : AliasRule}
    (h : Leads xs f r) (hm : ∀ s, s ∈ xs ↔ s ∈ ys) (ho : SameOrder xs ys) : Leads ys f r where
  mem := (hm r).mp h.mem
  answers := h.answers
  precedes s hs := h.precedes s ((hm s).mpr hs)
  declared s hs ha hh hn :=
    (ho r h.mem s ((hm s).mpr hs) hh.symm).mp (h.declared s ((hm s).mpr hs) ha hh hn)

theorem findSome?_of_sameOrder {specs later : List AliasSpec}
    (hm : ∀ s, s ∈ compiled specs ↔ s ∈ compiled later)
    (ho : SameOrder (compiled specs) (compiled later)) (f : AliasRule → Option String) :
    ((compiled specs).mergeSort precedes).findSome? f =
      ((compiled later).mergeSort precedes).findSome? f := by
  cases h : ((compiled later).mergeSort precedes).findSome? f with
  | none =>
    rw [List.findSome?_eq_none_iff] at h ⊢
    exact fun r hr => h r (List.mem_mergeSort.mpr ((hm r).mp (List.mem_mergeSort.mp hr)))
  | some v =>
    obtain ⟨r,hr,hv⟩ := leads_of_findSome? h
    cases k : ((compiled specs).mergeSort precedes).findSome? f with
    | none =>
      have hn := List.findSome?_eq_none_iff.mp k r
        (List.mem_mergeSort.mpr ((hm r).mpr hr.mem))
      rw [hv] at hn
      cases hn
    | some w =>
      obtain ⟨s,hs,hw⟩ := leads_of_findSome? k
      rw [← hv,← hw,(hs.of_sameOrder hm ho).unique hr]

/-! Repeated rules. -/

theorem eq_of_sameText {specs later : List AliasSpec} {a b : AliasRule} (ha : a ∈ compiled specs)
    (hb : b ∈ compiled later) (hh : a.head = b.head) (ht : a.target = b.target) : a = b := by
  rw [eq_ofTexts_of_mem ha,eq_ofTexts_of_mem hb,hh,ht]

theorem dropRepeats_sublist (xs : List AliasRule) : (dropRepeats xs).Sublist xs := by
  induction xs with
  | nil => exact .slnil
  | cons a rest ih =>
    rw [dropRepeats]
    split
    · next b more hd =>
      rw [hd] at ih
      split
      · exact ((List.sublist_cons_self b more).trans ih).cons_cons a
      · exact ih.cons_cons a
    · exact (List.nil_sublist rest).cons_cons a

section Repeats
variable {xs : List AliasRule} (h : ∀ a ∈ xs, ∀ b ∈ xs, sameText a b = true → a = b)
include h

/-- A rule is only dropped where the same rule stands before it. -/
theorem findSome?_dropRepeats {α : Type} (f : AliasRule → Option α) :
    (dropRepeats xs).findSome? f = xs.findSome? f := by
  induction xs with
  | nil => rfl
  | cons a rest ih =>
    have ih := ih fun b hb c hc => h b (.tail _ hb) c (.tail _ hc)
    rw [dropRepeats,List.findSome?_cons,← ih]
    split
    · next b more hd =>
      split
      · next hs =>
        have hb : b ∈ rest := (dropRepeats_sublist rest).mem (by simp [hd])
        obtain rfl := h a (.head _) b (.tail _ hb) hs
        rw [hd,List.findSome?_cons]
        cases f a <;> rfl
      · rw [hd,List.findSome?_cons]
    · next hd => rw [hd,List.findSome?_cons]

theorem mem_dropRepeats (r : AliasRule) : r ∈ dropRepeats xs ↔ r ∈ xs := by
  refine ⟨fun hr => (dropRepeats_sublist xs).mem hr,fun hr => ?_⟩
  have hf := findSome?_dropRepeats h fun s => if s = r then some s else none
  refine Decidable.byContradiction fun hn => ?_
  have hnone : (dropRepeats xs).findSome? (fun s => if s = r then some s else none) = none := by
    rw [List.findSome?_eq_none_iff]
    intro s hs
    refine if_neg fun he => hn ?_
    rwa [← he]
  rw [hnone,eq_comm,List.findSome?_eq_none_iff] at hf
  simpa using hf r hr

end Repeats
end AliasRule

namespace AliasRules
open AliasRule (compiled)
variable {specs later : List AliasSpec}

/-- The texts that a fingerprint is made of. -/
def texts (rules : List AliasRule) : List String :=
  (rules.map AliasRule.text).mergeSort fun a b => a ≤ b

theorem fingerprintOf_eq (rules : List AliasRule) :
    fingerprintOf rules =
      if rules.isEmpty then none else some (Digest.ofParts version (texts rules)) := rfl

/-- The order of rules is no part of their fingerprint. -/
theorem texts_of_perm {xs ys : List AliasRule} (h : xs.Perm ys) : texts xs = texts ys := by
  have ho : ∀ zs, (texts zs).Pairwise (· ≤ ·) := by
    intro zs
    have hs : (texts zs).Pairwise fun a b => decide (a ≤ b) = true :=
      List.pairwise_mergeSort
        (fun a b c h k => by simpa using String.le_trans (by simpa using h) (by simpa using k))
        (fun a b => by simpa using String.le_total a b) _
    exact hs.imp fun h => by simpa using h
  have hp : ∀ zs, (texts zs).Perm (zs.map AliasRule.text) := fun zs => List.mergeSort_perm _ _
  exact List.Perm.eq_of_pairwise (fun _ _ _ _ h k => String.le_antisymm h k) (ho xs) (ho ys)
    ((hp xs).trans ((h.map _).trans (hp ys).symm))

theorem mem_texts {rules : List AliasRule} {s : String} :
    s ∈ texts rules ↔ ∃ r ∈ rules, r.text = s :=
  List.mem_mergeSort.trans List.mem_map

theorem sameText_sorted (specs : List AliasSpec) :
    ∀ a ∈ (compiled specs).mergeSort AliasRule.precedes,
      ∀ b ∈ (compiled specs).mergeSort AliasRule.precedes,
        AliasRule.sameText a b = true → a = b := by
  intro a ha b hb h
  rw [AliasRule.sameText,Bool.and_eq_true,beq_iff_eq,beq_iff_eq] at h
  exact AliasRule.eq_of_sameText (List.mem_mergeSort.mp ha) (List.mem_mergeSort.mp hb) h.1 h.2

theorem mem_rules (specs : List AliasSpec) (r : AliasRule) :
    r ∈ (of specs).rules ↔ r ∈ compiled specs :=
  (AliasRule.mem_dropRepeats (sameText_sorted specs) r).trans List.mem_mergeSort

theorem resolve?_eq (a : AliasRules) (spec : String) (accept : String → Option String) :
    a.resolve? spec accept =
      if spec = "" then none else a.rules.findSome? (AliasRule.answer spec accept) := by
  unfold resolve? candidates
  rw [Text.findSome?_distinct]
  congr 1
  induction a.rules with
  | nil => rfl
  | cons r rest ih =>
    rw [List.findSome?_cons,← ih,AliasRule.answer,List.filterMap_cons]
    cases r.substitute? spec with
    | none => rfl
    | some t =>
      rw [List.map_cons,List.filter_cons,Option.map_some,Option.bind_some]
      split <;> simp [List.findSome?_cons]

/-- What is read from a fingerprint. -/
theorem texts_of_fingerprint (hs : ∀ r ∈ compiled specs, r.IsLegible)
    (hl : ∀ r ∈ compiled later, r.IsLegible)
    (hd : Digest.TellsApart (Digest.message version (texts (of specs).rules))
      (Digest.message version (texts (of later).rules)))
    (h : (of specs).fingerprint = (of later).fingerprint) :
    texts (of specs).rules = texts (of later).rules := by
  have hbar : ∀ {given : List AliasSpec}, (∀ r ∈ compiled given, r.IsLegible) →
      ∀ s ∈ texts (of given).rules, '|' ∉ s.toList := by
    intro given hg s hm
    obtain ⟨r,hr,rfl⟩ := mem_texts.mp hm
    exact (hg r ((mem_rules given r).mp hr)).bar_not_mem
  change fingerprintOf (of specs).rules = fingerprintOf (of later).rules at h
  rw [fingerprintOf_eq,fingerprintOf_eq] at h
  split at h <;> split at h
  · next he ke => rw [List.isEmpty_iff.mp he,List.isEmpty_iff.mp ke]
  · cases h
  · cases h
  · exact Digest.encodeParts_inj (Digest.encodeParts_of_ofParts hd (Option.some.inj h)) (hbar hs)
      (hbar hl)

theorem mem_compiled_of_texts (hs : ∀ r ∈ compiled specs, r.IsLegible)
    (hl : ∀ r ∈ compiled later, r.IsLegible)
    (h : texts (of specs).rules = texts (of later).rules) {r : AliasRule}
    (hr : r ∈ compiled specs) : r ∈ compiled later := by
  have ht := mem_texts.mpr ⟨r,(mem_rules specs r).mpr hr,rfl⟩
  rw [h] at ht
  obtain ⟨s,hm,he⟩ := mem_texts.mp ht
  have hm := (mem_rules later s).mp hm
  obtain ⟨hh,hk⟩ := (hl s hm).eq_of_text (hs r hr) he
  rwa [← AliasRule.eq_of_sameText hm hr hh hk]

/-- Rules with one fingerprint give one answer where those with one head keep their order. -/
theorem resolve?_of_fingerprint (hs : ∀ r ∈ compiled specs, r.IsLegible)
    (hl : ∀ r ∈ compiled later, r.IsLegible)
    (ho : AliasRule.SameOrder (compiled specs) (compiled later))
    (hd : Digest.TellsApart (Digest.message version (texts (of specs).rules))
      (Digest.message version (texts (of later).rules)))
    (h : (of specs).fingerprint = (of later).fingerprint) (spec : String)
    (accept : String → Option String) :
    (of specs).resolve? spec accept = (of later).resolve? spec accept := by
  have ht := texts_of_fingerprint hs hl hd h
  have hm : ∀ r, r ∈ compiled specs ↔ r ∈ compiled later := fun r =>
    ⟨mem_compiled_of_texts hs hl ht,mem_compiled_of_texts hl hs ht.symm⟩
  have hr : ∀ given : List AliasSpec, (of given).rules.findSome? (AliasRule.answer spec accept) =
      ((compiled given).mergeSort AliasRule.precedes).findSome? (AliasRule.answer spec accept) :=
    fun given => AliasRule.findSome?_dropRepeats (sameText_sorted given) _
  rw [resolve?_eq,resolve?_eq,hr,hr,AliasRule.findSome?_of_sameOrder hm ho]

/-- Rules with one head, and a rule with another one. -/
def inApp : AliasSpec := ⟨"~/*","app/*"⟩
def inLib : AliasSpec := ⟨"~/*","lib/*"⟩
def inSource : AliasSpec := ⟨"@/","src/"⟩
def appRule : AliasRule := .ofTexts "~/*" "app/*"
def libRule : AliasRule := .ofTexts "~/*" "lib/*"
def sourceRule : AliasRule := .ofTexts "@/" "src/"

theorem compiled_moved : compiled [inApp,inLib,inSource] = [appRule,libRule,sourceRule] ∧
    compiled [inSource,inApp,inLib] = [sourceRule,appRule,libRule] := by decide +kernel

theorem rules_moved : (of [inApp,inLib,inSource]).rules = (of [inSource,inApp,inLib]).rules := by
  have hm : (compiled [inApp,inLib,inSource]).mergeSort AliasRule.precedes =
      (compiled [inSource,inApp,inLib]).mergeSort AliasRule.precedes := by
    have hs : [sourceRule,appRule,libRule].Pairwise fun a b => a.precedes b = true := by
      decide +kernel
    have ha : appRule.precedes libRule = true := by decide +kernel
    have hn : appRule.precedes sourceRule = false := by decide +kernel
    rw [compiled_moved.1,compiled_moved.2,List.mergeSort_of_pairwise hs]
    simp [List.mergeSort,ha,hn]
  exact congrArg AliasRule.dropRepeats hm

theorem isLegible_moved : appRule.IsLegible ∧ libRule.IsLegible ∧ sourceRule.IsLegible :=
  ⟨⟨by decide +kernel,by decide +kernel⟩,⟨by decide +kernel,by decide +kernel⟩,
    ⟨by decide +kernel,by decide +kernel⟩⟩

/-- A rule may be declared before or behind those with another head. -/
theorem resolve?_of_fingerprint_moved :
    (of [inApp,inLib,inSource]).fingerprint = (of [inSource,inApp,inLib]).fingerprint ∧
      ∀ spec accept, (of [inApp,inLib,inSource]).resolve? spec accept =
        (of [inSource,inApp,inLib]).resolve? spec accept := by
  have hf : (of [inApp,inLib,inSource]).fingerprint = (of [inSource,inApp,inLib]).fingerprint :=
    congrArg fingerprintOf rules_moved
  refine ⟨hf,resolve?_of_fingerprint ?_ ?_ ?_ (fun _ => by rw [rules_moved]) hf⟩
  · simp [compiled_moved,isLegible_moved]
  · simp [compiled_moved,isLegible_moved]
  · rw [compiled_moved.1,compiled_moved.2]
    decide +kernel

theorem rules_turned : (of [inApp,inLib]).rules = [appRule,libRule] ∧
    (of [inLib,inApp]).rules = [libRule,appRule] := by
  have hc : compiled [inApp,inLib] = [appRule,libRule] ∧
      compiled [inLib,inApp] = [libRule,appRule] := by decide +kernel
  have hs : [appRule,libRule].Pairwise (fun a b => a.precedes b = true) ∧
      [libRule,appRule].Pairwise (fun a b => a.precedes b = true) := by decide +kernel
  have hr : ∀ {specs : List AliasSpec} {rules : List AliasRule}, compiled specs = rules →
      rules.Pairwise (fun a b => a.precedes b = true) →
      (of specs).rules = AliasRule.dropRepeats rules := by
    rintro specs _ rfl ho
    exact congrArg AliasRule.dropRepeats (List.mergeSort_of_pairwise ho)
  rw [hr hc.1 hs.1,hr hc.2 hs.2]
  decide +kernel

/-- Two rules with one head, turned round, give another answer with the same fingerprint. -/
theorem resolve?_ne_turned :
    (of [inApp,inLib]).fingerprint = (of [inLib,inApp]).fingerprint ∧
      (of [inApp,inLib]).resolve? "~/util" some = some "app/util" ∧
      (of [inLib,inApp]).resolve? "~/util" some = some "lib/util" := by
  refine ⟨?_,?_,?_⟩
  · change fingerprintOf (of [inApp,inLib]).rules = fingerprintOf (of [inLib,inApp]).rules
    rw [rules_turned.1,rules_turned.2,fingerprintOf_eq,fingerprintOf_eq,
      texts_of_perm (List.Perm.swap libRule appRule [])]
    rfl
  · rw [resolve?_eq,rules_turned.1]
    decide +kernel
  · rw [resolve?_eq,rules_turned.2]
    decide +kernel

end AliasRules
end ImportResolution
