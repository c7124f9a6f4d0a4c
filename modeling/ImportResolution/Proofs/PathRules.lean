import Mathlib.Data.List.Forall2
import Mathlib.Data.List.Lex
import Mathlib.Data.List.MinMax
import Mathlib.Data.Prod.Lex
import ImportResolution.TsConfig.Profile
import ImportResolution.Proofs.ByteOrder

/-! Path rules. Among the files that the targets of all matching rules lead to, the one of least rank is
found, so that neither the order of the rules nor that of their targets tells; where there is none,
the explicit base decides. -/
namespace ImportResolution

namespace Text

theorem cutChars?_singleton_eq_some_iff {c : Char} {s front back : List Char} :
    cutChars? [c] s = some (front,back) ↔ front ++ c :: back = s ∧ c ∉ front := by
  induction s generalizing front with
  | nil => simp [cutChars?]
  | cons d r ih =>
    by_cases hd : c = d
    · subst hd
      have hp : [c].isPrefixOf? (c :: r) = some r := isPrefixOf?_eq_some_iff.mpr rfl
      cases front with
      | nil => simp [cutChars?,hp,eq_comm]
      | cons x front =>
        simp only [cutChars?,hp,Option.some.injEq,Prod.mk.injEq,List.cons_append,List.cons.injEq,
          List.mem_cons,not_or]
        exact ⟨fun h => absurd h.1 (by simp),fun h => absurd h.1.1.symm h.2.1⟩
    · have hp : [c].isPrefixOf? (d :: r) = none := by
        refine Option.eq_none_iff_forall_ne_some.mpr fun rest hr => hd ?_
        exact (List.cons.inj (isPrefixOf?_eq_some_iff.mp hr)).1
      simp only [cutChars?,hp,Option.map_eq_some_iff,Prod.exists,Prod.mk.injEq]
      constructor
      · rintro ⟨inner,rest,hc,rfl,rfl⟩
        obtain ⟨rfl,hn⟩ := ih.mp hc
        exact ⟨rfl,by simp [hd,hn]⟩
      · rintro ⟨hs,hn⟩
        cases front with
        | nil => exact absurd (List.cons.inj hs).1 hd
        | cons x front =>
          obtain ⟨rfl,hr⟩ := List.cons.inj hs
          exact ⟨front,back,ih.mpr ⟨hr,fun hm => hn (.tail _ hm)⟩,rfl,rfl⟩

variable {c : Char} {pattern s : String} (hp : pattern.toList = [c])
include hp

/-- A text is cut at the first place of a character. -/
theorem cut?_eq_some_iff {a b : String} :
    cut? pattern s = some (a,b) ↔ s = a ++ pattern ++ b ∧ c ∉ a.toList := by
  have hs : s = a ++ pattern ++ b ↔ a.toList ++ c :: b.toList = s.toList := by
    rw [← String.toList_inj]
    simp [hp,eq_comm]
  rw [cut?,hp,hs]
  constructor
  · intro h
    obtain ⟨cut,hc,hab⟩ := Option.map_eq_some_iff.mp h
    obtain ⟨rfl,rfl⟩ := Prod.mk.inj hab
    simpa using cutChars?_singleton_eq_some_iff.mp hc
  · intro h
    exact Option.map_eq_some_iff.mpr
      ⟨_,cutChars?_singleton_eq_some_iff.mpr h,by simp [pairOfChars]⟩

theorem cut?_eq_none_iff : cut? pattern s = none ↔ c ∉ s.toList := by
  constructor
  · intro h hm
    obtain ⟨front,back,hs,hn⟩ := List.eq_append_cons_of_mem hm
    have hc : cut? pattern s = some (String.ofList front,String.ofList back) := by
      refine (cut?_eq_some_iff hp).mpr ⟨?_,by simpa using hn⟩
      rw [← String.toList_inj]
      simp [hp,hs]
    rw [hc] at h
    cases h
  · refine fun hn => Option.eq_none_iff_forall_ne_some.mpr fun cut hc => hn ?_
    obtain ⟨rfl,-⟩ := (cut?_eq_some_iff hp).mp hc
    simp [hp]

end Text

namespace TsConfig

theorem exists_right_of_forall₂ {α β : Type} {R : α → β → Prop} {xs : List α} {ys : List β}
    (h : List.Forall₂ R xs ys) {x : α} (hx : x ∈ xs) : ∃ y ∈ ys, R x y := by
  induction h with
  | nil => cases hx
  | cons hr _ ih =>
    rcases List.mem_cons.mp hx with rfl | hx
    · exact ⟨_,.head _,hr⟩
    · obtain ⟨y,hy,hr⟩ := ih hx
      exact ⟨y,.tail _ hy,hr⟩

/-- A target with `m` in the place of its first star. -/
inductive Fills (m : String) : String → String → Prop
  | star {a b : String} (h : '*' ∉ a.toList) : Fills m (a ++ "*" ++ b) (a ++ m ++ b)
  | plain {target : String} (h : '*' ∉ target.toList) : Fills m target target

theorem fills_iff {m target filled : String} :
    Fills m target filled ↔ Text.replaceFirst '*' m target = filled := by
  have hs : (String.singleton '*').toList = ['*'] := by simp
  have he : String.singleton '*' = "*" := by decide
  constructor
  · intro h
    cases h with
    | @star a b h =>
      have hc : Text.cut? (String.singleton '*') (a ++ "*" ++ b) = some (a,b) :=
        (Text.cut?_eq_some_iff hs).mpr ⟨by rw [he],h⟩
      simp only [Text.replaceFirst,hc]
    | plain h => simp only [Text.replaceFirst,(Text.cut?_eq_none_iff hs).mpr h]
  · rintro rfl
    rw [Text.replaceFirst]
    cases hc : Text.cut? (String.singleton '*') target with
    | none => exact .plain ((Text.cut?_eq_none_iff hs).mp hc)
    | some cut =>
      obtain ⟨rfl,hn⟩ := (Text.cut?_eq_some_iff hs).mp hc
      rw [he]
      exact .star hn

namespace PathRule

theorem toList_star : "*".toList = ['*'] := by decide

/-- That a pattern matches a specifier: whether it is exact, how many bytes of literal text stand before
its star, and what the star stands for. -/
inductive Matches (r : PathRule) : String → Bool → Nat → String → Prop
  | exact (h : '*' ∉ r.pattern.toList) : Matches r r.pattern true r.pattern.utf8ByteSize ""
  | star {head tail m : String} (h : r.pattern = head ++ "*" ++ tail) (hs : '*' ∉ head.toList)
      (hm : '\n' ∉ m.toList) : Matches r (head ++ m ++ tail) false head.utf8ByteSize m

variable {r : PathRule} {spec m : String}

theorem matches_iff_of_star {head tail : String} (h : r.pattern = head ++ "*" ++ tail)
    (hs : '*' ∉ head.toList) {exact : Bool} {n : Nat} : r.Matches spec exact n m ↔
      exact = false ∧ n = head.utf8ByteSize ∧ spec = head ++ m ++ tail ∧ '\n' ∉ m.toList := by
  constructor
  · rintro (hn | ⟨ho,hos,hm⟩)
    · exact absurd (by simp [h]) hn
    · have hc := (Text.cut?_eq_some_iff toList_star).mpr ⟨h,hs⟩
      have hd := (Text.cut?_eq_some_iff toList_star).mpr ⟨ho,hos⟩
      obtain ⟨rfl,rfl⟩ := Prod.mk.inj (Option.some.inj (hc.symm.trans hd))
      exact ⟨rfl,rfl,rfl,hm⟩
  · rintro ⟨rfl,rfl,rfl,hm⟩
    exact .star h hs hm

theorem captured?_of_star {head tail : String} (h : r.pattern = head ++ "*" ++ tail)
    (hs : '*' ∉ head.toList) :
    r.captured? spec = some m ↔ spec = head ++ m ++ tail ∧ '\n' ∉ m.toList := by
  have hw : r.wildcard? = some (head,tail) := (Text.cut?_eq_some_iff toList_star).mpr ⟨h,hs⟩
  simp only [captured?,hw,Option.filter_eq_some_iff,Option.bind_eq_some_iff,
    Text.afterHead?_eq_some_iff,Text.beforeTail?_eq_some_iff]
  constructor
  · rintro ⟨⟨rest,rfl,rfl⟩,hm⟩
    exact ⟨by rw [String.append_assoc],by simpa [Text.hasChar] using hm⟩
  · rintro ⟨rfl,hm⟩
    exact ⟨⟨_,by rw [String.append_assoc],rfl⟩,by simpa [Text.hasChar] using hm⟩

/-- What a rule captures is what its star stands for in a match. -/
theorem captured?_eq_some_iff :
    r.captured? spec = some m ↔ r.Matches spec r.isExact r.headLength m := by
  cases hw : r.wildcard? with
  | some cut =>
    obtain ⟨head,tail⟩ := cut
    obtain ⟨h,hs⟩ := (Text.cut?_eq_some_iff toList_star).mp hw
    rw [captured?_of_star h hs,matches_iff_of_star h hs]
    simp [isExact,headLength,hw]
  | none =>
    have hn : '*' ∉ r.pattern.toList := (Text.cut?_eq_none_iff toList_star).mp hw
    simp only [captured?,isExact,headLength,hw,Option.isNone_none]
    constructor
    · intro h
      split at h
      · next he =>
        rw [he,← Option.some.inj h]
        exact .exact hn
      · cases h
    · rintro (h | h)
      simp

/-- Only the pattern tells what a rule matches. -/
theorem Matches.congr {s : PathRule} {exact : Bool} {n : Nat} (h : r.Matches spec exact n m)
    (hp : s.pattern = r.pattern) : s.Matches spec exact n m := by
  cases h with
  | exact h =>
    rw [← hp] at h ⊢
    exact .exact h
  | star h hs hm => exact .star (hp.trans h) hs hm

theorem Matches.eq {exact : Bool} {n : Nat} (h : r.Matches spec exact n m) :
    exact = r.isExact ∧ n = r.headLength := by
  cases h with
  | exact h =>
    have hw : r.wildcard? = none := (Text.cut?_eq_none_iff toList_star).mpr h
    simp [isExact,headLength,hw]
  | star h hs hm =>
    have hw : r.wildcard? = some _ := (Text.cut?_eq_some_iff toList_star).mpr ⟨h,hs⟩
    simp [isExact,headLength,hw]

theorem substitute?_eq_some_iff {filled : List String} : r.substitute? spec = some filled ↔
    ∃ m, r.captured? spec = some m ∧ List.Forall₂ (Fills m) r.targets filled := by
  rw [substitute?,Option.map_eq_some_iff]
  refine exists_congr fun m => and_congr_right fun _ => ?_
  have hf : Fills m = fun t f => Text.replaceFirst '*' m t = f := by
    funext t f
    exact propext fills_iff
  have hm : List.Forall₂ (fun t f => Text.replaceFirst '*' m t = f) r.targets filled ↔
      List.Forall₂ Eq (r.targets.map (Text.replaceFirst '*' m)) filled :=
    List.forall₂_map_left_iff.symm
  rw [hf,hm,List.forall₂_eq_eq_eq]

end PathRule

/-- The bytes of a text as numbers. -/
def byteValues (s : String) : List ℕ := (Digest.utf8 s).map UInt8.toNat

theorem byteValues_lt_iff {s t : String} : byteValues s < byteValues t ↔ s < t := by
  rw [← bytesLt_iff,BytesLt,byteValues,byteValues]
  generalize Digest.utf8 s = xs
  generalize Digest.utf8 t = ys
  change List.Lex (· < ·) _ _ ↔ _
  induction xs generalizing ys with
  | nil => cases ys <;> simp
  | cons x xs ih =>
    cases ys with
    | nil => simp
    | cons y ys => simp [List.cons_lex_cons_iff,ih,UInt8.lt_iff_toNat_lt,UInt8.toNat_inj]

theorem byteValues_inj {s t : String} (h : byteValues s = byteValues t) : s = t :=
  Digest.utf8_inj (List.map_injective_iff.mpr (fun _ _ => UInt8.toNat_inj.mp) h)

/-- The rank of a hit, less for the better one: exact patterns first, then longer literal text before
the star, then the shorter path, then the lesser by its bytes. -/
def RankedHit.rank (h : RankedHit) : Bool ×ₗ ℕᵒᵈ ×ₗ ℕ ×ₗ List ℕ :=
  toLex (!h.exact,toLex (OrderDual.toDual h.headLength,
    toLex (h.path.utf8ByteSize,byteValues h.path)))

namespace RankedHit

theorem beats_iff {a b : RankedHit} : a.beats b = true ↔ a.rank < b.rank := by
  simp only [rank,Prod.Lex.toLex_lt_toLex,byteValues_lt_iff,OrderDual.toDual_lt_toDual,
    EmbeddingLike.apply_eq_iff_eq,beats]
  by_cases he : a.exact = b.exact
  · by_cases hl : a.headLength = b.headLength
    · by_cases hp : a.path.utf8ByteSize = b.path.utf8ByteSize <;> simp [he,hl,hp]
    · simp [he,hl]
  · cases ha : a.exact <;> cases hb : b.exact <;> simp_all

theorem path_eq_of_rank {a b : RankedHit} (h : a.rank = b.rank) : a.path = b.path := by
  simp only [rank,EmbeddingLike.apply_eq_iff_eq,Prod.mk.injEq] at h
  exact byteValues_inj h.2.2.2

end RankedHit

namespace Profile

/-- The hit that no other beats is the first of least rank. -/
theorem best?_eq_argmin (hits : List RankedHit) : best? hits = hits.argmin RankedHit.rank := by
  unfold best? List.argmin
  congr 1
  funext best h
  cases best with
  | none => rfl
  | some b => exact if_congr RankedHit.beats_iff rfl rfl

variable {p q : Profile} {i : FileIndex} {spec : String} {h : RankedHit}

/-- A file that a target of a matching rule leads to. -/
inductive IsHit (p : Profile) (i : FileIndex) (spec : String) : RankedHit → Prop
  | intro {rule : PathRule} {exact : Bool} {n : Nat} {m target filled path : String}
      (hr : rule ∈ p.rules) (hm : rule.Matches spec exact n m) (ht : target ∈ rule.targets)
      (hf : Fills m target filled)
      (hc : i.candidate? (Path.join p.pathsBase filled) = some path) :
      IsHit p i spec ⟨exact,n,path,rule.pattern⟩

theorem mem_rankedHits : h ∈ p.rankedHits i spec ↔ p.IsHit i spec h := by
  simp only [rankedHits,List.mem_flatMap,List.mem_filterMap,Option.map_eq_some_iff,
    PathRule.substitute?]
  constructor
  · rintro ⟨rule,hr,filled,hm,path,hc,rfl⟩
    cases hs : rule.captured? spec with
    | none => simp [hs] at hm
    | some m =>
      rw [hs,Option.map_some,Option.getD_some,List.mem_map] at hm
      obtain ⟨target,ht,hf⟩ := hm
      exact .intro hr (PathRule.captured?_eq_some_iff.mp hs) ht (fills_iff.mpr hf) hc
  · rintro ⟨hr,hm,ht,hf,hc⟩
    next rule exact n m target filled path =>
    obtain ⟨rfl,rfl⟩ := hm.eq
    have hs := PathRule.captured?_eq_some_iff.mpr hm
    refine ⟨rule,hr,filled,?_,path,hc,rfl⟩
    rw [hs,Option.map_some,Option.getD_some,List.mem_map]
    exact ⟨target,ht,fills_iff.mp hf⟩

/-- What a profile finds is a hit of least rank, if there is a hit. -/
theorem resolve?_cases (p : Profile) (i : FileIndex) (spec : String) :
    (∃ best, p.IsHit i spec best ∧ (∀ g, p.IsHit i spec g → best.rank ≤ g.rank) ∧
        p.resolve? i spec = some ⟨best.path,some best.pattern,p.tsconfigRel⟩) ∨
      (∀ g, ¬p.IsHit i spec g) ∧
        p.resolve? i spec = (p.baseUrl.bind fun base => i.candidate? (Path.join base spec)).map
          fun path => ⟨path,none,p.tsconfigRel⟩ := by
  rw [resolve?,best?_eq_argmin]
  cases ha : (p.rankedHits i spec).argmin RankedHit.rank with
  | none =>
    refine .inr ⟨fun g hg => ?_,rfl⟩
    have hm := mem_rankedHits.mpr hg
    rw [List.argmin_eq_none.mp ha] at hm
    cases hm
  | some best =>
    obtain ⟨hm,hle,-⟩ := List.argmin_eq_some_iff.mp ha
    exact .inl ⟨best,mem_rankedHits.mp hm,fun g hg => hle g (mem_rankedHits.mpr hg),rfl⟩

/-- The same profile with its rules, and the targets of each, in another order. -/
structure IsShuffle (p q : Profile) : Prop where
  rules : ∃ rules, p.rules.Perm rules ∧
    List.Forall₂ (fun r s => r.pattern = s.pattern ∧ r.targets.Perm s.targets) rules q.rules
  rest : q = { p with rules := q.rules }

theorem IsShuffle.exists_right (hs : p.IsShuffle q) {r : PathRule} (hr : r ∈ p.rules) :
    ∃ s ∈ q.rules, s.pattern = r.pattern ∧ ∀ t ∈ r.targets, t ∈ s.targets := by
  obtain ⟨rules,hperm,hall⟩ := hs.rules
  obtain ⟨s,hsm,hp,ht⟩ := exists_right_of_forall₂ hall (hperm.mem_iff.mp hr)
  exact ⟨s,hsm,hp.symm,fun t => ht.mem_iff.mp⟩

theorem IsShuffle.exists_left (hs : p.IsShuffle q) {s : PathRule} (h : s ∈ q.rules) :
    ∃ r ∈ p.rules, r.pattern = s.pattern ∧ ∀ t ∈ s.targets, t ∈ r.targets := by
  obtain ⟨rules,hperm,hall⟩ := hs.rules
  obtain ⟨r,hrm,hp,ht⟩ := exists_right_of_forall₂ (List.Forall₂.flip hall) h
  exact ⟨r,hperm.mem_iff.mpr hrm,hp,fun t => ht.mem_iff.mpr⟩

theorem IsHit.mono (hh : p.IsHit i spec h) (hb : q.pathsBase = p.pathsBase)
    (hr : ∀ r ∈ p.rules, ∃ s ∈ q.rules, s.pattern = r.pattern ∧ ∀ t ∈ r.targets, t ∈ s.targets) :
    q.IsHit i spec h := by
  obtain ⟨hmem,hm,ht,hf,hc⟩ := hh
  obtain ⟨s,hs,hp,hall⟩ := hr _ hmem
  rw [← hb] at hc
  rw [← hp]
  exact .intro hs (hm.congr hp) (hall _ ht) hf hc

theorem IsShuffle.isHit_iff (hs : p.IsShuffle q) : q.IsHit i spec h ↔ p.IsHit i spec h := by
  have hb : q.pathsBase = p.pathsBase := by rw [hs.rest]
  exact ⟨fun hh => hh.mono hb.symm fun _ => hs.exists_left,fun hh => hh.mono hb fun _ => hs.exists_right⟩

/-- Among all hits the one of least rank is found, whatever the order of rules and targets; where there
is none, a file at the explicit base. A pattern with a star matches the specifiers that go on from
the text before it and end with the text behind it. -/
theorem resolve?_optimum (p : Profile) (i : FileIndex) (spec : String) :
    (∀ h, p.IsHit i spec h → ∃ best, p.IsHit i spec best ∧
        (∀ g, p.IsHit i spec g → best.rank ≤ g.rank) ∧
        p.resolve? i spec = some ⟨best.path,some best.pattern,p.tsconfigRel⟩) ∧
      ((∀ h, ¬p.IsHit i spec h) →
        p.resolve? i spec = (p.baseUrl.bind fun base => i.candidate? (Path.join base spec)).map
          fun path => ⟨path,none,p.tsconfigRel⟩) ∧
      (∀ q, p.IsShuffle q →
        (q.resolve? i spec).map PathHit.path = (p.resolve? i spec).map PathHit.path) ∧
      ('\n' ∉ spec.toList → ∀ r ∈ p.rules, ∀ head tail, r.pattern = head ++ "*" ++ tail →
        '*' ∉ head.toList → ∀ filled, r.substitute? spec = some filled ↔
          ∃ m, spec = head ++ m ++ tail ∧ List.Forall₂ (Fills m) r.targets filled) := by
  refine ⟨?_,?_,?_,?_⟩
  · intro h hh
    rcases p.resolve?_cases i spec with hbest | ⟨hn,-⟩
    · exact hbest
    · exact absurd hh (hn h)
  · intro hn
    rcases p.resolve?_cases i spec with ⟨best,hb,-⟩ | ⟨-,he⟩
    · exact absurd hb (hn best)
    · exact he
  · intro q hq
    rcases p.resolve?_cases i spec with ⟨a,ha,hale,hp⟩ | ⟨hn,hp⟩ <;>
      rcases q.resolve?_cases i spec with ⟨b,hb,hble,hr⟩ | ⟨ho,hr⟩
    · have hrank : a.rank = b.rank :=
        le_antisymm (hale b (hq.isHit_iff.mp hb)) (hble a (hq.isHit_iff.mpr ha))
      rw [hp,hr,Option.map_some,Option.map_some,RankedHit.path_eq_of_rank hrank]
    · exact absurd (hq.isHit_iff.mpr ha) (ho a)
    · exact absurd (hq.isHit_iff.mp hb) (hn b)
    · rw [hp,hr,hq.rest]
  · intro hn r _ head tail hpattern hstar filled
    rw [PathRule.substitute?_eq_some_iff]
    refine exists_congr fun m => and_congr_left fun _ => ?_
    rw [PathRule.captured?_of_star hpattern hstar]
    refine and_iff_left_of_imp ?_
    rintro rfl hm
    exact hn (by simp [hm])

/-- Two rules that match what is below `@app/ui`. -/
def overlapping : Profile :=
  { tsconfigRel := "tsconfig.json"
    baseUrl := some "lib"
    pathsBase := ""
    rules := [⟨"@app/*",["src/*","gen/*"]⟩,⟨"@app/ui/*",["gen/ui/*","ui/*"]⟩]
    outDir := none
    rootDir := none
    declarationDir := none
    fingerprint := "" }

def overlappingReversed : Profile :=
  { overlapping with rules := [⟨"@app/ui/*",["ui/*","gen/ui/*"]⟩,⟨"@app/*",["gen/*","src/*"]⟩] }

def overlappingFiles : FileIndex :=
  .of (.ofPaths ["src/ui/page.ts","gen/ui/page.ts","ui/page.ts","lib/tool.ts"])

theorem isShuffle_overlapping : overlapping.IsShuffle overlappingReversed where
  rules := by
    refine ⟨_,List.Perm.swap ..,.cons ⟨rfl,List.Perm.swap ..⟩ (.cons ⟨rfl,List.Perm.swap ..⟩ .nil)⟩
  rest := rfl

/-- The longer pattern wins, and of its two targets the one that leads to the shorter path. -/
theorem resolve?_optimum_overlapping :
    (∃ best, overlapping.IsHit overlappingFiles "@app/ui/page" best ∧
        best.path = "ui/page.ts" ∧
        (∀ g, overlapping.IsHit overlappingFiles "@app/ui/page" g → best.rank ≤ g.rank) ∧
        overlapping.resolve? overlappingFiles "@app/ui/page" =
          some ⟨best.path,some best.pattern,"tsconfig.json"⟩) ∧
      overlapping.resolve? overlappingFiles "tool" = some ⟨"lib/tool.ts",none,"tsconfig.json"⟩ ∧
      (overlappingReversed.resolve? overlappingFiles "@app/ui/page").map PathHit.path =
        some "ui/page.ts" ∧
      ∃ m, "@app/ui/page" = "@app/" ++ m ++ "" ∧
        List.Forall₂ (Fills m) ["src/*","gen/*"] ["src/ui/page","gen/ui/page"] := by
  have hfound : (overlapping.resolve? overlappingFiles "@app/ui/page").map PathHit.path =
      some "ui/page.ts" := by decide +kernel
  obtain ⟨hhit,-,hshuffle,hsplit⟩ :=
    resolve?_optimum overlapping overlappingFiles "@app/ui/page"
  obtain ⟨-,hbase,-,-⟩ := resolve?_optimum overlapping overlappingFiles "tool"
  refine ⟨?_,?_,?_,?_⟩
  · have hmem : ⟨false,5,"src/ui/page.ts","@app/*"⟩ ∈
        overlapping.rankedHits overlappingFiles "@app/ui/page" := by decide +kernel
    obtain ⟨best,hb,hle,he⟩ := hhit _ (mem_rankedHits.mp hmem)
    rw [he] at hfound
    exact ⟨best,hb,Option.some.inj hfound,hle,he⟩
  · have hnone : overlapping.rankedHits overlappingFiles "tool" = [] := by decide +kernel
    rw [hbase fun h hh => by simpa [hnone] using mem_rankedHits.mpr hh]
    decide +kernel
  · rw [hshuffle _ isShuffle_overlapping,hfound]
  · exact (hsplit (by decide +kernel) ⟨"@app/*",["src/*","gen/*"]⟩ (by decide +kernel) "@app/" ""
      (by decide +kernel) (by decide +kernel) _).mp (by decide +kernel)

end Profile
end TsConfig
end ImportResolution
