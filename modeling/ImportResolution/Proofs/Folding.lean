import ImportResolution.FileSet
import ImportResolution.Proofs.Segments

/-! Folding of case, and the tree of starts. A slash ends every word and folds to itself, so that a path
is folded as its segments are; only a capital sigma at the end of a text folds otherwise than in a
longer one. Elsewhere the tree has a start for every file that is a spelling of a candidate. -/
namespace ImportResolution

namespace Text

/-- The small form of a character between what is behind it, the last first, and what comes. -/
def smallChar (behind : List Char) (c : Char) (r : List Char) : List Char :=
  if c.toNat = 0x3A3 then
    if caseContinues behind && !caseContinues r then [Char.ofNat 0x3C2] else [Char.ofNat 0x3C3]
  else lowerChar c

theorem lowerCharsFrom_cons (behind : List Char) (c : Char) (r : List Char) :
    lowerCharsFrom behind (c :: r) = smallChar behind c r ++ lowerCharsFrom (c :: behind) r := rfl

theorem isCaseIgnorable_slash : isCaseIgnorable '/' = false ∧ isCased '/' = false := by decide +kernel

/-- No word goes on beyond a slash. -/
theorem caseContinues_slash (xs rest : List Char) :
    caseContinues (xs ++ '/' :: rest) = caseContinues xs := by
  induction xs with
  | nil => simp [caseContinues,isCaseIgnorable_slash]
  | cons c r ih =>
    unfold caseContinues at ih ⊢
    cases hc : isCaseIgnorable c with
    | true => simpa [hc] using ih
    | false => simp [hc]

theorem smallChar_behind (xs rest : List Char) (c : Char) (r : List Char) :
    smallChar (xs ++ '/' :: rest) c r = smallChar xs c r := by
  simp only [smallChar,caseContinues_slash]

theorem smallChar_ahead (behind : List Char) (c : Char) (r rest : List Char) :
    smallChar behind c (r ++ '/' :: rest) = smallChar behind c r := by
  simp only [smallChar,caseContinues_slash]

theorem lowerCharsFrom_behind (xs rest s : List Char) :
    lowerCharsFrom (xs ++ '/' :: rest) s = lowerCharsFrom xs s := by
  induction s generalizing xs with
  | nil => rfl
  | cons c r ih =>
    rw [lowerCharsFrom_cons,lowerCharsFrom_cons,smallChar_behind,← List.cons_append,ih]

theorem lowerCharsFrom_slash (behind a b : List Char) :
    lowerCharsFrom behind (a ++ '/' :: b) = lowerCharsFrom behind a ++ '/' :: lowerCharsFrom [] b := by
  induction a generalizing behind with
  | nil =>
    have hs : smallChar behind '/' b = ['/'] := by
      rw [smallChar,if_neg (by decide)]
      decide +kernel
    rw [List.nil_append,lowerCharsFrom_cons,hs,show '/' :: behind = [] ++ '/' :: behind from rfl,
      lowerCharsFrom_behind]
    rfl
  | cons c r ih =>
    rw [List.cons_append,lowerCharsFrom_cons,lowerCharsFrom_cons,smallChar_ahead,ih,
      List.append_assoc]

theorem lower_slash (a b : String) : lower (a ++ "/" ++ b) = lower a ++ "/" ++ lower b := by
  apply String.toList_inj.mp
  simp [lowerCharsFrom_slash]

theorem ofNat_ne_slash {n : Nat} (h : n ≠ 47) : Char.ofNat n ≠ '/' := by
  intro hc
  by_cases hv : n.isValidChar
  · have ho : Char.ofNat n = Char.ofNatAux n hv := dif_pos hv
    exact h (congrArg Char.toNat (ho.symm.trans hc))
  · have ho : Char.ofNat n = '\x00' := dif_neg hv
    exact absurd (ho.symm.trans hc) (by decide)

theorem slash_not_mem_lowerChar {c : Char} (h : c ≠ '/') : '/' ∉ lowerChar c := by
  have hn : c.toNat ≠ 47 := fun hc => h (Char.ext (UInt32.toNat_inj.mp hc))
  have ht : ∀ run ∈ CaseTable.lower, (47 : Int) < run.1 + run.2.2.2 := by decide +kernel
  unfold lowerChar
  split
  · rw [List.mem_singleton,lowerAsciiChar]
    split
    · exact fun hc => ofNat_ne_slash (by omega) hc.symm
    · exact h.symm
  · split
    · decide
    · split
      · next run hrun =>
        have hm := ht run (List.mem_of_find?_eq_some hrun)
        have hp := List.find?_some hrun
        simp only [Bool.and_eq_true,decide_eq_true_eq] at hp
        rw [List.mem_singleton]
        exact fun hc => ofNat_ne_slash (by omega) hc.symm
      · simpa using h.symm

theorem slash_not_mem_lower {s : String} (h : '/' ∉ s.toList) : '/' ∉ (lower s).toList := by
  rw [toList_lower]
  generalize ([] : List Char) = behind
  generalize s.toList = xs at h
  induction xs generalizing behind with
  | nil => simp
  | cons c r ih =>
    rw [lowerCharsFrom_cons,List.mem_append,not_or]
    refine ⟨?_,ih _ fun hm => h (.tail _ hm)⟩
    unfold smallChar
    split
    · split <;> decide
    · exact slash_not_mem_lowerChar fun hc => h (hc ▸ .head _)

theorem lower_ne_empty {s : String} (h : s ≠ "") : lower s ≠ "" := by
  intro he
  have hl := congrArg String.toList he
  rw [toList_lower] at hl
  have hs : s.toList ≠ [] := by simpa using h
  obtain ⟨c,r,hc⟩ := List.exists_cons_of_ne_nil hs
  have hn : smallChar [] c r ≠ [] := by
    unfold smallChar lowerChar
    split
    · split <;> simp
    · split
      · simp
      · split
        · simp
        · split <;> simp
  rw [hc,lowerCharsFrom_cons] at hl
  exact hn (List.append_eq_nil_iff.mp hl).1

/-- Whether a text ends in a capital sigma behind a letter, with nothing after it but what case looks
through. There it folds to its final form, and to the other one as soon as a letter follows. -/
def endsInSigmaFrom (behind : List Char) : List Char → Bool
  | [] => false
  | c :: r =>
    (c == 'Σ' && caseContinues behind && r.all isCaseIgnorable) || endsInSigmaFrom (c :: behind) r

def endsInSigma (s : String) : Bool := endsInSigmaFrom [] s.toList

theorem endsInSigmaFrom_of_not_mem {s : List Char} (h : 'Σ' ∉ s) (behind : List Char) :
    endsInSigmaFrom behind s = false := by
  induction s generalizing behind with
  | nil => rfl
  | cons c r ih =>
    have hc : c ≠ 'Σ' := fun hc => h (hc ▸ .head _)
    simp [endsInSigmaFrom,hc,ih fun hm => h (.tail _ hm)]

theorem endsInSigma_of_not_mem {s : String} (h : 'Σ' ∉ s.toList) : endsInSigma s = false :=
  endsInSigmaFrom_of_not_mem h []

/-- Where something stops the case from being looked through, what comes after does not matter. -/
theorem caseContinues_append {s : List Char} (h : s.all isCaseIgnorable = false) (t : List Char) :
    caseContinues (s ++ t) = caseContinues s := by
  induction s with
  | nil => cases h
  | cons c r ih =>
    unfold caseContinues at ih ⊢
    cases hc : isCaseIgnorable c with
    | true =>
      rw [List.all_cons,hc,Bool.true_and] at h
      simpa [hc] using ih h
    | false => simp [hc]

/-- Unless it ends in a capital sigma, a text folds as it does at the start of a longer one. -/
theorem lowerCharsFrom_prefix {s behind : List Char} (h : endsInSigmaFrom behind s = false)
    (t : List Char) : lowerCharsFrom behind s <+: lowerCharsFrom behind (s ++ t) := by
  induction s generalizing behind with
  | nil => exact List.nil_prefix
  | cons c r ih =>
    rw [endsInSigmaFrom,Bool.or_eq_false_iff] at h
    have hs : smallChar behind c (r ++ t) = smallChar behind c r := by
      by_cases hc : c = 'Σ'
      · subst hc
        cases hb : caseContinues behind with
        | false => simp [smallChar,hb]
        | true =>
          have hr : r.all isCaseIgnorable = false := by simpa [hb] using h.1
          simp only [smallChar,caseContinues_append hr]
      · have hn : c.toNat ≠ 0x3A3 := fun hn => hc (Char.ext (UInt32.toNat_inj.mp hn))
        rw [smallChar,smallChar,if_neg hn,if_neg hn]
    rw [List.cons_append,lowerCharsFrom_cons,lowerCharsFrom_cons,hs]
    exact (List.prefix_append_right_inj _).mpr (ih h.2)

theorem lower_prefix {s : String} (h : endsInSigma s = false) (t : String) :
    (lower s).toList <+: (lower (s ++ t)).toList := by
  rw [toList_lower,toList_lower,String.toList_append]
  exact lowerCharsFrom_prefix h t.toList

theorem endsInSigmaFrom_behind (xs rest s : List Char) :
    endsInSigmaFrom (xs ++ '/' :: rest) s = endsInSigmaFrom xs s := by
  induction s generalizing xs with
  | nil => rfl
  | cons c r ih =>
    rw [endsInSigmaFrom,endsInSigmaFrom,caseContinues_slash,← List.cons_append,ih]

theorem endsInSigmaFrom_slash (behind a b : List Char) :
    endsInSigmaFrom behind (a ++ '/' :: b) = endsInSigmaFrom [] b := by
  induction a generalizing behind with
  | nil =>
    rw [List.nil_append,endsInSigmaFrom,show '/' :: behind = [] ++ '/' :: behind from rfl,
      endsInSigmaFrom_behind]
    simp
  | cons c r ih =>
    rw [List.cons_append,endsInSigmaFrom,ih]
    simp [isCaseIgnorable_slash]

theorem endsInSigma_slash (a b : String) : endsInSigma (a ++ "/" ++ b) = endsInSigma b := by
  simp [endsInSigma,endsInSigmaFrom_slash]

/-- Small letters and whatever else of ASCII has no case. -/
def IsSmall (s : String) : Prop := ∀ c ∈ s.toList, c.toNat < 128 ∧ lowerAsciiChar c = c

instance (s : String) : Decidable (IsSmall s) := List.decidableBAll _ s.toList

/-- How many characters a character folds to does not depend on its neighbours. -/
theorem length_smallChar (behind other : List Char) (c : Char) (r t : List Char) :
    (smallChar behind c r).length = (smallChar other c t).length := by
  unfold smallChar
  split
  · split <;> split <;> rfl
  · rfl

theorem lowerCharsFrom_small {t : List Char} (h : ∀ c ∈ t, c.toNat < 128 ∧ lowerAsciiChar c = c)
    (behind : List Char) : lowerCharsFrom behind t = t := by
  induction t generalizing behind with
  | nil => rfl
  | cons c r ih =>
    obtain ⟨hc,hl⟩ := h c (.head _)
    have hs : smallChar behind c r = [c] := by
      rw [smallChar,if_neg (by omega),lowerChar,if_pos hc,hl]
    rw [lowerCharsFrom_cons,hs,ih fun d hd => h d (.tail _ hd)]
    rfl

/-- What is folded in front of small letters has the same length before any of them. -/
theorem lowerCharsFrom_append_small (s behind : List Char) : ∃ n, ∀ t : List Char,
    (∀ c ∈ t, c.toNat < 128 ∧ lowerAsciiChar c = c) →
      ∃ front, front.length = n ∧ lowerCharsFrom behind (s ++ t) = front ++ t := by
  induction s generalizing behind with
  | nil => exact ⟨0,fun t ht => ⟨[],rfl,lowerCharsFrom_small ht behind⟩⟩
  | cons c r ih =>
    obtain ⟨n,hn⟩ := ih (c :: behind)
    refine ⟨(smallChar behind c []).length + n,fun t ht => ?_⟩
    obtain ⟨front,hl,hf⟩ := hn t ht
    refine ⟨smallChar behind c (r ++ t) ++ front,?_,?_⟩
    · rw [List.length_append,hl,length_smallChar behind behind c (r ++ t) []]
    · rw [List.cons_append,lowerCharsFrom_cons,hf,List.append_assoc]

/-- Folding keeps apart what small letters behind a text keep apart. -/
theorem eq_of_lower_append {s t u : String} (ht : IsSmall t) (hu : IsSmall u)
    (h : lower (s ++ t) = lower (s ++ u)) : t = u := by
  have hl := congrArg String.toList h
  rw [toList_lower,toList_lower,String.toList_append,String.toList_append] at hl
  obtain ⟨n,hn⟩ := lowerCharsFrom_append_small s.toList []
  obtain ⟨front,hfront,hft⟩ := hn t.toList ht
  obtain ⟨other,hother,hou⟩ := hn u.toList hu
  rw [hft,hou] at hl
  exact String.toList_inj.mp (List.append_inj hl (hfront.trans hother.symm)).2

/-- The first entry of a folded list is the least path of its case. -/
theorem lookup_folded {paths : List String} (h : paths.Pairwise (· < ·)) {key p : String} :
    (paths.map fun p => (lower p,p)).lookup key = some p ↔
      p ∈ paths ∧ lower p = key ∧ ∀ q ∈ paths, lower q = key → p ≤ q := by
  induction paths with
  | nil => simp
  | cons x rest ih =>
    obtain ⟨hx,hrest⟩ := List.pairwise_cons.mp h
    rw [List.map_cons,List.lookup_cons]
    by_cases hk : key = lower x
    · subst hk
      simp only [beq_self_eq_true,Option.some.injEq]
      constructor
      · rintro rfl
        refine ⟨.head _,rfl,fun q hq _ => ?_⟩
        rcases List.mem_cons.mp hq with rfl | hq
        · exact String.le_refl q
        · exact String.not_lt.mp fun hlt => String.lt_irrefl q (String.lt_trans hlt (hx q hq))
      · rintro ⟨hp,-,hmin⟩
        rcases List.mem_cons.mp hp with rfl | hp
        · rfl
        · exact absurd (hx p hp) (String.not_lt.mpr (hmin x (.head _) rfl))
    · have hb : (key == lower x) = false := beq_eq_false_iff_ne.mpr hk
      simp only [hb]
      rw [ih hrest]
      constructor
      · rintro ⟨hp,hl,hmin⟩
        refine ⟨.tail _ hp,hl,fun q hq hlq => ?_⟩
        rcases List.mem_cons.mp hq with rfl | hq
        · exact absurd hlq.symm hk
        · exact hmin q hq hlq
      · rintro ⟨hp,hl,hmin⟩
        rcases List.mem_cons.mp hp with rfl | hp
        · exact absurd hl.symm hk
        · exact ⟨hp,hl,fun q hq => hmin q (.tail _ hq)⟩

end Text

namespace Path

theorem lower_ofSegments (xs : List String) (h : xs ≠ []) :
    Text.lower (ofSegments xs) = ofSegments (xs.map Text.lower) := by
  induction xs with
  | nil => exact absurd rfl h
  | cons s r ih =>
    cases r with
    | nil => simp [ofSegments]
    | cons t r =>
      rw [ofSegments_cons_cons,Text.lower_slash,ih (by simp)]
      exact (ofSegments_cons_cons _ _ _).symm

/-- A path is folded segment by segment. -/
theorem segments_lower (s : String) : segments (Text.lower s) = (segments s).map Text.lower := by
  have hn := segments_ne_nil s
  rw [← ofSegments_segments s,lower_ofSegments _ hn,ofSegments_segments]
  refine segments_ofSegments ?_ (by simpa using hn)
  intro x hx
  obtain ⟨y,hy,rfl⟩ := List.mem_map.mp hx
  exact Text.slash_not_mem_lower (not_mem_of_mem_segments hy)

/-- Only the last segment of a path ends it. -/
theorem endsInSigma_ofSegments (front : List String) (last : String) :
    Text.endsInSigma (ofSegments (front ++ [last])) = Text.endsInSigma last := by
  induction front with
  | nil => simp [ofSegments]
  | cons s r ih =>
    obtain ⟨t,ts,ht⟩ := List.exists_cons_of_ne_nil (show r ++ [last] ≠ [] by simp)
    rw [List.cons_append,ht,ofSegments_cons_cons,Text.endsInSigma_slash,← ht,ih]

end Path

namespace Trie

theorem filledSegments_lower (s : String) :
    filledSegments (Text.lower s) = (filledSegments s).map Text.lower := by
  have he : ∀ x, Text.lower x = "" ↔ x = "" := fun x =>
    ⟨fun h => Decidable.byContradiction fun hx => Text.lower_ne_empty hx h,fun h => by rw [h]; rfl⟩
  unfold filledSegments
  rw [Path.segments_lower,List.filter_map]
  congr 1
  exact List.filter_congr fun x _ => by simpa using he x

theorem lookup_alterChild (key : String) (f : Trie → Trie) (k : String) (cs : List (String × Trie)) :
    (alterChild key f cs).lookup k =
      if k = key then some (f ((cs.lookup key).getD empty)) else cs.lookup k := by
  have hb : ∀ {a b : String}, a ≠ b → (a == b) = false := fun h => beq_eq_false_iff_ne.mpr h
  induction cs with
  | nil => by_cases hk : k = key <;> simp [alterChild,List.lookup_cons,hk,hb]
  | cons c r ih =>
    obtain ⟨name,t⟩ := c
    unfold alterChild
    by_cases hn : name = key
    · by_cases hk : k = key <;> simp [List.lookup_cons,hn,hk,hb]
    · by_cases hk : k = key
      · subst hk
        simpa [List.lookup_cons,hn,hb (Ne.symm hn)] using ih
      · simp [List.lookup_cons,hn,hk,ih]

theorem mem_alterChild {key k : String} {f : Trie → Trie} {cs : List (String × Trie)} :
    k ∈ (alterChild key f cs).map Prod.fst ↔ k = key ∨ k ∈ cs.map Prod.fst := by
  induction cs with
  | nil => simp [alterChild]
  | cons c r ih =>
    unfold alterChild
    by_cases hc : c.1 = key
    · simp only [hc,if_true,List.map_cons,List.mem_cons,or_self_left]
    · simp only [hc,if_false,List.map_cons,List.mem_cons,ih]
      exact or_left_comm

theorem children_insert (s : String) (r : List String) (t : Trie) :
    (insert (s :: r) t).children = alterChild s (insert r) t.children := rfl

theorem hasStart_singleton (last : String) (t : Trie) :
    hasStart [last] t = true ↔ ∃ name ∈ t.children.map Prod.fst, Text.startsWith last name = true := by
  simp [hasStart]

theorem hasStart_cons (s : String) {xs : List String} (h : xs ≠ []) (t : Trie) :
    hasStart (s :: xs) t = (t.children.lookup s).any (hasStart xs) := by
  rw [hasStart]
  · cases t.children.lookup s <;> rfl
  · exact h

/-- What is put in can be found by a start of any of its names. -/
theorem hasStart_insert (xs : List String) {last name : String} (h : Text.startsWith last name = true)
    (rest : List String) (t : Trie) :
    hasStart (xs ++ [last]) (insert (xs ++ name :: rest) t) = true := by
  induction xs generalizing t with
  | nil =>
    rw [List.nil_append,hasStart_singleton]
    exact ⟨name,mem_alterChild.mpr (.inl rfl),h⟩
  | cons x r ih =>
    rw [List.cons_append,hasStart_cons x (by simp),List.cons_append,children_insert,
      lookup_alterChild,if_pos rfl]
    exact ih _

/-- Nothing is lost by what is put in. -/
theorem hasStart_insert_of {xs : List String} {t : Trie} (h : hasStart xs t = true)
    (ys : List String) : hasStart xs (insert ys t) = true := by
  induction xs generalizing t ys with
  | nil => cases h
  | cons x r ih =>
    cases ys with
    | nil => exact h
    | cons y ys =>
      cases r with
      | nil =>
        obtain ⟨name,hm,hs⟩ := (hasStart_singleton x t).mp h
        exact (hasStart_singleton x _).mpr ⟨name,mem_alterChild.mpr (.inr hm),hs⟩
      | cons z r =>
        rw [hasStart_cons x (by simp)] at h ⊢
        rw [children_insert,lookup_alterChild]
        split
        · next hk =>
          subst hk
          cases hl : t.children.lookup x with
          | none => simp [hl] at h
          | some child =>
            rw [hl] at h
            exact ih h ys
        · exact h

theorem hasStart_ofPaths {paths : List String} {p : String} (hp : p ∈ paths) {xs rest : List String}
    {last name : String} (hs : (filledSegments p).map Text.lower = xs ++ name :: rest)
    (h : Text.startsWith last name = true) : hasStart (xs ++ [last]) (ofPaths paths) = true := by
  have hk : ∀ (more : List String) (t : Trie), hasStart (xs ++ [last]) t = true →
      hasStart (xs ++ [last]) (more.foldl insertPath t) = true := by
    intro more
    induction more with
    | nil => exact fun _ ht => ht
    | cons q more ih => exact fun t ht => ih _ (hasStart_insert_of ht _)
  obtain ⟨before,later,rfl⟩ := List.append_of_mem hp
  rw [ofPaths,List.foldl_append,List.foldl_cons]
  apply hk
  rw [insertPath,hs]
  exact hasStart_insert xs h rest _

end Trie

namespace FileIndex
variable {i : FileIndex} {b c p : String}

theorem lower_of_spelled? (h : i.spelled? c = some p) :
    p ∈ i.files.paths ∧ Text.lower p = Text.lower c := by
  refine ⟨mem_of_spelled? h,?_⟩
  unfold spelled? at h
  split at h
  · rw [Option.some.inj h]
  · rw [i.folded_eq,Text.lookup_folded i.files.ordered] at h
    exact h.2.1

theorem slash_not_mem_guessedExtensions : ∀ t ∈ guessedExtensions, '/' ∉ t.toList := by decide

/-- Spellings of a base have its segments, of which only the last may go on. -/
theorem segments_of_mem_spellings (h : c ∈ spellings b) : ∃ front last more rest,
    Path.segments b = front ++ [last] ∧ Path.segments c = front ++ (last ++ more) :: rest := by
  obtain ⟨front,last,hb⟩ :=
    (List.eq_nil_or_concat (Path.segments b)).resolve_left (Path.segments_ne_nil b)
  rw [List.concat_eq_append] at hb
  unfold spellings at h
  rcases List.mem_cons.mp h with rfl | h
  · exact ⟨front,last,"",[],hb,by simpa using hb⟩
  · rcases List.mem_append.mp h with h | h
    · obtain ⟨t,ht,rfl⟩ := List.mem_map.mp h
      obtain ⟨front,last,hb,hc⟩ := Path.segments_append b (slash_not_mem_guessedExtensions t ht)
      exact ⟨front,last,t,[],hb,hc⟩
    · obtain ⟨t,ht,rfl⟩ := List.mem_map.mp h
      have hc : b ++ "/index" ++ t = b ++ "/" ++ ("index" ++ t) := by
        apply String.toList_inj.mp
        simp
      refine ⟨front,last,"",Path.segments ("index" ++ t),hb,?_⟩
      rw [hc,Path.segments_slash,hb]
      simp

/-- What spellings put behind their base. -/
def tails : List String :=
  "" :: (guessedExtensions ++ guessedExtensions.map ("/index" ++ ·))

theorem exists_tail_of_mem_spellings (h : c ∈ spellings b) : ∃ t ∈ tails, c = b ++ t := by
  rcases List.mem_cons.mp h with rfl | h
  · exact ⟨"",.head _,String.append_empty.symm⟩
  · rcases List.mem_append.mp h with h | h
    · obtain ⟨t,ht,rfl⟩ := List.mem_map.mp h
      exact ⟨t,.tail _ (List.mem_append_left _ ht),rfl⟩
    · obtain ⟨t,ht,rfl⟩ := List.mem_map.mp h
      exact ⟨"/index" ++ t,.tail _ (List.mem_append_right _ (List.mem_map_of_mem ht)),
        String.append_assoc⟩

/-- Spellings of one base that differ in case alone are one. -/
theorem eq_of_mem_spellings {d : String} (hc : c ∈ spellings b) (hd : d ∈ spellings b)
    (h : Text.lower c = Text.lower d) : c = d := by
  have hsmall : ∀ t ∈ tails, Text.IsSmall t := by decide
  obtain ⟨t,ht,rfl⟩ := exists_tail_of_mem_spellings hc
  obtain ⟨u,hu,rfl⟩ := exists_tail_of_mem_spellings hd
  rw [Text.eq_of_lower_append (hsmall t ht) (hsmall u hu) h]

/-- The tree has a start for a base that is a file and, unless the base ends in a capital sigma, for every
spelling that is one. -/
theorem hasPathStart_of_spelled? (hs : ∀ x ∈ Path.segments b, x ≠ "")
    (hb : c = b ∨ Text.endsInSigma b = false)
    (hc : c ∈ spellings b) (h : i.spelled? c = some p) : i.trie.hasPathStart b = true := by
  obtain ⟨hp,hl⟩ := lower_of_spelled? h
  obtain ⟨front,last,more,rest,hsb,hsc⟩ := segments_of_mem_spellings hc
  rw [hsb] at hs
  have hfront : front.filter (· ≠ "") = front :=
    List.filter_eq_self.mpr fun x hx => by simpa using hs x (List.mem_append_left _ hx)
  have hlast : last ≠ "" := hs last (by simp)
  have hmore : last ++ more ≠ "" := by
    intro he
    exact hlast (String.append_eq_empty_iff.mp he).1
  have hbase : Trie.filledSegments (Text.lower b) = front.map Text.lower ++ [Text.lower last] := by
    rw [Trie.filledSegments_lower,Trie.filledSegments,hsb,List.filter_append,hfront]
    simp [hlast]
  have hfile : (Trie.filledSegments p).map Text.lower = front.map Text.lower ++
      Text.lower (last ++ more) :: (rest.filter (· ≠ "")).map Text.lower := by
    rw [← Trie.filledSegments_lower,hl,Trie.filledSegments_lower,Trie.filledSegments,hsc,
      List.filter_append,hfront]
    simp [hmore]
  have hstart : (Text.lower last).toList <+: (Text.lower (last ++ more)).toList := by
    rcases hb with rfl | hb
    · have hsame : [last] = (last ++ more) :: rest := List.append_cancel_left (hsb.symm.trans hsc)
      refine ⟨[],?_⟩
      rw [List.append_nil,← (List.cons.inj hsame).1]
    · rw [← Path.ofSegments_segments b,hsb,Path.endsInSigma_ofSegments] at hb
      exact Text.lower_prefix hb more
  rw [i.trie_eq,Trie.hasPathStart,hbase]
  exact Trie.hasStart_ofPaths hp hfile ((Text.startsWith_iff _ _).mpr hstart)

end FileIndex
end ImportResolution
