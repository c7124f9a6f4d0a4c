import ImportResolution.Artifact
import ImportResolution.Proofs.Folding
import ImportResolution.Proofs.Inner

/-! Sources of a generated path. A path in a directory has the sources that it has without the directory,
each of them there, as long as no directory of generated files comes first and its name is more than a
tag; an interface document beside it counts only below a directory. -/
namespace ImportResolution

-- No text is computed here, and no unifier should try to.
attribute [local irreducible] String.toList

namespace Text

theorem lowerAsciiChar_eq_slash {c : Char} : lowerAsciiChar c = '/' ↔ c = '/' := by
  constructor
  · intro h
    unfold lowerAsciiChar at h
    split at h
    · exact absurd h (ofNat_ne_slash (by omega))
    · exact h
  · rintro rfl
    rfl

theorem mem_map_lowerAsciiChar_slash {s : List Char} : '/' ∈ s.map lowerAsciiChar ↔ '/' ∈ s := by
  simp [lowerAsciiChar_eq_slash]

/-- What is sought in a longer text is found where it was when it cannot begin before that. -/
theorem cutChars?_append {pattern front s : List Char}
    (h : ∀ a b, front ++ s = a ++ pattern ++ b → front.length ≤ a.length) :
    cutChars? pattern (front ++ s) =
      (cutChars? pattern s).map fun cut => (front ++ cut.1,cut.2) := by
  induction front with
  | nil => simp
  | cons c front ih =>
    have hn : pattern.isPrefixOf? (c :: (front ++ s)) = none := by
      refine Option.eq_none_iff_forall_ne_some.mpr fun rest hr => ?_
      have hl := h [] rest (by simpa using (isPrefixOf?_eq_some_iff.mp hr).symm)
      simp at hl
    rw [List.cons_append,cutChars?,hn]
    have hi := ih fun a b hab => by
      have hl := h (c :: a) b (by simp [hab])
      simpa using hl
    simp only [hi,Option.map_map]
    rfl

theorem suffix_slash_iff {tail front s : List Char} (h : '/' ∉ tail) :
    tail <:+ front ++ '/' :: s ↔ tail <:+ s := by
  constructor
  · intro ht
    rcases List.suffix_or_suffix_of_suffix ht (List.suffix_append front ('/' :: s)) with hs | hs
    · rcases List.suffix_cons_iff.mp hs with he | hs
      · exact absurd (he ▸ List.mem_cons_self) h
      · exact hs
    · exact absurd (hs.subset List.mem_cons_self) h
  · exact fun hs => (hs.trans (List.suffix_cons _ _)).trans (List.suffix_append _ _)

theorem distinct_map {f : String → String} (hf : ∀ x y, f x = f y → x = y) (xs : List String) :
    distinct (xs.map f) = (distinct xs).map f := by
  cases xs with
  | nil => rfl
  | cons x xs =>
    have hfilter : (xs.map f).filter (fun b => !b == f x) = (xs.filter fun b => !b == x).map f := by
      have hxy : ∀ y, f y = f x ↔ y = x := fun y => ⟨hf y x,congrArg f⟩
      rw [List.filter_map]
      congr 1
      refine List.filter_congr fun y _ => ?_
      simp [hxy]
    have ih := distinct_map hf (xs.filter fun b => !b == x)
    rw [distinct,distinct] at ih ⊢
    rw [List.map_cons,List.eraseDups_cons,hfilter,ih,List.eraseDups_cons,List.map_cons]
termination_by xs.length
decreasing_by
  have h := List.length_filter_le (fun b => !b == x) xs
  simp only [List.length_cons]
  omega

end Text

namespace Artifact
open ImportResolution.Path (IsEnding IsFront IsInner segments)

/-! Parts of a path in a directory. -/

theorem toList_slash (d s : String) : (d ++ "/" ++ s).toList = d.toList ++ '/' :: s.toList := by simp

theorem slash_inj {d s t : String} (h : d ++ "/" ++ s = d ++ "/" ++ t) : s = t := by
  have hl := congrArg String.toList h
  rw [toList_slash,toList_slash] at hl
  exact String.toList_inj.mp (List.cons.inj (List.append_cancel_left hl)).2

theorem take_slash (d s : String) {n : Nat} (h : n ≤ s.toList.length) :
    String.ofList ((d ++ "/" ++ s).toList.take ((d ++ "/" ++ s).toList.length - n)) =
      d ++ "/" ++ String.ofList (s.toList.take (s.toList.length - n)) := by
  apply String.toList_inj.mp
  have hl : d.toList.length + (s.toList.length + 1) - n =
      d.toList.length + ((s.toList.length - n) + 1) := by omega
  rw [toList_slash,toList_slash,String.toList_ofList,String.toList_ofList,List.length_append,
    List.length_cons,hl,List.take_length_add_append,List.take_succ_cons]

section Slash
variable (d s : String)

theorem beforeTailFolded?_slash {tail : String} (h : '/' ∉ tail.toList) :
    beforeTailFolded? tail (d ++ "/" ++ s) = (beforeTailFolded? tail s).map (d ++ "/" ++ ·) := by
  have hiff : tail.toList.isSuffixOf ((d ++ "/" ++ s).toList.map Text.lowerAsciiChar) =
      tail.toList.isSuffixOf (s.toList.map Text.lowerAsciiChar) := by
    rw [Bool.eq_iff_iff,List.isSuffixOf_iff_suffix,List.isSuffixOf_iff_suffix,toList_slash,
      List.map_append,List.map_cons]
    exact Text.suffix_slash_iff h
  rw [beforeTailFolded?,beforeTailFolded?,hiff]
  split
  · next hs =>
    have hl := (List.isSuffixOf_iff_suffix.mp hs).length_le
    rw [List.length_map] at hl
    rw [take_slash d s hl,Option.map_some]
  · rfl

theorem findSome?_beforeTailFolded?_slash {tails : List String} (h : ∀ t ∈ tails, '/' ∉ t.toList) :
    tails.findSome? (beforeTailFolded? · (d ++ "/" ++ s)) =
      (tails.findSome? (beforeTailFolded? · s)).map (d ++ "/" ++ ·) := by
  induction tails with
  | nil => rfl
  | cons t tails ih =>
    rw [List.findSome?_cons,List.findSome?_cons,beforeTailFolded?_slash d s (h t (.head _)),
      ih fun x hx => h x (.tail _ hx)]
    cases beforeTailFolded? t s <;> rfl

/-- Tags that say nothing of directories. -/
def AreNames (tags : List String) : Prop :=
  ∀ t ∈ tags.flatMap fun tag => ["-","_","."].map (· ++ tag), '/' ∉ t.toList

theorem withoutTag_slash {tags : List String} (h : AreNames tags) :
    withoutTag tags (d ++ "/" ++ s) = d ++ "/" ++ withoutTag tags s := by
  rw [withoutTag,findSome?_beforeTailFolded?_slash d s h,withoutTag]
  cases List.findSome? _ _ <;> rfl

theorem beforeMarker?_slash (marker : String) (limit : Option Nat) :
    beforeMarker? marker limit (d ++ "/" ++ s) =
      (beforeMarker? marker limit s).map (d ++ "/" ++ ·) := by
  have hl : (Path.baseName s).toList.length ≤ s.toList.length := by
    unfold Path.baseName Text.cutLast?
    cases hc : Text.cutLastChars? '/' s.toList with
    | none => exact Nat.le_refl _
    | some cut =>
      rw [← (Text.append_of_cutLastChars? hc).1]
      simp [Text.pairOfChars]
      omega
  have ht := congrArg String.toList (take_slash d s hl)
  rw [String.toList_ofList] at ht
  simp only [beforeMarker?,Path.baseName_slash,ht,Option.map_map]
  congr 1
  funext x
  apply String.toList_inj.mp
  simp

theorem looksLikeOpenApi_slash : looksLikeOpenApi (d ++ "/" ++ s) = looksLikeOpenApi s := by
  rw [looksLikeOpenApi,Path.baseName_slash,looksLikeOpenApi]

theorem documentsOf_slash : documentsOf (d ++ "/" ++ s) = (documentsOf s).map (d ++ "/" ++ ·) := by
  have ho : ∀ suffix, d ++ "/" ++ s ++ suffix = d ++ "/" ++ (s ++ suffix) :=
    fun suffix => String.append_assoc ..
  rw [documentsOf,looksLikeOpenApi_slash,documentsOf]
  split <;> simp [ho,Function.comp_def]

end Slash
/-! Directories of generated files. -/

/-- A segment that names a directory of generated files. -/
def IsGenerated (s : String) : Prop := Text.lowerAscii s ∈ subdirs

instance (s : String) : Decidable (IsGenerated s) := inferInstanceAs (Decidable (_ ∈ _))

/-- Where a hint stands in a folded path, the path has such a directory. -/
theorem exists_of_hint {hint path : String} (hh : hint ∈ dirHints) {front back : List Char}
    (h : path.toList.map Text.lowerAsciiChar = front ++ hint.toList ++ back) :
    ∃ a w b, path = a ++ "/" ++ (w ++ "/" ++ b) ∧ IsGenerated w ∧ segments w = [w] ∧
      a.toList.length = front.length ∧ w.toList.length + 2 = hint.toList.length := by
  have hall : ∀ hint ∈ dirHints, ∃ name ∈ subdirs, hint.toList = '/' :: name.toList ++ ['/'] ∧
      '/' ∉ name.toList := by decide +kernel
  obtain ⟨name,hname,hhint,hslash⟩ := hall hint hh
  rw [hhint] at h ⊢
  obtain ⟨am,b,hpath,ham,-⟩ := List.map_eq_append_iff.mp h
  obtain ⟨a,m,rfl,ha,hm⟩ := List.map_eq_append_iff.mp ham
  rw [List.cons_append] at hm
  obtain ⟨c,m,rfl,hc,hm⟩ := List.map_eq_cons_iff.mp hm
  obtain ⟨w,e,rfl,hw,he⟩ := List.map_eq_append_iff.mp hm
  obtain ⟨x,rfl,hx⟩ := List.map_eq_singleton_iff.mp he
  obtain rfl := Text.lowerAsciiChar_eq_slash.mp hc
  obtain rfl := Text.lowerAsciiChar_eq_slash.mp hx
  refine ⟨String.ofList a,String.ofList w,String.ofList b,?_,?_,?_,?_,?_⟩
  · apply String.toList_inj.mp
    simp [hpath]
  · rw [IsGenerated,Text.lowerAscii,String.toList_ofList,hw,String.ofList_toList]
    exact hname
  · refine Path.segments_of_not_mem ?_
    rw [String.toList_ofList,← Text.mem_map_lowerAsciiChar_slash,hw]
    exact hslash
  · rw [String.toList_ofList,← ha,List.length_map]
  · rw [String.toList_ofList,← hw,List.length_append,List.length_cons,List.length_map,
      List.length_singleton]

/-- A path whose first directory is none of generated files. -/
def LeadsPlainly (c : String) : Prop := ∀ s ∈ (segments c).dropLast.head?, ¬IsGenerated s

instance (c : String) : Decidable (LeadsPlainly c) :=
  inferInstanceAs (Decidable (∀ s ∈ (segments c).dropLast.head?, _))

/-- Where the hints first stand in a path, and how long they are. -/
def hintCuts (path : String) : List (Nat × Nat) :=
  dirHints.filterMap fun hint =>
    (Text.cutChars? hint.toList (path.toList.map Text.lowerAsciiChar)).map fun cut =>
      (cut.1.length,hint.length)

def earlier (best : Option (Nat × Nat)) (cut : Nat × Nat) : Option (Nat × Nat) :=
  match best with
  | none => some cut
  | some b => if cut.1 < b.1 then some cut else some b

/-- A slash stands for what is cut out. -/
def cutOut (path : String) (cut : Nat × Nat) : String :=
  String.ofList (path.toList.take cut.1 ++ '/' :: path.toList.drop (cut.1 + cut.2))

theorem collapse?_eq (path : String) :
    collapse? path = ((hintCuts path).foldl earlier none).map (cutOut path) := rfl

theorem earlier_shift (k : Nat) (best : Option (Nat × Nat)) (cut : Nat × Nat) :
    earlier (best.map fun b => (k + b.1,b.2)) (k + cut.1,cut.2) =
      (earlier best cut).map fun b => (k + b.1,b.2) := by
  cases best with
  | none => rfl
  | some b =>
    simp only [earlier,Option.map_some,Nat.add_lt_add_iff_left]
    split <;> rfl

theorem foldl_earlier_shift (k : Nat) (cuts : List (Nat × Nat)) (best : Option (Nat × Nat)) :
    (cuts.map fun cut => (k + cut.1,cut.2)).foldl earlier (best.map fun b => (k + b.1,b.2)) =
      (cuts.foldl earlier best).map fun b => (k + b.1,b.2) := by
  induction cuts generalizing best with
  | nil => rfl
  | cons cut cuts ih =>
    rw [List.map_cons,List.foldl_cons,earlier_shift,ih]
    rfl

theorem eq_or_mem_of_earlier (cuts : List (Nat × Nat)) {best : Option (Nat × Nat)} {cut : Nat × Nat}
    (h : cuts.foldl earlier best = some cut) : best = some cut ∨ cut ∈ cuts := by
  induction cuts generalizing best with
  | nil => exact .inl h
  | cons x cuts ih =>
    rcases ih h with hb | hm
    · cases best with
      | none => exact .inr (Option.some.inj hb ▸ .head _)
      | some b =>
        rw [earlier] at hb
        split at hb
        · exact .inr (Option.some.inj hb ▸ .head _)
        · exact .inl hb
    · exact .inr (.tail _ hm)

theorem cutOut_slash (d c : String) (cut : Nat × Nat) :
    cutOut (d ++ "/" ++ c) (d.toList.length + 1 + cut.1,cut.2) = d ++ "/" ++ cutOut c cut := by
  have hn : d.toList.length + 1 = (d.toList ++ ['/']).length := by simp
  have hs : d.toList ++ '/' :: c.toList = (d.toList ++ ['/']) ++ c.toList := by simp
  apply String.toList_inj.mp
  simp only [cutOut,String.toList_ofList,toList_slash]
  rw [hs,hn,Nat.add_assoc,List.take_length_add_append,List.drop_length_add_append]
  simp

section Collapse
variable {d c : String} (hd : ∀ s ∈ segments d, ¬IsGenerated s) (hc : LeadsPlainly c)
include hd hc

/-- In a directory that has none, a directory of generated files lies below. -/
theorem length_lt_of_hint {hint : String} (hh : hint ∈ dirHints) {front back : List Char}
    (h : (d ++ "/" ++ c).toList.map Text.lowerAsciiChar = front ++ hint.toList ++ back) :
    d.toList.length < front.length := by
  obtain ⟨a,w,b,hpath,hw,hone,hl,-⟩ := exists_of_hint hh h
  rw [← hl]
  have hsegs := congrArg segments hpath
  rw [Path.segments_slash,Path.segments_slash,Path.segments_slash,hone,List.singleton_append] at hsegs
  have hfirst : segments c ≠ w :: segments b := by
    intro he
    refine hc w ?_ hw
    rw [he,List.dropLast_cons_of_ne_nil (Path.segments_ne_nil b)]
    rfl
  rcases List.append_eq_append_iff.mp hsegs with ⟨more,ha,hcs⟩ | ⟨more,hds,hws⟩
  · cases more with
    | nil => exact absurd hcs hfirst
    | cons x more =>
      rw [← Path.ofSegments_segments a,ha,Path.ofSegments_append (Path.segments_ne_nil d)
        (List.cons_ne_nil x more),Path.ofSegments_segments,toList_slash,List.length_append,
        List.length_cons]
      omega
  · cases more with
    | nil => exact absurd hws.symm hfirst
    | cons x more =>
      obtain ⟨rfl,-⟩ := List.cons.inj hws
      exact absurd hw (hd _ (hds ▸ List.mem_append_right _ (.head _)))

theorem cutChars?_hint {hint : String} (hh : hint ∈ dirHints) :
    Text.cutChars? hint.toList ((d ++ "/" ++ c).toList.map Text.lowerAsciiChar) =
      (Text.cutChars? hint.toList (c.toList.map Text.lowerAsciiChar)).map fun cut =>
        ((d.toList ++ ['/']).map Text.lowerAsciiChar ++ cut.1,cut.2) := by
  have hsplit : (d ++ "/" ++ c).toList.map Text.lowerAsciiChar =
      (d.toList ++ ['/']).map Text.lowerAsciiChar ++ c.toList.map Text.lowerAsciiChar := by
    rw [toList_slash,← List.map_append,List.append_assoc,List.singleton_append]
  rw [hsplit]
  refine Text.cutChars?_append fun a b hab => ?_
  have hlt := length_lt_of_hint hd hc hh (hsplit.trans hab)
  simpa using Nat.succ_le_of_lt hlt

theorem hintCuts_slash :
    hintCuts (d ++ "/" ++ c) = (hintCuts c).map fun cut => (d.toList.length + 1 + cut.1,cut.2) := by
  rw [hintCuts,hintCuts,List.map_filterMap]
  refine List.filterMap_congr fun hint hh => ?_
  rw [cutChars?_hint hd hc hh,Option.map_map,Option.map_map]
  congr 1
  funext cut
  simp [Nat.add_assoc,Nat.add_comm 1]

theorem collapse?_slash : collapse? (d ++ "/" ++ c) = (collapse? c).map (d ++ "/" ++ ·) := by
  have hshift := foldl_earlier_shift (d.toList.length + 1) (hintCuts c) none
  rw [Option.map_none] at hshift
  rw [collapse?_eq,hintCuts_slash hd hc,hshift,Option.map_map,collapse?_eq,Option.map_map]
  congr 1
  funext cut
  exact cutOut_slash d c cut

end Collapse

/-- What is collapsed is one directory of generated files below another one. -/
theorem exists_of_collapse? {c shorter : String} (h : collapse? c = some shorter) :
    ∃ a w b, c = a ++ "/" ++ (w ++ "/" ++ b) ∧ shorter = a ++ "/" ++ b ∧ segments w = [w] ∧
      IsGenerated w := by
  rw [collapse?_eq] at h
  obtain ⟨cut,hcut,rfl⟩ := Option.map_eq_some_iff.mp h
  have hm := (eq_or_mem_of_earlier _ hcut).resolve_left (by simp)
  obtain ⟨hint,hh,hfound⟩ := List.mem_filterMap.mp hm
  obtain ⟨found,hf,rfl⟩ := Option.map_eq_some_iff.mp hfound
  obtain ⟨a,w,b,rfl,hg,hone,ha,hw⟩ := exists_of_hint hh (Text.append_of_cutChars? hf).symm
  refine ⟨a,w,b,rfl,?_,hone,hg⟩
  have hl : found.1.length + hint.length = (a.toList ++ '/' :: w.toList ++ ['/']).length := by
    rw [← ha,← String.length_toList,← hw]
    simp [Nat.add_assoc]
  have hs : (a ++ "/" ++ (w ++ "/" ++ b)).toList = a.toList ++ '/' :: w.toList ++ ['/'] ++ b.toList := by
    simp
  apply String.toList_inj.mp
  rw [cutOut,String.toList_ofList,toList_slash a b,hl,hs,List.drop_left,← ha,List.append_assoc,
    List.append_assoc,List.take_left]

/-! Sources of a path. -/

/-- What a path may be generated from is named by one of these. -/
def bases (path : String) : List String :=
  let base := Path.withoutExtension path
  let plain := withoutTag generatorTags base
  [base,plain,withoutTag clientTags base,withoutTag clientTags plain]

/-- The interface documents of a directory, as it names them. -/
def documents : List String := openApiNames.flatMap fun n => openApiExtensions.map (n ++ ·)

theorem counterpartDocuments_eq (path : String) : counterpartDocuments path =
    (Text.distinct ((bases path).filter (· ≠ ""))).flatMap documentsOf ++
      if Path.parent path = "" then [] else documents.map (Path.join (Path.parent path)) := by
  rw [counterpartDocuments,documents]
  simp only [List.map_flatMap,List.map_map]
  rfl

theorem areNames_generatorTags : AreNames generatorTags := by unfold AreNames; decide +kernel

theorem areNames_clientTags : AreNames clientTags := by unfold AreNames; decide +kernel

theorem bases_slash (d c : String) : bases (d ++ "/" ++ c) = (bases c).map (d ++ "/" ++ ·) := by
  simp only [bases,Path.withoutExtension_slash,withoutTag_slash _ _ areNames_generatorTags,
    withoutTag_slash _ _ areNames_clientTags,List.map_cons,List.map_nil]

/-- A path whose sources have names, also when it stands in no directory. -/
def IsNamed (c : String) : Prop :=
  "" ∉ bases c ∧ beforeMarker? ".generated" (some 2) c ≠ some ""

instance (c : String) : Decidable (IsNamed c) := inferInstanceAs (Decidable (_ ∧ _))

theorem isNamed_slash (d c : String) : IsNamed (d ++ "/" ++ c) := by
  refine ⟨?_,?_⟩
  · rw [bases_slash]
    simp
  · rw [beforeMarker?_slash]
    simp

theorem toList_map_append_slash (d ext : String) (stem : Option String) :
    ((stem.map (d ++ "/" ++ ·)).map (· ++ ext)).toList =
      ((stem.map (· ++ ext)).toList).map (d ++ "/" ++ ·) := by
  cases stem <;> simp [String.append_assoc]

theorem counterpartsBySuffix_slash (d : String) {c : String} (h : IsNamed c) :
    counterpartsBySuffix (d ++ "/" ++ c) = (counterpartsBySuffix c).map (d ++ "/" ++ ·) := by
  have htails : ∀ t ∈ ["_pb2_grpc.py","_pb2_grpc.pyi","_pb2.py","_pb2.pyi"], '/' ∉ t.toList := by
    decide +kernel
  have hdart : '/' ∉ ".g.dart".toList := by decide +kernel
  rw [counterpartsBySuffix,counterpartsBySuffix,findSome?_beforeTailFolded?_slash d c htails,
    beforeTailFolded?_slash d c hdart]
  simp only [beforeMarker?_slash,toList_map_append_slash,List.map_append]
  congr 1
  -- A stem is never empty: below the directory for the slash, at the top by the hypothesis.
  cases hs : beforeMarker? ".generated" (some 2) c with
  | none => rfl
  | some stem =>
    have hn : stem ≠ "" := fun he => h.2 (he ▸ hs)
    simp [hn,Option.filter,String.append_assoc]

/-- The interface documents that a path at the top gets only below a directory. -/
def addedDocuments (c : String) : List String := if Path.parent c = "" then documents else []

theorem isInner_document {c doc : String} (h : IsInner c) (hdoc : doc ∈ documents) :
    IsInner (Path.child (Path.parent c) doc) := by
  have hall : ∀ doc ∈ documents, IsEnding doc ∧ IsInner doc := by decide +kernel
  exact h.sibling (hall doc hdoc).1 (hall doc hdoc).2

section Sources
variable {d c : String} (hd : IsInner d)
include hd

theorem counterpartDocuments_slash (hc : IsInner c) (hn : "" ∉ bases c) :
    counterpartDocuments (d ++ "/" ++ c) =
      (counterpartDocuments c ++ addedDocuments c).map (d ++ "/" ++ ·) := by
  have hbelow : ((bases c).map (d ++ "/" ++ ·)).filter (· ≠ "") = (bases c).map (d ++ "/" ++ ·) :=
    List.filter_eq_self.mpr fun s hs => by
      obtain ⟨x,-,rfl⟩ := List.mem_map.mp hs
      simp
  have htop : (bases c).filter (· ≠ "") = bases c :=
    List.filter_eq_self.mpr fun s hs => by simpa using fun he : s = "" => hn (he ▸ hs)
  have hjoin : ∀ doc ∈ documents,
      Path.join (Path.parent (d ++ "/" ++ c)) doc = d ++ "/" ++ Path.join (Path.parent c) doc :=
    fun doc hdoc => Path.join_parent_slash hd hc.isFront.relative (isInner_document hc hdoc)
  rw [counterpartDocuments_eq,counterpartDocuments_eq,bases_slash,hbelow,htop,
    Text.distinct_map (fun _ _ => slash_inj),if_neg (Path.parent_slash_ne_empty hd.isFront.ne_empty c),
    List.map_congr_left hjoin,List.flatMap_map,List.map_append,List.map_append,List.map_flatMap,
    addedDocuments,List.append_assoc]
  simp only [documentsOf_slash]
  congr 1
  split
  · next hp =>
    refine List.map_congr_left fun doc hdoc => ?_
    rw [Path.join_of_isInner (isInner_document hc hdoc),hp]
    rfl
  · simp

end Sources

/-- An inner path that has the same sources below another directory: its first directory holds no
generated files, and its name is more than what names of generated files end in. -/
structure IsRegular (c : String) : Prop where
  inner : IsInner c
  leads : LeadsPlainly c
  named : Path.parent c = "" → IsNamed c

instance (c : String) : Decidable (IsRegular c) :=
  decidable_of_iff (IsInner c ∧ LeadsPlainly c ∧ (Path.parent c = "" → IsNamed c))
    ⟨fun ⟨hi,hl,hn⟩ => ⟨hi,hl,hn⟩,fun h => ⟨h.1,h.2,h.3⟩⟩

namespace IsRegular
variable {c shorter : String} (h : IsRegular c)
include h

theorem isNamed : IsNamed c := by
  by_cases hp : Path.parent c = ""
  · exact h.named hp
  · rw [← Path.child_parent h.inner.isFront.relative,Path.child_of_ne_empty hp]
    exact isNamed_slash _ _

/-- A path without its first directory of generated files is regular, shorter and in a directory. -/
theorem collapse (hs : collapse? c = some shorter) :
    IsRegular shorter ∧ Path.parent shorter ≠ "" ∧ shorter.length < c.length := by
  obtain ⟨a,w,b,rfl,rfl,hw,-⟩ := exists_of_collapse? hs
  have hf := h.inner.isFront
  have ha := hf.of_slash
  have hdown : ∀ x ∈ segments b, Path.IsStep x ∧ x ≠ ".." := fun x hx => hf.down x (by
    rw [Path.segments_slash,Path.segments_slash]
    exact List.mem_append_right _ (List.mem_append_right _ hx))
  have hb : b.toList ≠ [] := by
    intro he
    rw [String.toList_eq_nil_iff.mp he,Path.segments_empty] at hdown
    exact (hdown "" (.head _)).1.1 rfl
  have hback : '\\' ∉ b.toList := fun hm => hf.posix (by simp [hm])
  have htight : Text.IsTight b := by
    have ht := h.inner.tight
    have hl : (a ++ "/" ++ (w ++ "/" ++ b)).toList = (a ++ "/" ++ (w ++ "/")).toList ++ b.toList := by
      simp
    rwa [Text.IsTight,hl,List.getLast?_append_of_ne_nil _ hb] at ht
  have hp := Path.parent_slash_ne_empty ha.ne_empty b
  refine ⟨⟨(ha.slash hback hdown).isInner (htight.append _),?_,fun he => absurd he hp⟩,hp,?_⟩
  · have hl := h.leads
    have hsome := List.isSome_head?.mpr (Path.segments_ne_nil a)
    have hne : segments (w ++ "/" ++ b) ≠ [] := Path.segments_ne_nil _
    rw [LeadsPlainly,Path.segments_slash,List.dropLast_append_of_ne_nil hne,List.head?_append,
      Option.or_of_isSome hsome] at hl
    rwa [LeadsPlainly,Path.segments_slash,List.dropLast_append_of_ne_nil (Path.segments_ne_nil b),
      List.head?_append,Option.or_of_isSome hsome]
  · simp only [String.length_append]
    have hslash : "/".length = 1 := by decide +kernel
    omega

end IsRegular

section Unfolding

-- The recursion is unfolded once, and nothing of what it calls.
attribute [local irreducible] Path.normalize collapse? counterpartsBySuffix counterpartDocuments

theorem counterpartsFrom_eq (fuel : Nat) (candidate : String) :
    counterpartsFrom (fuel + 1) candidate =
      if Path.normalize candidate = "" then []
      else
        counterpartsBySuffix (Path.normalize candidate)
          ++ (match collapse? (Path.normalize candidate) with
            | some shorter => shorter :: counterpartsFrom fuel shorter
            | none => [])
          ++ counterpartDocuments (Path.normalize candidate) := rfl

end Unfolding

theorem counterpartsFrom_succ {c : String} (h : IsInner c) (fuel : Nat) :
    counterpartsFrom (fuel + 1) c = counterpartsBySuffix c ++
      (((collapse? c).map fun shorter => shorter :: counterpartsFrom fuel shorter).getD []) ++
        counterpartDocuments c := by
  rw [counterpartsFrom_eq,h.normal,if_neg h.isFront.ne_empty]
  cases collapse? c with
  | none => simp only [Option.map_none,Option.getD_none]
  | some shorter => simp only [Option.map_some,Option.getD_some]

/-- The sources of a path in a directory are those that it has without, in the directory, and behind them
those that it has not without. Enough fuel is as good as any. -/
theorem counterpartsFrom_slash {d c : String} (hd : IsInner d) (hg : ∀ s ∈ segments d, ¬IsGenerated s)
    (h : IsRegular c) {fuel fuel' : Nat} (hl : c.length < fuel) (hl' : c.length < fuel') :
    counterpartsFrom fuel (d ++ "/" ++ c) =
      (counterpartsFrom fuel' c ++ addedDocuments c).map (d ++ "/" ++ ·) := by
  induction fuel generalizing c fuel' with
  | zero => omega
  | succ fuel ih =>
    obtain ⟨fuel',rfl⟩ : ∃ n, fuel' = n + 1 := ⟨fuel' - 1,by omega⟩
    have hinner : (((collapse? c).map (d ++ "/" ++ ·)).map fun shorter =>
        shorter :: counterpartsFrom fuel shorter).getD [] =
          (((collapse? c).map fun shorter => shorter :: counterpartsFrom fuel' shorter).getD []).map
            (d ++ "/" ++ ·) := by
      cases hs : collapse? c with
      | none => rfl
      | some shorter =>
        obtain ⟨hr,hp,hlt⟩ := h.collapse hs
        have hi := ih hr (show shorter.length < fuel by omega) (show shorter.length < fuel' by omega)
        rw [addedDocuments,if_neg hp,List.append_nil] at hi
        simp only [Option.map_some,Option.getD_some,List.map_cons,hi]
    rw [counterpartsFrom_succ (hd.slash h.inner),counterpartsFrom_succ h.inner,
      counterpartsBySuffix_slash d h.isNamed,collapse?_slash hg h.leads,hinner,
      counterpartDocuments_slash hd h.inner h.isNamed.1]
    simp only [List.map_append,List.append_assoc]

/-! Sources of a directory. -/

/-- A path that goes on from the start of another one without a slash. -/
def IsBeside (d x : String) : Prop :=
  ∃ front back tail : String, d = front ++ back ∧ x = front ++ tail ∧ '/' ∉ tail.toList

theorem IsBeside.ne_slash {d x : String} (h : IsBeside d x) (s : String) : x ≠ d ++ "/" ++ s := by
  obtain ⟨front,back,tail,rfl,rfl,ht⟩ := h
  intro he
  have hl := congrArg String.toList he
  simp only [String.toList_append,List.append_assoc,List.append_cancel_left_eq] at hl
  refine ht (hl ▸ ?_)
  simp

theorem append_of_beforeTailFolded? {tail s front : String} (h : beforeTailFolded? tail s = some front) :
    ∃ back, s = front ++ back := by
  unfold beforeTailFolded? at h
  split at h
  · obtain rfl := Option.some.inj h
    refine ⟨String.ofList (s.toList.drop (s.toList.length - tail.toList.length)),?_⟩
    apply String.toList_inj.mp
    simp
  · cases h

theorem append_of_withoutTag (tags : List String) (s : String) : ∃ back, s = withoutTag tags s ++ back := by
  unfold withoutTag
  cases h : List.findSome? _ _ with
  | none => exact ⟨"",String.append_empty.symm⟩
  | some front =>
    obtain ⟨tail,-,hf⟩ := List.exists_of_findSome?_eq_some h
    exact append_of_beforeTailFolded? hf

theorem append_of_beforeMarkerChars? {marker : List Char} {limit : Option Nat} {s front : List Char}
    (h : beforeMarkerChars? marker limit s = some front) : ∃ back, s = front ++ back := by
  induction s generalizing front with
  | nil => cases h
  | cons c r ih =>
    have hrest : (beforeMarkerChars? marker limit r).map (c :: ·) = some front →
        ∃ back, c :: r = front ++ back := by
      intro hm
      obtain ⟨f,hf,rfl⟩ := Option.map_eq_some_iff.mp hm
      obtain ⟨back,rfl⟩ := ih hf
      exact ⟨back,rfl⟩
    rw [beforeMarkerChars?] at h
    split at h
    · split at h
      · obtain rfl := Option.some.inj h
        exact ⟨_,rfl⟩
      · exact hrest h
    · exact hrest h

theorem append_of_beforeMarker? {marker : String} {limit : Option Nat} {s front : String}
    (h : beforeMarker? marker limit s = some front) : ∃ back, s = front ++ back := by
  obtain ⟨chars,hchars,rfl⟩ := Option.map_eq_some_iff.mp h
  obtain ⟨back,hback⟩ := append_of_beforeMarkerChars? hchars
  obtain ⟨dir,hdir⟩ : ∃ dir, s.toList = dir ++ (Path.baseName s).toList := by
    unfold Path.baseName Text.cutLast?
    cases hc : Text.cutLastChars? '/' s.toList with
    | none => exact ⟨[],rfl⟩
    | some cut =>
      refine ⟨cut.1 ++ ['/'],?_⟩
      simpa [Text.pairOfChars] using (Text.append_of_cutLastChars? hc).1.symm
  refine ⟨String.ofList back,String.toList_inj.mp ?_⟩
  rw [String.toList_append,String.toList_ofList,String.toList_ofList,List.append_assoc,← hback,hdir,
    List.length_append,Nat.add_sub_cancel,List.take_left]

theorem append_of_mem_bases {d base : String} (h : base ∈ bases d) : ∃ back, d = base ++ back := by
  have hbelow : ∀ {s : String} (tags : List String), (∃ back, d = s ++ back) →
      ∃ back, d = withoutTag tags s ++ back := by
    rintro s tags ⟨back,hback⟩
    obtain ⟨more,hmore⟩ := append_of_withoutTag tags s
    exact ⟨more ++ back,by rw [← String.append_assoc,← hmore,hback]⟩
  have hbase : ∃ back, d = Path.withoutExtension d ++ back :=
    ⟨_,(Path.withoutExtension_append d).1.symm⟩
  simp only [bases,List.mem_cons,List.not_mem_nil,or_false] at h
  rcases h with rfl | rfl | rfl | rfl
  · exact hbase
  · exact hbelow _ hbase
  · exact hbelow _ hbase
  · exact hbelow _ (hbelow _ hbase)

theorem exists_of_mem_documentsOf {base x : String} (h : x ∈ documentsOf base) :
    ∃ ext, x = base ++ ext ∧ '/' ∉ ext.toList := by
  have hall : ∀ ext ∈ openApiSourceSuffixes ++ openApiExtensions, '/' ∉ ext.toList := by decide +kernel
  rcases List.mem_append.mp h with h | h
  · obtain ⟨ext,he,rfl⟩ := List.mem_map.mp h
    exact ⟨ext,rfl,hall ext (List.mem_append_left _ he)⟩
  · split at h
    · obtain ⟨ext,he,rfl⟩ := List.mem_map.mp h
      exact ⟨ext,rfl,hall ext (List.mem_append_right _ he)⟩
    · cases h

section Directory
variable {d x : String} (hd : IsInner d)

theorem isBeside_of_mem_bySuffix (hx : x ∈ counterpartsBySuffix d) : IsBeside d x := by
  have hstem : ∀ {stem ext : String}, (∃ back, d = stem ++ back) → x = stem ++ ext → '/' ∉ ext.toList →
      IsBeside d x := by
    rintro stem ext ⟨back,hback⟩ rfl he
    exact ⟨stem,back,ext,hback,rfl,he⟩
  simp only [counterpartsBySuffix,List.mem_append,Option.mem_toList,Option.map_eq_some_iff] at hx
  rcases hx with (((⟨stem,hs,rfl⟩ | ⟨stem,hs,rfl⟩) | ⟨stem,hs,rfl⟩) | ⟨stem,hs,rfl⟩) | hx
  · obtain ⟨tail,-,hf⟩ := List.exists_of_findSome?_eq_some hs
    exact hstem (append_of_beforeTailFolded? hf) rfl (by decide +kernel)
  · exact hstem (append_of_beforeMarker? hs) rfl (by decide +kernel)
  · exact hstem (append_of_beforeMarker? hs) rfl (by decide +kernel)
  · exact hstem (append_of_beforeTailFolded? hs) rfl (by decide +kernel)
  · cases hf : (beforeMarker? ".generated" (some 2) d).filter (· ≠ "") with
    | none =>
      rw [hf] at hx
      cases hx
    | some stem =>
      have hs := append_of_beforeMarker? (Option.filter_eq_some_iff.mp hf).1
      rw [hf] at hx
      simp only [Option.map_some,Option.getD_some,List.mem_cons,List.not_mem_nil,or_false] at hx
      rcases hx with he | he
      · exact hstem hs he (by decide +kernel)
      · exact hstem hs he (by decide +kernel)

include hd

theorem isBeside_of_mem_documents (hx : x ∈ counterpartDocuments d) : IsBeside d x := by
  rw [counterpartDocuments_eq,List.mem_append] at hx
  rcases hx with hx | hx
  · obtain ⟨base,hb,hx⟩ := List.mem_flatMap.mp hx
    rw [Text.distinct,List.mem_eraseDups,List.mem_filter] at hb
    obtain ⟨back,hback⟩ := append_of_mem_bases hb.1
    obtain ⟨ext,rfl,he⟩ := exists_of_mem_documentsOf hx
    exact ⟨base,back,ext,hback,rfl,he⟩
  · split at hx
    · cases hx
    · next hp =>
      obtain ⟨doc,hdoc,rfl⟩ := List.mem_map.mp hx
      have hsingle : ∀ doc ∈ documents, '/' ∉ doc.toList := by decide +kernel
      have hchild := Path.child_parent hd.isFront.relative
      rw [Path.child_of_ne_empty hp] at hchild
      rw [Path.join_of_isInner (isInner_document hd hdoc),Path.child_of_ne_empty hp]
      exact ⟨_,_,doc,hchild.symm,rfl,hsingle doc hdoc⟩

/-- A directory that stands below none of generated files has no source within. -/
theorem isBeside_of_mem_counterpartsFrom (hg : ∀ s ∈ segments d, ¬IsGenerated s) {fuel : Nat}
    (hx : x ∈ counterpartsFrom (fuel + 1) d) : IsBeside d x := by
  have hcollapse : collapse? d = none := by
    refine Option.eq_none_iff_forall_ne_some.mpr fun shorter hs => ?_
    obtain ⟨a,w,b,he,-,hone,hw⟩ := exists_of_collapse? hs
    refine hg w ?_ hw
    rw [he,Path.segments_slash,Path.segments_slash,hone]
    exact List.mem_append_right _ (.head _)
  rw [counterpartsFrom_succ hd,hcollapse,Option.map_none,Option.getD_none,List.append_nil,
    List.mem_append] at hx
  exact hx.elim isBeside_of_mem_bySuffix (isBeside_of_mem_documents hd)

end Directory

end Artifact
end ImportResolution
