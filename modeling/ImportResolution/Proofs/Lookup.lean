import ImportResolution.Proofs.Unindexed

/-! Look-ups in the index. A name means the file of its spelling, or else the least file that differs
from it in case alone, and a candidate comes to the first of its names that means a file. The tree of
starts spares look-ups and changes none, but for candidates that end in a capital sigma. -/
namespace ImportResolution

/-- The file that a name means: the one of its spelling, or else the least that differs from it in case
alone. -/
def FileSet.Means (files : FileSet) (name p : String) : Prop :=
  p ∈ files ∧ (p = name ∨ name ∉ files ∧ Text.lower p = Text.lower name ∧
    ∀ q ∈ files, Text.lower q = Text.lower name → p ≤ q)

/-- A name means a file where any file has its case. -/
theorem FileSet.exists_means {files : FileSet} {name q : String} (hq : q ∈ files)
    (hl : Text.lower q = Text.lower name) : ∃ p, files.Means name p := by
  by_cases hm : name ∈ files
  · exact ⟨name,hm,.inl rfl⟩
  · have hsome : (files.paths.map fun p => (Text.lower p,p)).lookup (Text.lower name) ≠ none := by
      intro hnone
      rw [List.lookup_eq_none_iff] at hnone
      exact absurd (hnone (Text.lower q,q) (List.mem_map_of_mem hq)) (by simp [hl])
    obtain ⟨p,hp⟩ := Option.ne_none_iff_exists'.mp hsome
    obtain ⟨hp,hl,hmin⟩ := (Text.lookup_folded files.ordered).mp hp
    exact ⟨p,hp,.inr ⟨hm,hl,hmin⟩⟩

/-- The names that a path may stand for, the preferred first. -/
def FileIndex.names (rel : String) : List String :=
  if Path.hasExtension rel then [rel] else spellings rel

/-- What a path in its normal form comes to: the first of its names that means a file decides. -/
def FileSet.Finds (files : FileSet) (rel : String) : Option String → Prop
  | some p => Path.isInside rel = true ∧ ∃ front name back,
      FileIndex.names rel = front ++ name :: back ∧ files.Means name p ∧
        ∀ other ∈ front, ∀ q, ¬files.Means other q
  | none => Path.isInside rel = true → ∀ name ∈ FileIndex.names rel, ∀ p, ¬files.Means name p

-- No text is computed from here on, and no unifier should try to.
attribute [local irreducible] String.toList

namespace FileIndex
variable {i : FileIndex} {name p path : String}

theorem spelled?_eq_some_iff : i.spelled? name = some p ↔ i.files.Means name p := by
  have hc : i.contains name = true ↔ name ∈ i.files := FileSet.contains_iff _ _
  unfold spelled? FileSet.Means
  by_cases hm : name ∈ i.files
  · rw [if_pos (hc.mpr hm),Option.some.injEq]
    constructor
    · rintro rfl
      exact ⟨hm,.inl rfl⟩
    · rintro ⟨-,rfl | ⟨hn,-⟩⟩
      · rfl
      · exact absurd hm hn
  · rw [if_neg fun h => hm (hc.mp h),i.folded_eq,Text.lookup_folded i.files.ordered]
    constructor
    · rintro ⟨hp,hl,hmin⟩
      exact ⟨hp,.inr ⟨hm,hl,hmin⟩⟩
    · rintro ⟨hp,rfl | ⟨-,hl,hmin⟩⟩
      · exact absurd hp hm
      · exact ⟨hp,hl,hmin⟩

theorem spelled?_eq_none_iff : i.spelled? name = none ↔ ∀ p, ¬i.files.Means name p := by
  simp only [Option.eq_none_iff_forall_ne_some,ne_eq,spelled?_eq_some_iff]

/-- A look-up that goes through all names, whatever starts the tree knows. -/
def unpruned? (i : FileIndex) (path : String) : Option String :=
  let rel := Path.normalize path
  if !Path.isInside rel then none
  else if Path.hasExtension rel then i.spelled? rel
  else (spellings rel).findSome? i.spelled?

theorem unpruned?_eq (i : FileIndex) (path : String) :
    i.unpruned? path = if Path.isInside (Path.normalize path) = true then
      (names (Path.normalize path)).findSome? i.spelled? else none := by
  unfold unpruned? names
  generalize Path.normalize path = rel
  by_cases hi : Path.isInside rel = true <;> by_cases hx : Path.hasExtension rel = true <;>
    simp [hi,hx]

theorem unpruned?_eq_iff {found : Option String} :
    i.unpruned? path = found ↔ i.files.Finds (Path.normalize path) found := by
  rw [unpruned?_eq]
  by_cases hi : Path.isInside (Path.normalize path) = true
  · rw [if_pos hi]
    cases found with
    | some p =>
      simp only [FileSet.Finds,hi,true_and,List.findSome?_eq_some_iff,spelled?_eq_some_iff,
        spelled?_eq_none_iff]
    | none =>
      simp only [FileSet.Finds,hi,true_implies,List.findSome?_eq_none_iff,spelled?_eq_none_iff]
  · rw [if_neg hi]
    cases found <;> simp [FileSet.Finds,hi]

theorem candidate?_eq (i : FileIndex) (path : String) :
    i.candidate? path = if Path.hasExtension (Path.normalize path) = true ∨
      i.hasStart (Path.normalize path) = true then i.unpruned? path else none := by
  unfold candidate? unpruned? hasStart
  generalize Path.normalize path = rel
  by_cases hi : Path.isInside rel = true <;> by_cases hx : Path.hasExtension rel = true <;>
    by_cases hs : i.trie.hasPathStart rel = true <;> simp [hi,hx,hs]

/-- The tree knows a start for every path with a name that means a file, unless the path has no extension
and ends in a capital sigma. -/
theorem hasStart_of_means (hi : Path.isInside (Path.normalize path) = true)
    (hs : Path.hasExtension (Path.normalize path) = true ∨
      Text.endsInSigma (Path.normalize path) = false)
    (hn : name ∈ names (Path.normalize path)) (hm : i.files.Means name p) :
    i.hasStart (Path.normalize path) = true := by
  have hb : ∀ x ∈ Path.segments (Path.normalize path), x ≠ "" := by
    simp only [Path.isInside,Bool.and_eq_true,Bool.not_eq_true',bne_iff_ne] at hi
    exact fun x hx => (Path.isStep_of_mem_normalize hi.1.2 hi.1.1 hx).1
  unfold names at hn
  by_cases hx : Path.hasExtension (Path.normalize path) = true
  · rw [if_pos hx,List.mem_singleton] at hn
    subst hn
    exact hasPathStart_of_spelled? hb (.inl rfl) (.head _) (spelled?_eq_some_iff.mpr hm)
  · rw [if_neg hx] at hn
    exact hasPathStart_of_spelled? hb (.inr (hs.resolve_left hx)) hn (spelled?_eq_some_iff.mpr hm)

/-- What pruning loses it loses for want of a start: it finds no file of its own. -/
theorem unpruned?_of_candidate? (h : i.candidate? path = some p) : i.unpruned? path = some p := by
  rw [candidate?_eq] at h
  split at h
  · exact h
  · cases h

/-- The tree of starts spares look-ups and changes none, but for paths without extension that end in a
capital sigma. -/
theorem candidate?_eq_unpruned? (i : FileIndex) {path : String}
    (h : Path.hasExtension (Path.normalize path) = true ∨
      Text.endsInSigma (Path.normalize path) = false) :
    i.candidate? path = i.unpruned? path ∧
      (∀ found, i.candidate? path = found ↔ i.files.Finds (Path.normalize path) found) ∧
      (Path.isInside (Path.normalize path) = true → ∀ name ∈ names (Path.normalize path),
        ∀ p, i.files.Means name p → i.hasStart (Path.normalize path) = true) := by
  have hstart : Path.isInside (Path.normalize path) = true →
      ∀ name ∈ names (Path.normalize path), ∀ p, i.files.Means name p →
        i.hasStart (Path.normalize path) = true :=
    fun hi _ hn _ hm => hasStart_of_means hi h hn hm
  have heq : i.candidate? path = i.unpruned? path := by
    rw [candidate?_eq]
    split
    · rfl
    · next hs =>
      rw [not_or] at hs
      refine (unpruned?_eq_iff.mpr ?_).symm
      exact fun hi name hn p hm => hs.2 (hstart hi name hn p hm)
  refine ⟨heq,fun found => ?_,hstart⟩
  rw [heq,unpruned?_eq_iff]

/-- A name of a file that starts with a sigma in the middle of a word. -/
def sigmaFile : FileIndex := of (.ofList ["Σa.ts"])

theorem candidate?_eq_unpruned?_sigmaFile :
    (Path.hasExtension (Path.normalize "./Σa") = true ∨
      Text.endsInSigma (Path.normalize "./Σa") = false) ∧
      sigmaFile.candidate? "./Σa" = sigmaFile.unpruned? "./Σa" ∧
      (∀ found, sigmaFile.candidate? "./Σa" = found ↔
        sigmaFile.files.Finds (Path.normalize "./Σa") found) ∧
      (Path.isInside (Path.normalize "./Σa") = true →
        ∀ name ∈ names (Path.normalize "./Σa"), ∀ p, sigmaFile.files.Means name p →
          sigmaFile.hasStart (Path.normalize "./Σa") = true) := by
  have h : Path.hasExtension (Path.normalize "./Σa") = true ∨
      Text.endsInSigma (Path.normalize "./Σa") = false := .inr (by decide +kernel)
  exact ⟨h,candidate?_eq_unpruned? sigmaFile h⟩

/-- A file whose name has a sigma between a letter and its extension. -/
def lateSigmaFile : FileIndex := of (.ofList ["aΣ.ts"])

/-- The sigma is folded as the last letter of a word without the extension, and as one inside a word with
it, so the tree knows no start for a file that stands under the base. -/
theorem candidate?_lateSigmaFile :
    "aΣ.ts" ∈ names (Path.normalize "aΣ") ∧ lateSigmaFile.files.Means "aΣ.ts" "aΣ.ts" ∧
      lateSigmaFile.unpruned? "aΣ" = some "aΣ.ts" ∧ lateSigmaFile.candidate? "aΣ" = none ∧
      lateSigmaFile.hasStart (Path.normalize "aΣ") = false := by
  have hf : "aΣ.ts" ∈ lateSigmaFile.files := by simp [lateSigmaFile]
  refine ⟨by decide +kernel,⟨hf,.inl rfl⟩,?_,?_,?_⟩ <;> decide +kernel

/-- A name that is spelled like a file keeps no earlier name of its base from a file that differs from that
name in case. -/
theorem means_first_of_mem_spellings {base : String} (hm : name ∈ spellings base) (hf : name ∈ i.files)
    {front back : List String} {first : String} (hs : spellings base = front ++ first :: back)
    (hp : i.files.Means first p) (hfront : ∀ other ∈ front, ∀ q, ¬i.files.Means other q) :
    p = first ∨ p ∉ spellings base ∧ name ∈ back := by
  obtain ⟨hmem,rfl | ⟨hfirst,hl,-⟩⟩ := hp
  · exact .inl rfl
  · refine .inr ⟨fun hspelled => hfirst ?_,?_⟩
    · have hc : first ∈ spellings base := by simp [hs]
      rwa [← eq_of_mem_spellings hspelled hc hl]
    · rw [hs] at hm
      rcases List.mem_append.mp hm with hm | hm
      · exact absurd ⟨hf,.inl rfl⟩ (hfront name hm name)
      · rcases List.mem_cons.mp hm with rfl | hm
        · exact absurd hf hfirst
        · exact hm

/-- Where a name of a base is spelled like a file, the base comes to the first of its names that any file
has the case of: to the file of that spelling, or else to one that differs from it in case alone, and
then the name that is spelled like a file comes later. -/
theorem candidate?_of_mem_files (i : FileIndex) {base name : String}
    (hn : Path.normalize base = base) (hx : Path.hasExtension base = false)
    (hm : name ∈ spellings base) (hf : name ∈ i.files) :
    (∀ p, i.candidate? base = some p → ∃ front first back,
      spellings base = front ++ first :: back ∧ i.files.Means first p ∧
        (∀ other ∈ front, ∀ q ∈ i.files, Text.lower q ≠ Text.lower other) ∧
        (p = first ∨ p ∉ spellings base ∧ name ∈ back)) ∧
      (Path.isInside base = true → Text.endsInSigma base = false →
        ∃ p, i.candidate? base = some p) := by
  have hnames : names base = spellings base := if_neg (by simp [hx])
  constructor
  · intro p hp
    have hfinds := unpruned?_eq_iff.mp (unpruned?_of_candidate? hp)
    rw [hn] at hfinds
    obtain ⟨-,front,first,back,hs,hmeans,hfront⟩ := hfinds
    rw [hnames] at hs
    refine ⟨front,first,back,hs,hmeans,?_,means_first_of_mem_spellings hm hf hs hmeans hfront⟩
    intro other ho q hq hl
    obtain ⟨r,hr⟩ := FileSet.exists_means hq hl
    exact hfront other ho r hr
  · intro hi hsigma
    have hs : Path.hasExtension (Path.normalize base) = true ∨
        Text.endsInSigma (Path.normalize base) = false := .inr (by rwa [hn])
    have hc := (i.candidate?_eq_unpruned? hs).2.1 none
    rw [hn] at hc
    refine Option.ne_none_iff_exists'.mp fun hnone => ?_
    exact hc.mp hnone hi name (by rwa [hnames]) name ⟨hf,.inl rfl⟩

/-- A file in capitals whose extension is preferred to that of one in small letters. -/
def capitalFile : FileIndex := of (.ofList ["A.ts","a.js"])

theorem candidate?_of_mem_files_capitalFile :
    Path.normalize "a" = "a" ∧ Path.hasExtension "a" = false ∧ "a.js" ∈ spellings "a" ∧
      "a.js" ∈ capitalFile.files ∧
      (∀ p, capitalFile.candidate? "a" = some p → ∃ front first back,
        spellings "a" = front ++ first :: back ∧ capitalFile.files.Means first p ∧
          (∀ other ∈ front, ∀ q ∈ capitalFile.files, Text.lower q ≠ Text.lower other) ∧
          (p = first ∨ p ∉ spellings "a" ∧ "a.js" ∈ back)) ∧
      (Path.isInside "a" = true → Text.endsInSigma "a" = false →
        ∃ p, capitalFile.candidate? "a" = some p) := by
  have hn : Path.normalize "a" = "a" := by decide +kernel
  have hx : Path.hasExtension "a" = false := by decide +kernel
  have hm : "a.js" ∈ spellings "a" := by decide +kernel
  have hf : "a.js" ∈ capitalFile.files := by simp [capitalFile]
  exact ⟨hn,hx,hm,hf,candidate?_of_mem_files capitalFile hn hx hm hf⟩

/-- The base comes to the file in capitals, though another file is spelled like one of its names. -/
theorem candidate?_capitalFile :
    Path.normalize "a" = "a" ∧ Path.hasExtension "a" = false ∧ "a.js" ∈ spellings "a" ∧
      "a.js" ∈ capitalFile.files ∧ capitalFile.candidate? "a" = some "A.ts" ∧
      "A.ts" ∉ spellings "a" := by
  have hf : "a.js" ∈ capitalFile.files := by simp [capitalFile]
  refine ⟨?_,?_,?_,hf,?_,?_⟩ <;> decide +kernel

end FileIndex
end ImportResolution
