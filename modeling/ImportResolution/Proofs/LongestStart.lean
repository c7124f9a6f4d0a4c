import ImportResolution.Proofs.AliasOrder
import ImportResolution.Proofs.Lookup
import ImportResolution.Proofs.NormalForms

/-! Imports of items. The name of an item is read from its longest start down, and the start that is
taken is the longest that has a file in any of its places; of these places the first decides. -/
namespace ImportResolution

-- No text is computed here, and no unifier should try to.
attribute [local irreducible] String.toList

namespace FileSet
variable {files : FileSet}

/-- No file has the name, in whatever letter case. -/
def Lacks (files : FileSet) (name : String) : Prop := ∀ q ∈ files, Text.lower q ≠ Text.lower name

theorem lacks_iff {name : String} : files.Lacks name ↔ ∀ p, ¬files.Means name p := by
  constructor
  · rintro h p ⟨hp,rfl | ⟨-,hl,-⟩⟩
    · exact h p hp rfl
    · exact h p hp hl
  · intro h q hq hl
    obtain ⟨p,hp⟩ := exists_means hq hl
    exact h p hp

/-- What a name comes to that may be cut short: the longest of its starts that has a file in any of its
places is taken, and of these places the first that has one. -/
def LandsOn (files : FileSet) (places : List String → List String) (name : List String) :
    Option String → Prop
  | some p => ∃ start, start ≠ [] ∧ start <+: name ∧
      (∃ front c back, places start = front ++ c :: back ∧ files.Means c p ∧
        ∀ other ∈ front, files.Lacks other) ∧
      ∀ longer, longer <+: name → start.length < longer.length → ∀ c ∈ places longer, files.Lacks c
  | none => ∀ start, start ≠ [] → start <+: name → ∀ c ∈ places start, files.Lacks c

end FileSet

namespace Dotted

theorem startsOf_concat {α : Type} (xs : List α) (x : α) :
    startsOf (xs ++ [x]) = (xs ++ [x]) :: startsOf xs := by
  have hs : ∀ i ∈ (List.range xs.length).reverse, (xs ++ [x]).take (i + 1) = xs.take (i + 1) := by
    intro i hi
    have hlt : i < xs.length := List.mem_range.mp (List.mem_reverse.mp hi)
    exact List.take_append_of_le_length (by omega)
  simp only [startsOf,List.length_append,List.length_singleton,List.range_succ,List.reverse_append,
    List.reverse_singleton,List.singleton_append,List.map_cons,List.map_congr_left hs]
  rw [List.take_of_length_le (by simp)]

end Dotted

namespace FileIndex
variable {i : FileIndex}

/-- Places that are looked through start by start, the longest first, come to what the name lands on. -/
theorem landsOn_findSome? (places : List String → List String) (name : List String) :
    i.files.LandsOn places name (((Dotted.startsOf name).flatMap places).findSome? i.spelled?) := by
  induction name using List.reverseRecOn with
  | nil =>
    intro start hn hs
    exact absurd (List.prefix_nil.mp hs) hn
  | append_singleton xs x ih =>
    rw [Dotted.startsOf_concat,List.flatMap_cons,List.findSome?_append]
    cases hw : (places (xs ++ [x])).findSome? i.spelled? with
    | some p =>
      simp only [List.findSome?_eq_some_iff,spelled?_eq_some_iff,spelled?_eq_none_iff,
        ← FileSet.lacks_iff] at hw
      refine ⟨xs ++ [x],by simp,List.prefix_rfl,hw,?_⟩
      intro longer hl hlt
      exact absurd hl.length_le (by omega)
    | none =>
      -- The whole name has no file, so it lands where the name without its end does.
      simp only [List.findSome?_eq_none_iff,spelled?_eq_none_iff,← FileSet.lacks_iff] at hw
      rw [Option.none_or]
      generalize ((Dotted.startsOf xs).flatMap places).findSome? i.spelled? = found at ih ⊢
      cases found with
      | some p =>
        obtain ⟨start,hn,hs,hp,hlonger⟩ := ih
        refine ⟨start,hn,hs.trans (List.prefix_append _ _),hp,?_⟩
        intro longer hl hlt
        rcases List.prefix_concat_iff.mp hl with rfl | hl
        · exact hw
        · exact hlonger longer hl hlt
      | none =>
        intro start hn hs
        rcases List.prefix_concat_iff.mp hs with rfl | hs
        · exact hw
        · exact ih start hn hs

/-- A list of candidates is looked through in its normal forms, as far as these are inside. -/
theorem first?_eq (cs : List String) :
    i.first? cs = ((cs.map Path.normalize).filter Path.isInside).findSome? i.spelled? :=
  Text.findSome?_distinct _ _

theorem landsOn_first? {candidates places : List String → List String} {name : List String}
    (h : ∀ start, start ≠ [] → start <+: name →
      ((candidates start).map Path.normalize).filter Path.isInside = places start) :
    i.files.LandsOn places name (i.first? ((Dotted.startsOf name).flatMap candidates)) := by
  have hs : ∀ start ∈ Dotted.startsOf name, start ≠ [] ∧ start <+: name := by
    intro start hm
    obtain ⟨n,hn,rfl⟩ := List.mem_map.mp hm
    have hlt : n < name.length := List.mem_range.mp (List.mem_reverse.mp hn)
    refine ⟨fun he => ?_,List.take_prefix _ _⟩
    have hl := congrArg List.length he
    rw [List.length_take,List.length_nil] at hl
    omega
  have hc : (((Dotted.startsOf name).flatMap candidates).map Path.normalize).filter Path.isInside =
      (Dotted.startsOf name).flatMap places := by
    rw [List.map_flatMap,List.filter_flatMap]
    exact List.flatMap_congr fun start hm => h start (hs start hm).1 (hs start hm).2
  rw [first?_eq,hc]
  exact landsOn_findSome? places name

end FileIndex

/-! Names in dots. -/

namespace Text

theorem mem_of_mem_splitOn {sep c : Char} {s x : String} (hx : x ∈ splitOn sep s)
    (hc : c ∈ x.toList) : c ∈ s.toList ∧ c ≠ sep := by
  have h : ∀ (s : List Char), ∀ l ∈ s.splitOn sep, ∀ c ∈ l, c ∈ s ∧ c ≠ sep := by
    intro s
    induction s with
    | nil => simp
    | cons d r ih =>
      intro l hl c hc
      rw [List.splitOn_cons_eq_if_modifyHead] at hl
      split at hl
      · rcases List.mem_cons.mp hl with rfl | hl
        · cases hc
        · exact (ih l hl c hc).imp_left (.tail _)
      · next hd =>
        obtain ⟨first,rest,hr⟩ := List.exists_cons_of_ne_nil (List.splitOn_ne_nil sep r)
        rw [hr] at hl ih
        rcases List.mem_cons.mp hl with rfl | hl
        · rcases List.mem_cons.mp hc with rfl | hc
          · exact ⟨.head _,fun he => hd (beq_iff_eq.mpr he)⟩
          · exact (ih first (.head _) c hc).imp_left (.tail _)
        · exact (ih l (.tail _ hl) c hc).imp_left (.tail _)
  obtain ⟨l,hl,rfl⟩ := List.mem_map.mp hx
  rw [String.toList_ofList] at hc
  exact h s.toList l hl c hc

theorem isSome_cutChars? (front pattern rest : List Char) :
    (cutChars? pattern (front ++ pattern ++ rest)).isSome = true := by
  induction front with
  | nil =>
    cases h : pattern ++ rest with
    | nil =>
      rw [List.nil_append,h,(List.append_eq_nil_iff.mp h).1]
      rfl
    | cons c r => rw [List.nil_append,h,cutChars?,isPrefixOf?_eq_some_iff.mpr h]; rfl
  | cons c front ih =>
    rw [List.cons_append,List.cons_append,cutChars?]
    split
    · rfl
    · rwa [Option.isSome_map]

theorem contains_append (front pattern rest : String) :
    contains pattern (front ++ pattern ++ rest) = true := by
  rw [contains,String.toList_append,String.toList_append]
  exact isSome_cutChars? _ _ _

/-- White space beyond the first code points. -/
def wideBlanks : List Nat :=
  [0x85,0xA0,0x1680] ++ List.range' 0x2000 11 ++ [0x2028,0x2029,0x202F,0x205F,0x3000]

theorem mem_wideBlanks {c : Char} (h : isBlank c = true) (hc : 128 ≤ c.toNat) :
    c.toNat ∈ wideBlanks := by
  simp only [isBlank,Bool.or_eq_true,Bool.and_eq_true,decide_eq_true_eq] at h
  simp only [wideBlanks,List.mem_append,List.mem_range'_1,List.mem_cons,List.not_mem_nil]
  omega

theorem inRanges_wideBlanks : ∀ n ∈ wideBlanks,
    (WordTable.alphanumeric.any fun range => range.1 ≤ n && n ≤ range.2) = false := by
  decide +kernel

end Text

theorem lt_of_isAlphanum {c : Char} (h : c.isAlphanum = true) : c.toNat < 128 := by
  have hupper (hc : c.isUpper = true) : c.toNat ≤ 'Z'.toNat := (of_decide_eq_true hc).2
  have hlower (hc : c.isLower = true) : c.toNat ≤ 'z'.toNat :=
    of_decide_eq_true (Bool.and_eq_true_iff.mp hc).2
  have hdigit (hc : c.isDigit = true) : c.toNat ≤ '9'.toNat := (Char.isDigit_iff_toNat.mp hc).2
  rcases Bool.or_eq_true_iff.mp h with h | h
  · rcases Bool.or_eq_true_iff.mp h with h | h
    · exact Nat.lt_of_le_of_lt (hupper h) (by decide)
    · exact Nat.lt_of_le_of_lt (hlower h) (by decide)
  · exact Nat.lt_of_le_of_lt (hdigit h) (by decide)

namespace Dotted

/-- What names are made of is no blank and separates nothing. -/
theorem of_isWordChar {c : Char} (h : isWordChar c = true ∨ c = '_') :
    Text.isBlank c = false ∧ c ≠ '/' ∧ c ≠ '\\' := by
  have hsmall : ∀ n < 128, (Char.ofNat n).isAlphanum = true ∨ Char.ofNat n = '_' →
      Text.isBlank (Char.ofNat n) = false ∧ Char.ofNat n ≠ '/' ∧ Char.ofNat n ≠ '\\' := by
    decide +kernel
  by_cases hc : c.toNat < 128
  · have hs := hsmall c.toNat hc
    rw [Char.ofNat_toNat] at hs
    refine hs (h.imp_left fun hw => ?_)
    simpa [isWordChar,Nat.not_le.mpr hc] using hw
  · refine ⟨eq_false_of_ne_true fun hb => ?_,?_,?_⟩
    · have hm := Text.mem_wideBlanks hb (by omega)
      rcases h with h | rfl
      · rw [isWordChar,Bool.or_eq_true,Bool.and_eq_true] at h
        rcases h with h | ⟨-,h⟩
        · exact hc (lt_of_isAlphanum h)
        · rw [Text.inRanges,Text.inRanges_wideBlanks _ hm] at h
          cases h
      · exact hc (by decide)
    · rintro rfl
      exact hc (by decide)
    · rintro rfl
      exact hc (by decide)

theorem of_mem_identifier {name : String} (h : isIdentifier name = true) {c : Char}
    (hc : c ∈ name.toList) (hd : c ≠ '.') : isWordChar c = true ∨ c = '_' := by
  unfold isIdentifier at h
  split at h
  · next first rest hs =>
    rw [hs] at hc
    rw [Bool.and_eq_true,Bool.or_eq_true,decide_eq_true_eq,List.all_eq_true] at h
    rcases List.mem_cons.mp hc with rfl | hc
    · refine h.1.imp_left fun ha => ?_
      rw [isWordChar,Char.isAlphanum,ha]
      rfl
    · have hr := h.2 c hc
      simp only [Bool.or_eq_true,decide_eq_true_eq,hd,or_false] at hr
      exact hr
  · cases h

/-- The parts of a name are names of files. -/
theorem isTidyName_of_mem_parts {name part : String} (h : isIdentifier name = true)
    (hp : part ∈ parts name) : Path.IsTidyName part := by
  obtain ⟨hm,hn⟩ := List.mem_filter.mp hp
  have hchar : ∀ c ∈ part.toList, Text.isBlank c = false ∧ c ≠ '/' ∧ c ≠ '\\' ∧ c ≠ '.' := by
    intro c hc
    obtain ⟨hs,hd⟩ := Text.mem_of_mem_splitOn hm hc
    obtain ⟨hb,hslash,hback⟩ := of_isWordChar (of_mem_identifier h hs hd)
    exact ⟨hb,hslash,hback,hd⟩
  have hdots : ∀ s : String, '.' ∈ s.toList → part ≠ s :=
    fun s hs he => (hchar '.' (he ▸ hs)).2.2.2 rfl
  exact {
    trimmed := Text.trimWhere_eq_self_iff.mpr
      ⟨fun c hc => (hchar c (List.mem_of_head? hc)).1,fun c hc => (hchar c (List.mem_of_getLast? hc)).1⟩
    posix := fun hc => (hchar _ hc).2.2.1 rfl
    isStep := ⟨by simpa using hn,hdots "." (by simp),fun hc => (hchar _ hc).2.1 rfl⟩
    ne_up := hdots ".." (by simp) }

end Dotted

namespace Path

theorem IsTidyName.append {s t : String} (h : IsTidyName s) (ht : IsExtension t) :
    IsTidyName (s ++ t) where
  trimmed := Text.trimWhere_append h.trimmed h.isStep.1 ht.tight.exists_append
  posix := by
    rw [String.toList_append,List.mem_append,not_or]
    exact ⟨h.posix,ht.posix⟩
  isStep := isStep_append h.isStep.2.2 ht
  ne_up := ht.append_ne_up (.inl h.isStep.1)

/-- Tidy names make a path that is looked up as it stands. -/
theorem isInside_ofSegments {names : List String} (h : ∀ s ∈ names, IsTidyName s) (hn : names ≠ []) :
    isInside (ofSegments names) = true := by
  refine (isPlain_ofSegments_names h hn).isInside ?_
  rw [segments_ofSegments_names h hn]
  exact fun hm => (h _ hm).ne_up rfl

/-- The places of a file below a directory, each with another ending. -/
def placesBelow (dir : String) (endings start : List String) : List String :=
  endings.map (child dir (ofSegments start) ++ ·)

/-- Below a directory of tidy names, tidy names with an extension are looked up as they stand, and so is
a file in a directory of this name. -/
theorem normalize_place {dir start : List String} (hd : ∀ s ∈ dir, IsTidyName s)
    (hs : ∀ s ∈ start, IsTidyName s) (hn : start ≠ []) {ending : String}
    (he : IsExtension ending ∨ ∃ name, IsTidyName name ∧ ending = "/" ++ name) :
    normalize (child (ofSegments dir) (ofSegments start) ++ ending) =
        child (ofSegments dir) (ofSegments start) ++ ending ∧
      isInside (child (ofSegments dir) (ofSegments start) ++ ending) = true := by
  have hc : child (ofSegments dir) (ofSegments start) = ofSegments (dir ++ start) := by
    by_cases hdir : dir = []
    · rw [hdir]
      rfl
    · rw [child,if_neg (isPlain_ofSegments_names hd hdir).ne_empty,ofSegments_append hdir hn]
  have hall : ∀ s ∈ dir ++ start, IsTidyName s :=
    fun s hm => (List.mem_append.mp hm).elim (hd s) (hs s)
  obtain ⟨names,hnames,hform⟩ : ∃ names : List String, (∀ s ∈ names, IsTidyName s) ∧
      names ≠ [] ∧ ofSegments (dir ++ start) ++ ending = ofSegments names := by
    rcases he with he | ⟨name,hname,rfl⟩
    · obtain ⟨front,last,rfl⟩ := (List.eq_nil_or_concat start).resolve_left hn
      rw [List.concat_eq_append,← List.append_assoc] at hall ⊢
      refine ⟨dir ++ front ++ [last ++ ending],?_,by simp,ofSegments_concat_append _ _ _⟩
      intro s hm
      rcases List.mem_append.mp hm with hm | hm
      · exact hall s (List.mem_append_left _ hm)
      · rw [List.mem_singleton.mp hm]
        exact (hall last (by simp)).append he
    · refine ⟨dir ++ start ++ [name],?_,by simp,?_⟩
      · intro s hm
        rcases List.mem_append.mp hm with hm | hm
        · exact hall s hm
        · rw [List.mem_singleton.mp hm]
          exact hname
      · rw [ofSegments_concat (by simp [hn]),String.append_assoc]
  rw [hc,hform.2]
  exact ⟨normalize_ofSegments hnames hform.1,isInside_ofSegments hnames hform.1⟩

end Path

/-! The languages whose imports name items. -/

namespace Bare
open ImportResolution.Path (IsExtension IsTidyName ofSegments placesBelow)

/-- Source roots and extensions of the languages whose names are in dots, the preferred first. -/
def dottedRules? : Ecosystem → Option (List String × List String)
  | .java => some (javaRoots,[".java",".kt"])
  | .kotlin => some (kotlinRoots,[".kt",".kts",".java"])
  | .cSharp => some (["","src","app","lib"],[".cs"])
  | .scala => some (guestRoots "scala",[".scala",".java",".kt"])
  | .groovy => some (guestRoots "groovy",[".groovy",".java",".kt"])
  | _ => none

/-- The name in dots that a specifier is read as. The guest languages of the Java platform leave out
what stands for all of a package. -/
def dottedName? (ecosystem : Ecosystem) (spec : String) : Option String :=
  if ecosystem = .scala ∨ ecosystem = .groovy then Dotted.normalize? spec
  else if Dotted.isIdentifier spec then some spec else none

/-- Where the keywords of a Rust path start from. -/
def keywordBases (importer : Importer) : List (String × String) :=
  [("crate","src"),("self",importer.dir),("super",Path.parent importer.dir)]

/-- The segments behind the keyword of a Rust path, which are no empty pieces; without braces and blanks
around them, and up to the first of which nothing is left then or that stands for all. -/
def itemSegments (rest : String) : List String :=
  ((((splitColons rest.toList).map String.ofList).filter (· ≠ "")).map
    (Text.trimWhere isBraceOrBlank)).takeWhile fun s => s != "" && s != "*"

/-- The places of a Rust module, as far as they are inside. -/
def modulePlaces (base : String) (start : List String) : List String :=
  ([".rs","/mod.rs"].map fun ending =>
    Path.normalize (Path.join base (ofSegments start) ++ ending)).filter Path.isInside

/-- The specifier is a path to an item: a name, and the places of the file for each of its starts. -/
inductive IsItemPath (importer : Importer) (spec : String) :
    List String → (List String → List String) → Prop
  | dotted {roots extensions : List String} {name : String}
      (hr : dottedRules? importer.ecosystem = some (roots,extensions))
      (hn : dottedName? importer.ecosystem spec = some name) :
      IsItemPath importer spec (Dotted.parts name) fun start =>
        roots.flatMap fun root => placesBelow root extensions start
  | rust {keyword base rest : String} (he : importer.ecosystem = .rust)
      (hk : (keyword,base) ∈ keywordBases importer) (hs : spec = keyword ++ "::" ++ rest) :
      IsItemPath importer spec (itemSegments rest) (modulePlaces base)

variable {i : FileIndex} {importer : Importer} {spec : String}

/-- A name in dots is looked up as it stands. -/
theorem resolve?_of_isIdentifier {name : String} (h : Dotted.isIdentifier name = true)
    (roots extensions : List String) : Dotted.resolve? i name extensions roots =
      i.first? (Dotted.candidates roots extensions name) := by
  have hword : ∀ c ∈ name.toList, c ≠ '.' → Dotted.isWordChar c = true ∨ c = '_' :=
    fun c hc hd => Dotted.of_mem_identifier h hc hd
  have hback : Text.replaceChar '\\' '.' name = name := by
    have hm : name.toList.map (fun c => if c = '\\' then '.' else c) = name.toList.map id := by
      refine List.map_congr_left fun c hc => if_neg ?_
      rintro rfl
      exact absurd (hword _ hc (by decide)) (by decide +kernel)
    rw [Text.replaceChar,hm,List.map_id,String.ofList_toList]
  have hstar : Text.endsWith ".*" name = false := by
    refine eq_false_of_ne_true fun he => ?_
    obtain ⟨front,rfl⟩ := Text.exists_of_endsWith he
    exact absurd (hword '*' (by simp) (by decide)) (by decide +kernel)
  have hempty : name ≠ "" := by
    rintro rfl
    exact absurd h (by decide +kernel)
  simp only [Dotted.resolve?,hempty,hstar,Bool.false_eq_true,or_self,if_false,hback,h,if_true]

theorem isIdentifier_of_dottedName? {e : Ecosystem} {name : String}
    (h : dottedName? e spec = some name) : Dotted.isIdentifier name = true := by
  unfold dottedName? at h
  split at h
  · simp only [Dotted.normalize?] at h
    split at h
    · next hi => exact Option.some.inj h ▸ hi
    · cases h
  · split at h
    · next hi => exact Option.some.inj h ▸ hi
    · cases h

theorem path?_dotted {roots extensions : List String} {name : String}
    (hr : dottedRules? importer.ecosystem = some (roots,extensions))
    (hn : dottedName? importer.ecosystem spec = some name) (names : Names) :
    path? i spec importer names = i.first? (Dotted.candidates roots extensions name) := by
  rw [← resolve?_of_isIdentifier (isIdentifier_of_dottedName? hn)]
  unfold path?
  cases he : importer.ecosystem <;> rw [he] at hr hn <;> cases hr
  case java.refl | kotlin.refl | cSharp.refl =>
    rw [dottedName?,if_neg (by decide)] at hn
    obtain ⟨-,hs⟩ := Option.ite_none_right_eq_some.mp hn
    obtain rfl := Option.some.inj hs
    rfl
  case scala.refl | groovy.refl =>
    rw [dottedName?,if_pos (by decide)] at hn
    simp only [hn,Option.bind_some]

/-- What stands before two colons is a piece of its own. -/
theorem splitColons_append {front : List Char} (h : ':' ∉ front) (rest : List Char) :
    splitColons (front ++ ':' :: ':' :: rest) = front :: splitColons rest := by
  induction front with
  | nil => rfl
  | cons c front ih =>
    obtain ⟨hc,hf⟩ := not_or.mp (List.mem_cons.not.mp h)
    have hn : ∀ r, c = ':' → front ++ ':' :: ':' :: rest = ':' :: r → False :=
      fun _ he _ => hc he.symm
    rw [List.cons_append,splitColons.eq_2 _ _ hn,ih hf]

theorem rustPath?_of_keyword {keyword base : String} (hk : (keyword,base) ∈ keywordBases importer)
    (rest : String) :
    rustPath? (keyword ++ "::" ++ rest) importer = some (base,itemSegments rest) := by
  have hp : ∀ k : String, ':' ∉ k.toList → k ≠ "" →
      ((splitColons (k ++ "::" ++ rest).toList).map String.ofList).filter (· ≠ "") =
        k :: ((splitColons rest.toList).map String.ofList).filter (· ≠ "") := by
    intro k hc hn
    have hl : (k ++ "::" ++ rest).toList = k.toList ++ ':' :: ':' :: rest.toList := by simp
    rw [hl,splitColons_append hc,List.map_cons,String.ofList_toList,List.filter_cons,
      if_pos (decide_eq_true hn)]
  simp only [keywordBases,List.mem_cons,Prod.mk.injEq,List.not_mem_nil,or_false] at hk
  rcases hk with ⟨rfl,rfl⟩ | ⟨rfl,rfl⟩ | ⟨rfl,rfl⟩
  all_goals
    simp only [rustPath?]
    rw [hp _ (by simp) (by decide)]
    rfl

theorem path?_rust {keyword base rest : String} (he : importer.ecosystem = .rust)
    (hk : (keyword,base) ∈ keywordBases importer) (names : Names) :
    path? i (keyword ++ "::" ++ rest) importer names =
      i.first? (rustCandidates base (itemSegments rest)) := by
  simp only [path?,he,rust?,Text.contains_append,rustPath?_of_keyword hk,Bool.not_true,
    Bool.false_eq_true,if_false,Option.bind_some]

/-- The rules of the languages with names in dots: roots are directories, and extensions extend. -/
theorem of_dottedRules? {e : Ecosystem} {roots extensions : List String}
    (h : dottedRules? e = some (roots,extensions)) :
    (∀ root ∈ roots, ∃ dir, (∀ s ∈ dir, IsTidyName s) ∧ root = ofSegments dir) ∧
      ∀ t ∈ extensions, IsExtension t := by
  have hroot : ∀ root : String, root = "" ∨ (∀ s ∈ Path.segments root, IsTidyName s) →
      ∃ dir, (∀ s ∈ dir, IsTidyName s) ∧ root = ofSegments dir := by
    rintro root (rfl | hs)
    · exact ⟨[],by simp,rfl⟩
    · exact ⟨Path.segments root,hs,(Path.ofSegments_segments root).symm⟩
  have hall : ∀ root ∈ roots, root = "" ∨ ∀ s ∈ Path.segments root, IsTidyName s := by
    cases e <;> cases h <;> decide +kernel
  exact ⟨fun root hr => hroot root (hall root hr),by cases e <;> cases h <;> decide +kernel⟩

/-- An import of an item lands on its longest module. For the languages with names in dots these are
the files of a start below the source roots in their order, with the extensions in theirs; for Rust, the
file of a module below the base of its keyword, and the file in its directory. -/
theorem resolve?_landsOn {name : List String} {places : List String → List String}
    (h : IsItemPath importer spec name places) (i : FileIndex) (names : Names) :
    i.files.LandsOn places name ((resolve? i spec importer names).map (·.path)) := by
  have hpath : (resolve? i spec importer names).map (·.path) = path? i spec importer names := by
    rw [resolve?,Option.map_map]
    exact congrFun Option.map_id _
  rw [hpath]
  cases h with
  | @dotted roots extensions name hr hn =>
    obtain ⟨hroots,hext⟩ := of_dottedRules? hr
    have hid := isIdentifier_of_dottedName? hn
    rw [path?_dotted hr hn]
    refine FileIndex.landsOn_first? fun start hne hs => ?_
    have hstart : ∀ s ∈ start, IsTidyName s :=
      fun s hm => Dotted.isTidyName_of_mem_parts hid (hs.subset hm)
    have hplace : ∀ c ∈ roots.flatMap fun root => placesBelow root extensions start,
        Path.normalize c = c ∧ Path.isInside c = true := by
      intro c hc
      obtain ⟨root,hroot,hm⟩ := List.mem_flatMap.mp hc
      obtain ⟨t,ht,rfl⟩ := List.mem_map.mp hm
      obtain ⟨dir,hdir,rfl⟩ := hroots root hroot
      exact Path.normalize_place hdir hstart hne (.inl (hext t ht))
    rw [show Dotted.stemCandidates roots extensions (ofSegments start) =
      roots.flatMap fun root => placesBelow root extensions start from rfl,
      List.map_congr_left fun c hc => (hplace c hc).1,List.map_id']
    exact List.filter_eq_self.mpr fun c hc => (hplace c hc).2
  | @rust keyword base rest he hk hs =>
    subst hs
    rw [path?_rust he hk]
    refine FileIndex.landsOn_first? fun start hne hs => ?_
    rfl

/-- Where base and segments are tidy, the places of a module are the file of its name and the one in the
directory of its name. -/
theorem modulePlaces_of_tidy {dir start : List String} (hd : ∀ s ∈ dir, IsTidyName s)
    (hs : ∀ s ∈ start, IsTidyName s) (hn : start ≠ []) :
    modulePlaces (ofSegments dir) start = placesBelow (ofSegments dir) [".rs","/mod.rs"] start := by
  have hjoin : Path.join (ofSegments dir) (ofSegments start) =
      Path.child (ofSegments dir) (ofSegments start) :=
    Path.join_names hd (by rwa [Path.segments_ofSegments_names hs hn])
  have hplace : ∀ ending ∈ [".rs","/mod.rs"],
      Path.normalize (Path.child (ofSegments dir) (ofSegments start) ++ ending) =
          Path.child (ofSegments dir) (ofSegments start) ++ ending ∧
        Path.isInside (Path.child (ofSegments dir) (ofSegments start) ++ ending) = true := by
    intro ending he
    refine Path.normalize_place hd hs hn ?_
    simp only [List.mem_cons,List.not_mem_nil,or_false] at he
    rcases he with rfl | rfl
    · exact .inl (by decide +kernel)
    · exact .inr ⟨"mod.rs",by decide +kernel,by decide +kernel⟩
  rw [modulePlaces,hjoin,List.map_congr_left fun ending he => (hplace ending he).1]
  refine List.filter_eq_self.mpr fun c hc => ?_
  obtain ⟨ending,he,rfl⟩ := List.mem_map.mp hc
  exact (hplace ending he).2

/-- A file that is named like an item's module but for the case, and one that is named like an outer
module. -/
def itemFiles : FileIndex := .of (.ofList ["A.cs","src/a/b.cs"])

theorem resolve?_landsOn_itemFiles :
    let places := fun start => ["","src","app","lib"].flatMap fun root => placesBelow root [".cs"] start
    IsItemPath (Importer.of "Main.cs") "A.B.Item" (Dotted.parts "A.B.Item") places ∧
      itemFiles.files.LandsOn places (Dotted.parts "A.B.Item") (some "src/a/b.cs") := by
  intro places
  have h : IsItemPath (Importer.of "Main.cs") "A.B.Item" (Dotted.parts "A.B.Item") places :=
    .dotted (by decide +kernel) (by decide +kernel)
  have hr : (resolve? itemFiles "A.B.Item" (Importer.of "Main.cs") {}).map (·.path) =
      some "src/a/b.cs" := by decide +kernel
  exact ⟨h,hr ▸ resolve?_landsOn h itemFiles {}⟩

end Bare
end ImportResolution
