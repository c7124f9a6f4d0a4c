import ImportResolution.Proofs.Pointing

/-! Where a dotted name with dots in front leads. Every dot but the first climbs one directory from the
importer's, and the climb stops at the top. What follows the dots is sought at or below the directory
that is reached; if nothing follows them, a file beside that directory is taken as well. -/
namespace ImportResolution

-- No text is computed here, and no unifier should try to.
attribute [local irreducible] String.toList

namespace Text

theorem mem_dropWhile {p : Char → Bool} {c : Char} (hc : p c = false) (s : List Char) :
    c ∈ s.dropWhile p ↔ c ∈ s := by
  conv_rhs => rw [← List.takeWhile_append_dropWhile (p := p) (l := s)]
  rw [List.mem_append]
  refine ⟨.inr,fun h => h.resolve_left fun hm => ?_⟩
  rw [List.mem_takeWhile_imp hm] at hc
  cases hc

theorem mem_trimEndChars {p : Char → Bool} {c : Char} (hc : p c = false) (s : List Char) :
    c ∈ trimEndChars p s ↔ c ∈ s := by
  rw [trimEndChars,List.mem_reverse,mem_dropWhile hc,List.mem_reverse]

theorem mem_dropEndWhile {p : Char → Bool} {c : Char} (hc : p c = false) {s : String} :
    c ∈ (dropEndWhile p s).toList ↔ c ∈ s.toList := by
  rw [dropEndWhile,String.toList_ofList,mem_trimEndChars hc]

theorem mem_trim {c : Char} (hc : isBlank c = false) {s : String} :
    c ∈ (trim s).toList ↔ c ∈ s.toList := by
  rw [trim,trimWhere,String.toList_ofList,trimChars,mem_trimEndChars hc,mem_dropWhile hc]

end Text

namespace Path

theorem dot_not_mem_segments {s x : String} (hd : '.' ∉ s.toList) (hx : x ∈ segments s) :
    '.' ∉ x.toList := by
  intro hm
  rw [← ofSegments_segments s,mem_toList_ofSegments (by decide)] at hd
  exact hd ⟨x,hx,hm⟩

theorem up_not_mem_segments {s : String} (hd : '.' ∉ s.toList) : ".." ∉ segments s :=
  fun hm => dot_not_mem_segments hd hm (by simp)

/-- Where there are no dots, only slashes are lost with the segments that a walk skips. -/
theorem mem_ofSegments_filter {s : String} (hd : '.' ∉ s.toList) {c : Char} (hc : c ≠ '/') :
    c ∈ (ofSegments ((segments s).filter fun x => x ≠ "" ∧ x ≠ ".")).toList ↔ c ∈ s.toList := by
  rw [mem_toList_ofSegments hc]
  conv_rhs => rw [← ofSegments_segments s,mem_toList_ofSegments hc]
  constructor
  · rintro ⟨x,hx,hm⟩
    exact ⟨x,(List.mem_filter.mp hx).1,hm⟩
  · rintro ⟨x,hx,hm⟩
    refine ⟨x,List.mem_filter.mpr ⟨hx,decide_eq_true ⟨?_,?_⟩⟩,hm⟩
    · rintro rfl
      simp at hm
    · rintro rfl
      exact dot_not_mem_segments hd hx (by simp)

/-- Where there are no dots, a normal form keeps all characters but blanks and slashes. -/
theorem mem_normalize {s : String} (hd : '.' ∉ s.toList) {c : Char} (hb : Text.isBlank c = false)
    (hs : c ≠ '/') (hp : c ≠ '\\') : c ∈ (normalize s).toList ↔ c ∈ s.toList := by
  have hposix : ∀ d : Char, Text.isBlank d = false → d ≠ '/' → d ≠ '\\' →
      (d ∈ (toPosix (Text.trim s)).toList ↔ d ∈ s.toList) := by
    intro d hdb hds hdp
    rw [toPosix_trim,Text.mem_trim hdb,toPosix,Text.replaceChar,String.toList_ofList,List.mem_map]
    constructor
    · rintro ⟨x,hx,he⟩
      split at he
      · exact absurd he.symm hds
      · exact he ▸ hx
    · exact fun hm => ⟨d,hm,if_neg hdp⟩
  have hdot : '.' ∉ (toPosix (Text.trim s)).toList := by
    rwa [hposix '.' (by decide) (by decide) (by decide)]
  have hm := (mem_ofSegments_filter hdot hs).trans (hposix c hb hs hp)
  rw [← walk_filter (up_not_mem_segments hdot) (isRooted (toPosix (Text.trim s)))] at hm
  simp only [normalize]
  split
  · rw [String.toList_append,List.mem_append,hm]
    simp [hs]
  · exact hm

section Below
variable {names : List String} (h : ∀ s ∈ names, IsTidyName s) (hn : names ≠ [])
include h hn

/-- What goes on from a directory without a step up stays there in its normal form. -/
theorem normalize_below {t : String} (hp : '\\' ∉ t.toList)
    (hu : ".." ∉ segments (Text.dropEndWhile Text.isBlank t)) :
    normalize (ofSegments names ++ "/" ++ t) = ofSegments (names ++
      (segments (Text.dropEndWhile Text.isBlank t)).filter fun x => x ≠ "" ∧ x ≠ ".") := by
  have hb := isPlain_ofSegments_names h hn
  have hslash : Text.trim (ofSegments names ++ "/") = ofSegments names ++ "/" :=
    Text.trimWhere_append hb.trimmed hb.ne_empty ⟨[],'/',by simp,by decide⟩
  have htrim : Text.trim (ofSegments names ++ "/" ++ t) =
      ofSegments names ++ "/" ++ Text.dropEndWhile Text.isBlank t :=
    Text.trimWhere_append_eq hslash (by simp) t
  have hposix : '\\' ∉ (ofSegments names ++ "/" ++ Text.dropEndWhile Text.isBlank t).toList := by
    simp only [String.toList_append,List.mem_append,not_or]
    refine ⟨⟨hb.posix,by simp⟩,fun hm => hp ?_⟩
    rw [Text.dropEndWhile,Text.trimEndChars,String.toList_ofList,List.mem_reverse] at hm
    exact List.mem_reverse.mp ((List.dropWhile_suffix _).subset hm)
  have hr : isRooted (ofSegments names ++ "/" ++ Text.dropEndWhile Text.isBlank t) = false := by
    rw [String.append_assoc,Location.isRooted_append hb.ne_empty]
    exact hb.relative
  have hup : ".." ∉ names ++ segments (Text.dropEndWhile Text.isBlank t) := by
    rw [List.mem_append,not_or]
    exact ⟨fun hm => (h _ hm).ne_up rfl,hu⟩
  have hnames : (names.filter fun x => x ≠ "" ∧ x ≠ ".") = names :=
    List.filter_eq_self.mpr fun x hx => decide_eq_true ⟨(h x hx).isStep.1,(h x hx).isStep.2.1⟩
  simp only [normalize,htrim,toPosix_eq_self hposix,hr,segments_slash,segments_ofSegments_names h hn,
    walk_filter hup,List.filter_append,hnames]
  rfl

/-- It comes to the directory itself, or to a path below it. -/
theorem cases_normalize_below {t : String} (hp : '\\' ∉ t.toList)
    (hu : ".." ∉ segments (Text.dropEndWhile Text.isBlank t)) :
    normalize (ofSegments names ++ "/" ++ t) = ofSegments names ∨
      IsBelow (ofSegments names) (normalize (ofSegments names ++ "/" ++ t)) := by
  rw [normalize_below h hn hp hu]
  generalize hmore : ((segments (Text.dropEndWhile Text.isBlank t)).filter fun x => x ≠ "" ∧ x ≠ ".") =
    more
  have hs : ∀ x ∈ more, IsStep x ∧ x ≠ ".." := by
    intro x hx
    rw [← hmore,List.mem_filter,decide_eq_true_eq] at hx
    exact ⟨⟨hx.2.1,hx.2.2,not_mem_of_mem_segments hx.1⟩,fun he => hu (he ▸ hx.1)⟩
  by_cases hm : more = []
  · exact .inl (by rw [hm,List.append_nil])
  have hsegments : segments (ofSegments more) = more :=
    segments_ofSegments (fun x hx => (hs x hx).1.2.2) hm
  refine .inr ⟨ofSegments more,fun he => ?_,?_,?_⟩
  · rw [he,segments_empty] at hsegments
    exact (hs "" (by simp [← hsegments])).1.1 rfl
  · rw [hsegments]
    exact fun hx => (hs _ hx).2 rfl
  · rw [child,if_neg (isPlain_ofSegments_names h hn).ne_empty,ofSegments_append hn hm]

theorem isNormal_ofSegments : IsNormal (ofSegments names) where
  toIsPlain := isPlain_ofSegments_names h hn
  ups := ⟨0,names,fun hm => (h _ hm).ne_up rfl,by rw [segments_ofSegments_names h hn]; rfl⟩

end Below

/-- A path at or below a directory, up to letter case. -/
def IsWithin (dir path : String) : Prop :=
  ∃ c, (c = dir ∨ IsBelow dir c) ∧ Text.lower path = Text.lower c

theorem IsWithin.cases {dir path : String} (h : IsWithin dir path) (hd : dir ≠ "") :
    Text.lower path = Text.lower dir ∨
      Text.startsWith (Text.lower dir ++ "/") (Text.lower path) = true := by
  obtain ⟨c,rfl | ⟨rest,-,-,rfl⟩,he⟩ := h
  · exact .inl he
  · rw [child,if_neg hd,Text.lower_slash] at he
    exact .inr (he ▸ Text.startsWith_append _ _)

/-- The path goes on from the directory by names without dots, which show the characters, or does not go
on and there are none to show. -/
def IsOnward (dir : String) (shown : List Char) (path : String) : Prop :=
  ∃ u : String, '.' ∉ u.toList ∧ '\\' ∉ u.toList ∧ shown ⊆ u.toList ∧
    (path = dir ++ "/" ++ u ∨ u = "" ∧ path = dir)

section Onward
variable {names : List String} (h : ∀ s ∈ names, IsTidyName s) (hn : names ≠ []) {shown : List Char}
include h hn

theorem IsOnward.normalize (hs : ∀ c ∈ shown, Text.isBlank c = false ∧ c ≠ '/') {path : String}
    (ho : IsOnward (ofSegments names) shown path) :
    IsOnward (ofSegments names) shown (Path.normalize path) := by
  obtain ⟨u,hd,hp,hu,rfl | ⟨rfl,rfl⟩⟩ := ho
  · have hdot : '.' ∉ (Text.dropEndWhile Text.isBlank u).toList := by
      rwa [Text.mem_dropEndWhile (by decide)]
    have hkept : ∀ c, Text.isBlank c = false → c ≠ '/' → (c ∈ (ofSegments
        ((segments (Text.dropEndWhile Text.isBlank u)).filter fun x => x ≠ "" ∧ x ≠ ".")).toList ↔
          c ∈ u.toList) :=
      fun c hb hc => (mem_ofSegments_filter hdot hc).trans (Text.mem_dropEndWhile hb)
    rw [normalize_below h hn hp (up_not_mem_segments hdot)]
    refine ⟨_,(hkept '.' (by decide) (by decide)).not.mpr hd,
      (hkept '\\' (by decide) (by decide)).not.mpr hp,
      fun c hc => (hkept c (hs c hc).1 (hs c hc).2).mpr (hu hc),?_⟩
    generalize ((segments (Text.dropEndWhile Text.isBlank u)).filter fun x => x ≠ "" ∧ x ≠ ".") = more
    by_cases hm : more = []
    · exact .inr ⟨by rw [hm]; rfl,by rw [hm,List.append_nil]⟩
    · exact .inl (ofSegments_append hn hm)
  · exact ⟨"",hd,hp,hu,.inr ⟨rfl,normalize_ofSegments h hn⟩⟩

/-- A spelling of a path onward stays in the directory, unless the path does not go on at all: then an
extension may lead to a file beside the directory. -/
theorem IsOnward.of_mem_spellings {extensions entries : List String}
    (hx : ∀ t ∈ extensions, IsExtension t ∧ t ≠ "..")
    (hentry : ∀ s ∈ entries, IsTidyName s) {place c : String}
    (ho : IsOnward (ofSegments names) shown place)
    (hc : c ∈ Search.spellings place extensions entries) :
    (Path.normalize c = ofSegments names ∨ IsBelow (ofSegments names) (Path.normalize c)) ∨
      shown = [] ∧ ∃ t ∈ extensions, Path.normalize c = ofSegments names ++ t := by
  have hnormal := isNormal_ofSegments h hn
  simp only [Search.spellings,List.mem_cons,List.mem_append,List.mem_map] at hc
  obtain ⟨u,hd,hp,hu,rfl | ⟨rfl,rfl⟩⟩ := ho
  · obtain rfl | ⟨t,ht,rfl⟩ | ⟨s,hs,rfl⟩ := hc
    · refine .inl (cases_normalize_below h hn hp (up_not_mem_segments ?_))
      rwa [Text.mem_dropEndWhile (by decide)]
    · obtain ⟨hext,hne⟩ := hx t ht
      refine .inl ?_
      rw [String.append_assoc]
      refine cases_normalize_below h hn ?_ ?_
      · rw [String.toList_append,List.mem_append,not_or]
        exact ⟨hp,hext.posix⟩
      · obtain ⟨front,last,hf,hl⟩ := segments_append u hext.single
        have hup := up_not_mem_segments hd
        rw [hf,List.mem_append,not_or] at hup
        rw [(Text.IsTight.append hext.tight u).dropEndWhile_eq,hl,List.mem_append,List.mem_singleton,not_or]
        exact ⟨hup.1,(hext.append_ne_up (.inr hne)).symm⟩
    · have hname := hentry s hs
      have ht := Text.isTight_of_trim hname.trimmed hname.isStep.1
      have he : ofSegments names ++ "/" ++ u ++ "/" ++ s = ofSegments names ++ "/" ++ (u ++ "/" ++ s) := by
        simp only [String.append_assoc]
      refine .inl ?_
      rw [he]
      refine cases_normalize_below h hn ?_ ?_
      · simp only [String.toList_append,List.mem_append,not_or]
        exact ⟨⟨hp,by simp⟩,hname.posix⟩
      · rw [(ht.append _).dropEndWhile_eq,segments_slash,segments_of_not_mem hname.isStep.2.2,
          List.mem_append,List.mem_singleton,not_or]
        exact ⟨up_not_mem_segments hd,hname.ne_up.symm⟩
  · obtain rfl | ⟨t,ht,rfl⟩ | ⟨s,hs,rfl⟩ := hc
    · exact .inl (.inl hnormal.normalize_eq)
    · exact .inr ⟨List.eq_nil_of_subset_nil (by simpa using hu),t,ht,(hnormal.append (hx t ht).1).normalize_eq⟩
    · refine .inl (.inr ?_)
      rw [(hnormal.child (hentry s hs)).normalize_eq]
      have hb := (hentry s hs).isBelow (ofSegments names)
      rwa [child,if_neg hnormal.ne_empty] at hb

end Onward

theorem parent_ofSegments {names : List String} (h : ∀ s ∈ names, IsTidyName s) :
    parent (ofSegments names) = ofSegments names.dropLast := by
  rcases List.eq_nil_or_concat names with rfl | ⟨front,last,rfl⟩
  · simp [parent,ofSegments,Text.cutLast?,Text.cutLastChars?]
  · rw [List.concat_eq_append] at h ⊢
    rw [parent_of_segments (segments_ofSegments_names h (by simp)),List.dropLast_concat]

end Path

namespace Python
open ImportResolution.Path (IsOnward IsTidyName IsWithin ofSegments)

variable {i : FileIndex} {importer : Importer}

/-- The name that follows one dot and `k` more. -/
def dotted (k : Nat) (rest : String) : String := String.ofList (List.replicate (k + 1) '.') ++ rest

/-- What a name shows of itself: no blanks, and nothing that separates. -/
def shown (rest : String) : List Char :=
  rest.toList.filter fun c => !Text.isBlank c && c != '.' && c != '/' && c != '\\'

/-- The climb stops at the top. -/
theorem climb_ofSegments {names : List String} (h : ∀ s ∈ names, IsTidyName s) (k : Nat) :
    climb k (ofSegments names) = ofSegments (names.take (names.length - k)) := by
  induction k generalizing names with
  | zero => rw [climb,Nat.sub_zero,List.take_length]
  | succ k ih =>
    rw [climb,Path.parent_ofSegments h,ih fun s hs => h s (List.mem_of_mem_dropLast hs),
      List.length_dropLast,List.dropLast_eq_take,List.take_take]
    congr 2
    omega

/-- Where a dotted name points to from the directory that its dots lead to. -/
def pointed (anchor rest : String) : String :=
  let module := Path.normalize (Text.replaceChar '.' '/' rest)
  if module = "" then anchor else Path.join anchor module

theorem relativeDotted?_dotted {rest : String} (hr : ¬StartsBy '.' rest) (k : Nat) :
    relativeDotted? i (dotted k rest) importer =
      if pointed (climb k importer.dir) rest = "" then i.first? Search.pythonEntries
      else Search.withExtensions? i (pointed (climb k importer.dir) rest) Search.pythonExtensions
        Search.pythonEntries := by
  have hdots : ∀ c ∈ List.replicate (k + 1) '.', (decide (c = '.')) = true := by
    intro c hc
    exact decide_eq_true (List.eq_of_mem_replicate hc)
  have hrest : rest.toList.dropWhile (· = '.') = rest.toList := by
    refine Text.dropWhile_eq_self_iff_head?.mpr fun c hc => decide_eq_false fun he => hr ?_
    obtain ⟨r,hl⟩ := List.head?_eq_some_iff.mp (Option.mem_def.mp hc)
    exact ⟨r,he ▸ hl⟩
  have htake : rest.toList.takeWhile (· = '.') = [] := by
    have hl := congrArg List.length (List.takeWhile_append_dropWhile (p := (· = '.')) (l := rest.toList))
    rw [List.length_append,hrest] at hl
    exact List.length_eq_zero_iff.mp (by omega)
  have hlist : (dotted k rest).toList = List.replicate (k + 1) '.' ++ rest.toList := by
    rw [dotted,String.toList_append,String.toList_ofList]
  simp only [relativeDotted?,hlist,List.takeWhile_append_of_pos hdots,List.dropWhile_append_of_pos hdots,
    htake,hrest,List.append_nil,List.length_replicate,String.ofList_toList,Nat.add_sub_cancel,pointed]
  rfl

theorem isShown {rest : String} : ∀ c ∈ shown rest,
    c ∈ rest.toList ∧ Text.isBlank c = false ∧ c ≠ '.' ∧ c ≠ '/' ∧ c ≠ '\\' := by
  intro c hc
  simpa [shown,and_assoc] using hc

section Found
variable {names : List String} (h : ∀ s ∈ names, IsTidyName s) (rest : String)
include h

theorem isOnward_pointed (hn : names ≠ []) :
    IsOnward (ofSegments names) (shown rest) (pointed (ofSegments names) rest) := by
  have hd : '.' ∉ (Text.replaceChar '.' '/' rest).toList := by
    simp only [Text.replaceChar,String.toList_ofList,List.mem_map,not_exists,not_and]
    intro c _ he
    split at he
    · exact absurd he (by decide)
    · next hc => exact hc he
  have hshown : shown rest ⊆ (Path.normalize (Text.replaceChar '.' '/' rest)).toList := by
    intro c hc
    obtain ⟨hm,hb,hdot,hslash,hback⟩ := isShown c hc
    rw [Path.mem_normalize hd hb hslash hback]
    simp only [Text.replaceChar,String.toList_ofList,List.mem_map]
    exact ⟨c,hm,if_neg hdot⟩
  have hmodule : '.' ∉ (Path.normalize (Text.replaceChar '.' '/' rest)).toList := by
    rwa [Path.mem_normalize hd (by decide) (by decide) (by decide)]
  have hposix := Path.backslash_not_mem_normalize (Text.replaceChar '.' '/' rest)
  simp only [pointed]
  generalize Path.normalize (Text.replaceChar '.' '/' rest) = module at hshown hmodule hposix
  by_cases hv : module = ""
  · subst hv
    exact ⟨"",hmodule,hposix,hshown,.inr ⟨rfl,if_pos rfl⟩⟩
  rw [if_neg hv,Path.join_ofSegments h hn]
  refine Path.IsOnward.normalize h hn (fun c hc => ?_) ⟨module,hmodule,hposix,hshown,.inl rfl⟩
  obtain ⟨-,hb,-,hslash,-⟩ := isShown c hc
  exact ⟨hb,hslash⟩

/-- What is found from a directory lies in it, unless the name shows nothing. -/
theorem of_pointed {path : String}
    (hf : (if pointed (ofSegments names) rest = "" then i.first? Search.pythonEntries
      else Search.withExtensions? i (pointed (ofSegments names) rest) Search.pythonExtensions
        Search.pythonEntries) = some path) :
    IsWithin (ofSegments names) path ∨
      names ≠ [] ∧ shown rest = [] ∧ ∃ t ∈ Search.pythonExtensions,
        Text.lower path = Text.lower (ofSegments names ++ t) := by
  by_cases hn : names = []
  · have htop : ∀ cs, i.first? cs = some path → IsWithin (ofSegments names) path := by
      intro cs hc
      obtain ⟨c,-,hi,he⟩ := FileIndex.exists_of_first? hc
      refine ⟨_,.inr ⟨Path.normalize c,?_,Path.up_not_mem_normalize hi,by rw [hn]; rfl⟩,he⟩
      rintro hv
      simp [Path.isInside,hv] at hi
    refine .inl ?_
    split at hf
    · exact htop _ hf
    · simp only [Search.withExtensions?] at hf
      split at hf
      · cases hf
      · exact htop _ hf
  have ho := isOnward_pointed h rest hn
  have hplace : pointed (ofSegments names) rest ≠ "" := by
    obtain ⟨u,-,-,-,he | ⟨-,he⟩⟩ := ho
    · rw [he]
      simp
    · rw [he]
      exact (Path.isPlain_ofSegments_names h hn).ne_empty
  rw [if_neg hplace] at hf
  simp only [Search.withExtensions?] at hf
  split at hf
  · cases hf
  obtain ⟨c,hc,-,he⟩ := FileIndex.exists_of_first? hf
  have hbase := ho.normalize h hn fun c hc => ⟨(isShown c hc).2.1,(isShown c hc).2.2.2.1⟩
  obtain hw | ⟨hv,t,ht,hb⟩ := hbase.of_mem_spellings h hn (by decide +kernel) (by decide +kernel) hc
  · exact .inl ⟨_,hw,he⟩
  · exact .inr ⟨hn,hv,t,ht,hb ▸ he⟩

end Found

/-- A dotted name leads to a file at or below the directory that its dots climb to, up to letter case;
the climb stops at the top, however many dots there are. A name of dots alone also leads to a file
that is called as the directory is. -/
theorem relativeDotted?_climbs {names : List String} (h : ∀ s ∈ names, IsTidyName s)
    (hdir : importer.dir = ofSegments names) {rest : String} (hr : ¬StartsBy '.' rest) (k : Nat) :
    (∀ path, relativeDotted? i (dotted k rest) importer = some path → path ∈ i.files ∧
      (IsWithin (ofSegments (names.take (names.length - k))) path ∨
        k < names.length ∧ shown rest = [] ∧ ∃ t ∈ Search.pythonExtensions,
          Text.lower path = Text.lower (ofSegments (names.take (names.length - k)) ++ t))) ∧
    (names.length ≤ k → relativeDotted? i (dotted k rest) importer =
      relativeDotted? i (dotted names.length rest) importer) := by
  have hd : ∀ n, relativeDotted? i (dotted n rest) importer = _ := relativeDotted?_dotted hr
  simp only [hdir,climb_ofSegments h] at hd
  constructor
  · intro path hp
    refine ⟨offers_relativeDotted? i _ importer path hp,?_⟩
    rw [hd] at hp
    refine (of_pointed (fun s hs => h s (List.mem_of_mem_take hs)) rest hp).imp_right fun hb => ⟨?_,hb.2⟩
    by_contra hk
    exact hb.1 (by rw [Nat.sub_eq_zero_of_le (by omega),List.take_zero])
  · intro hk
    rw [hd,hd,Nat.sub_eq_zero_of_le hk,Nat.sub_self]

/-- Two dots in a package of a package. -/
theorem relativeDotted?_climbs_package :
    let i := FileIndex.of (.ofList ["app/Util/x.py"])
    let importer := Importer.of "app/web/page.py"
    ((∀ s ∈ ["app","web"], IsTidyName s) ∧ importer.dir = ofSegments ["app","web"] ∧
      ¬StartsBy '.' "util.x" ∧ relativeDotted? i (dotted 1 "util.x") importer = some "app/Util/x.py") ∧
    (∀ path, relativeDotted? i (dotted 1 "util.x") importer = some path → path ∈ i.files ∧
      (IsWithin (ofSegments (["app","web"].take (["app","web"].length - 1))) path ∨
        1 < ["app","web"].length ∧ shown "util.x" = [] ∧ ∃ t ∈ Search.pythonExtensions,
          Text.lower path = Text.lower (ofSegments (["app","web"].take (["app","web"].length - 1)) ++ t))) ∧
    (["app","web"].length ≤ 1 → relativeDotted? i (dotted 1 "util.x") importer =
      relativeDotted? i (dotted ["app","web"].length "util.x") importer) := by
  intro i importer
  have hnames : ∀ s ∈ ["app","web"], IsTidyName s := by decide +kernel
  have hdir : importer.dir = ofSegments ["app","web"] := by decide +kernel
  have hr : ¬StartsBy '.' "util.x" := by
    rw [startsBy_iff]
    decide +kernel
  have hf : relativeDotted? i (dotted 1 "util.x") importer = some "app/Util/x.py" := by decide +kernel
  exact ⟨⟨hnames,hdir,hr,hf⟩,relativeDotted?_climbs hnames hdir hr 1⟩

/-- Two dots at the top lead to the top; two dots alone lead beside the directory that they climb to;
and from a directory whose name starts by a blank, a name leads into the one without the blank. -/
theorem climbs_beyond :
    ((Importer.of "main.py").dir = ofSegments [] ∧
      relativeDotted? (.of (.ofList ["util.py"])) (dotted 1 "util") (.of "main.py") = some "util.py") ∧
    ((Importer.of "app/web/page.py").dir = ofSegments ["app","web"] ∧
      relativeDotted? (.of (.ofList ["app.py"])) (dotted 1 "") (.of "app/web/page.py") =
        some "app.py" ∧ ¬IsWithin (ofSegments ["app"]) "app.py") ∧
    (Importer.of " a/page.py").dir = ofSegments [" a"] ∧
      relativeDotted? (.of (.ofList ["a/x.py"])) (dotted 0 "x") (.of " a/page.py") =
        some "a/x.py" ∧ ¬IsWithin (ofSegments [" a"]) "a/x.py" := by
  have happ : ¬IsWithin (ofSegments ["app"]) "app.py" := fun hw =>
    (hw.cases (by decide +kernel)).elim (by decide +kernel) (by decide +kernel)
  have hblank : ¬IsWithin (ofSegments [" a"]) "a/x.py" := fun hw =>
    (hw.cases (by decide +kernel)).elim (by decide +kernel) (by decide +kernel)
  exact ⟨⟨by decide +kernel,by decide +kernel⟩,⟨by decide +kernel,by decide +kernel,happ⟩,
    by decide +kernel,by decide +kernel,hblank⟩

end Python
end ImportResolution
