import ImportResolution.Proofs.Indexed
import ImportResolution.Proofs.NormalForms

/-! Where a relative specifier leads. A rule answers with the place that the specifier points to, with
that place and an extension, or with a file below it, up to letter case. Only imports of Dart are
looked for at the root as well, once nothing is there. -/
namespace ImportResolution

-- No text is computed here, and no unifier should try to.
attribute [local irreducible] String.toList

namespace Path

/-- The path goes on behind the directory, and takes no step up there. -/
def IsBelow (dir path : String) : Prop := ∃ rest, rest ≠ "" ∧ ".." ∉ segments rest ∧ path = child dir rest

theorem IsTidyName.isBelow {name : String} (h : IsTidyName name) (dir : String) :
    IsBelow dir (child dir name) := by
  refine ⟨name,h.isStep.1,?_,rfl⟩
  rw [segments_of_not_mem h.isStep.2.2,List.mem_singleton]
  exact h.ne_up.symm

/-- A path that ends neither in a slash nor in a dot lies below its parent. -/
theorem isBelow_parent {path : String} {c : Char} (hc : path.toList.getLast? = some c) (hs : c ≠ '/')
    (hd : c ≠ '.') : IsBelow (parent path) path := by
  have hname : ∀ s : String, s.toList.getLast? = some c → s ≠ "" ∧ ".." ≠ s := by
    refine fun s hl => ⟨fun he => ?_,fun he => hd ?_⟩
    · simp [he] at hl
    · have hup : "..".toList.getLast? = some '.' := by simp
      rw [← he,hup] at hl
      exact (Option.some.inj hl).symm
  unfold parent Text.cutLast?
  cases hcut : Text.cutLastChars? '/' path.toList with
  | none =>
    have hslash := (Text.cutLastChars?_eq_none _ _).mp hcut
    refine ⟨path,(hname path hc).1,?_,rfl⟩
    rw [segments_of_not_mem hslash,List.mem_singleton]
    exact (hname path hc).2
  | some cut =>
    obtain ⟨he,hslash⟩ := Text.append_of_cutLastChars? hcut
    have hpath : path = String.ofList cut.1 ++ "/" ++ String.ofList cut.2 := by
      apply String.toList_inj.mp
      simp [← he]
    have hsegments : segments (String.ofList cut.2) = [String.ofList cut.2] :=
      segments_of_not_mem (by simpa using hslash)
    have hl : (String.ofList cut.2).toList.getLast? = some c := by
      rw [← he,List.getLast?_append] at hc
      rw [String.toList_ofList]
      cases hlast : cut.2.getLast? with
      | none =>
        rw [List.getLast?_cons,hlast] at hc
        exact absurd (Option.some.inj hc).symm hs
      | some d => simpa [List.getLast?_cons,hlast] using hc
    have hdir : ((some cut).map Text.pairOfChars).map Prod.fst = some (String.ofList cut.1) := rfl
    rw [hdir,Option.getD_some]
    by_cases hn : String.ofList cut.1 = ""
    · refine ⟨path,(hname path hc).1,?_,by rw [child,if_pos hn]⟩
      rw [hpath,hn,segments_slash,hsegments,segments_empty,List.mem_append,List.mem_singleton,List.mem_singleton]
      exact fun hm => hm.elim (by decide) (hname _ hl).2
    · refine ⟨String.ofList cut.2,(hname _ hl).1,?_,by rw [child,if_neg hn]; exact hpath⟩
      rw [hsegments,List.mem_singleton]
      exact (hname _ hl).2

/-- A path that may stand for a place: the place, the place with an extension, or a path below it. -/
inductive IsAt (place : String) : String → Prop
  | self : IsAt place place
  | extended {ext : String} (h : IsExtension ext) : IsAt place (place ++ ext)
  | below {path : String} (h : IsBelow place path) : IsAt place path

theorem IsAt.exists_append {place c : String} (h : IsAt place c) : ∃ t, c = place ++ t := by
  cases h with
  | self => exact ⟨"",String.append_empty.symm⟩
  | extended _ => exact ⟨_,rfl⟩
  | below hb =>
    obtain ⟨rest,-,-,rfl⟩ := hb
    by_cases hp : place = ""
    · exact ⟨rest,by rw [child,if_pos hp,hp,String.empty_append]⟩
    · exact ⟨"/" ++ rest,by rw [child,if_neg hp,String.append_assoc]⟩

/-- A path that stands for a place up to letter case. -/
def IsNear (place path : String) : Prop := ∃ c, IsAt place c ∧ Text.lower path = Text.lower c

/-- What stands for a place starts as the place does. -/
theorem IsNear.startsWith {place path : String} (h : IsNear place path)
    (hs : Text.endsInSigma place = false) :
    Text.startsWith (Text.lower place) (Text.lower path) = true := by
  obtain ⟨c,hc,he⟩ := h
  obtain ⟨t,rfl⟩ := hc.exists_append
  rw [he,Text.startsWith_iff]
  exact Text.lower_prefix hs t

end Path

open ImportResolution.Path (IsAt IsBelow IsExtension IsNear IsTidyName)

variable {i : FileIndex} {importer : Importer} {path : String}

namespace FileIndex

theorem exists_of_first? {candidates : List String} (h : i.first? candidates = some path) :
    ∃ c ∈ candidates, Path.isInside (Path.normalize c) = true ∧
      Text.lower path = Text.lower (Path.normalize c) := by
  obtain ⟨s,hs,hp⟩ := List.exists_of_findSome?_eq_some h
  rw [Text.distinct,List.mem_eraseDups,List.mem_filter,List.mem_map] at hs
  obtain ⟨⟨c,hc,rfl⟩,hi⟩ := hs
  exact ⟨c,hc,hi,(lower_of_spelled? hp).2⟩

/-- A file of a directory lies below it. -/
theorem isBelow_of_mem_filesIn {dir ending : String} {c : Char}
    (hc : ending.toList.getLast? = some c) (hs : c ≠ '/') (hd : c ≠ '.')
    (h : path ∈ i.filesIn dir (some ending)) : IsBelow (Path.normalize dir) path := by
  have hm : path ∈ i.files.paths.filter fun p =>
      Path.parent p == Path.normalize dir && (some ending).all (Text.endsWith · p) := by
    simp only [filesIn,List.mem_append] at h
    rcases h with h | h <;> exact (List.mem_filter.mp h).1
  obtain ⟨-,hp⟩ := List.mem_filter.mp hm
  simp only [Bool.and_eq_true,beq_iff_eq,Option.all_some,Text.endsWith_iff] at hp
  obtain ⟨hp,r,hr⟩ := hp
  have hl : path.toList.getLast? = some c := by
    rw [← hr,List.getLast?_append,hc]
    rfl
  rw [← hp]
  exact Path.isBelow_parent hl hs hd

end FileIndex

namespace Search
variable {place : String} {extensions entries : List String}

theorem isAt_of_mem_spellings (hp : place ≠ "") (hx : ∀ t ∈ extensions, IsExtension t)
    (hn : ∀ s ∈ entries, IsTidyName s) {c : String} (h : c ∈ spellings place extensions entries) :
    IsAt place c := by
  simp only [spellings,List.mem_cons,List.mem_append,List.mem_map] at h
  obtain rfl | ⟨t,ht,rfl⟩ | ⟨s,hs,rfl⟩ := h
  · exact .self
  · exact .extended (hx t ht)
  · have hb := (hn s hs).isBelow place
    rw [Path.child,if_neg hp] at hb
    exact .below hb

/-- A search from a place finds the place itself, or one of its other spellings. -/
theorem exists_of_withExtensions? (ht : Text.trim (Path.normalize place) = Path.normalize place)
    (hx : ∀ t ∈ extensions, IsExtension t) (hn : ∀ s ∈ entries, IsTidyName s)
    (h : withExtensions? i place extensions entries = some path) :
    Path.IsNormal (Path.normalize place) ∧
      ∃ c ∈ spellings (Path.normalize place) extensions entries, Text.lower path = Text.lower c := by
  simp only [withExtensions?] at h
  split at h
  · cases h
  next hp =>
  have hb := Path.isNormal_normalize ht (by simpa using fun hr => hp (.inr hr)) fun he => hp (.inl he)
  obtain ⟨c,hc,-,he⟩ := FileIndex.exists_of_first? h
  refine ⟨hb,c,hc,?_⟩
  suffices hnormal : Path.normalize c = c by rwa [hnormal] at he
  simp only [spellings,List.mem_cons,List.mem_append,List.mem_map] at hc
  obtain rfl | ⟨t,ht,rfl⟩ | ⟨s,hs,rfl⟩ := hc
  · exact hb.normalize_eq
  · exact (hb.append (hx t ht)).normalize_eq
  · exact (hb.child (hn s hs)).normalize_eq

theorem isNear_of_withExtensions? (ht : Text.trim (Path.normalize place) = Path.normalize place)
    (hx : ∀ t ∈ extensions, IsExtension t) (hn : ∀ s ∈ entries, IsTidyName s)
    (h : withExtensions? i place extensions entries = some path) :
    IsNear (Path.normalize place) path := by
  obtain ⟨hb,c,hc,he⟩ := exists_of_withExtensions? ht hx hn h
  exact ⟨c,isAt_of_mem_spellings hb.ne_empty hx hn hc,he⟩

end Search

namespace PathLike

theorem isTidyName_of_mem_entryNames : ∀ s ∈ entryNames importer, IsTidyName s := by
  have hall : ∀ s ∈ ["CMakeLists.txt","default.nix","flake.nix","Cargo.toml","pyproject.toml",
      "Project.toml"], IsTidyName s := by decide +kernel
  intro s hs
  refine hall s ?_
  simp only [entryNames,List.mem_append] at hs
  rcases hs with (hs | hs) | hs
  all_goals
    split at hs
    · simp only [List.mem_cons,List.not_mem_nil,or_false] at hs ⊢
      tauto
    · cases hs

theorem isNear_of_search? {place : String}
    (ht : Text.trim (Path.normalize place) = Path.normalize place)
    (h : search? i importer [place] = some path) : IsNear (Path.normalize place) path := by
  obtain ⟨c,hc,hi,he⟩ := FileIndex.exists_of_first? h
  have hb := Path.normalize_of_trimmed ht
  rw [List.flatMap_singleton,expand,List.mem_map] at hc
  obtain ⟨d,hd,rfl⟩ := hc
  have hm : d = Path.normalize place ∨ ∃ s ∈ entryNames importer, d = Path.child (Path.normalize place) s := by
    split at hd
    · exact .inl (List.mem_singleton.mp hd)
    · rcases List.mem_cons.mp hd with hd | hd
      · exact .inl hd
      · obtain ⟨s,hs,rfl⟩ := List.mem_map.mp hd
        exact .inr ⟨s,hs,rfl⟩
  obtain rfl | ⟨s,hs,rfl⟩ := hm
  · rw [hb,hb] at he
    exact ⟨_,.self,he⟩
  have hr : Path.isRooted (Path.normalize place) = false := by
    refine eq_false_of_ne_true fun hr => ?_
    have hrooted := Path.isRooted_normalize (Path.isRooted_normalize (Path.isRooted_child hr s))
    simp [Path.isInside,hrooted] at hi
  have hname := isTidyName_of_mem_entryNames s hs
  rw [Path.normalize_child ht hr hname,Path.normalize_child ht hr hname] at he
  exact ⟨_,.below (hname.isBelow _),he⟩

end PathLike

/-- A specifier that starts by a dot and a slash or by two dots and a slash. -/
def Specifier.IsRelative (spec : String) : Prop :=
  Text.startsWith "./" spec = true ∨ Text.startsWith "../" spec = true

theorem Specifier.IsRelative.startsBy {spec : String} (h : IsRelative spec) : StartsBy '.' spec := by
  rcases h with h | h
  · exact StartsBy.of_startsWith (s := "./") ⟨['/'],by simp⟩ h
  · exact StartsBy.of_startsWith (s := "../") ⟨['.','/'],by simp⟩ h

theorem Label.parse?_of_startsBy {spec : String} (h : StartsBy '.' spec) (dir : String) :
    Label.parse? spec dir = none := by
  have ht : StartsBy '.' (Text.trim spec) := h.trimWhere (by decide)
  have hat := ht.afterHead?_eq_none (d := '@') (t := "@") ⟨[],by simp⟩ (by decide)
  have hslash := ht.afterHead?_eq_none (d := '/') (t := "//") ⟨['/'],by simp⟩ (by decide)
  have hcolon := ht.afterHead?_eq_none (d := ':') (t := ":") ⟨[],by simp⟩ (by decide)
  simp only [parse?,hat,hslash,hcolon]

/-- A relative specifier has one candidate. -/
theorem PathLike.resolve?_relative {spec : String} (hs : Specifier.IsRelative spec)
    (hu : "unittests" ∉ Path.segments importer.rel) :
    resolve? i spec importer = search? i importer [Path.join importer.dir spec] := by
  have hdot : StartsBy '.' (Path.toPosix (Text.trim spec)) :=
    (hs.startsBy.trimWhere (by decide)).toPosix (by decide)
  have hn : Path.toPosix (Text.trim spec) ≠ "" := by
    obtain ⟨r,hr⟩ := hdot
    intro he
    simp [he] at hr
  have hslash := hdot.afterHead?_eq_none (d := '/') (t := "/") ⟨[],by simp⟩ (by decide)
  have hrel : (Text.startsWith "./" (Path.toPosix (Text.trim spec)) ||
      Text.startsWith "../" (Path.toPosix (Text.trim spec))) = true := by
    rw [Bool.or_eq_true]
    refine hs.imp (fun h => ?_) fun h => ?_ <;>
    exact Path.startsWith_toPosix (by simp) (Text.startsWith_trimWhere (by decide +kernel) h)
  have habove : aboveUnitTests? (Path.toPosix (Text.trim spec)) importer = none := by
    have hp : (Path.segments importer.rel).takeWhile (· ≠ "unittests") = Path.segments importer.rel := by
      refine List.takeWhile_eq_self_iff.mpr fun x hx => decide_eq_true fun he => hu ?_
      rwa [he] at hx
    simp only [aboveUnitTests?,hp,or_true,if_true,ite_self]
  simp only [resolve?,if_neg hn,Label.parse?_of_startsBy hdot,hslash,hrel,if_true,habove,
    Option.toList_none]
  rw [Path.join_clean importer.dir (hs.startsBy.not_head (by decide))]

namespace Dart

/-- Nothing stands where an import points, and it is found below the root, or below a directory that is
searched by convention. -/
structure IsRerooted (i : FileIndex) (place spec path : String) : Prop where
  missing : Search.withExtensions? i place [".dart"] [] = none
  rerooted : Search.fromBases? i
    [Path.normalize spec,"lib/" ++ Path.normalize spec,"src/" ++ Path.normalize spec] [".dart"] [] =
      some path

theorem isExtension_dart : ∀ t ∈ [".dart"], IsExtension t := by decide +kernel

theorem cases_of_resolve? {spec : String} {own : Option String} (hs : Specifier.IsRelative spec)
    (ht : Text.trim (Path.join importer.dir spec) = Path.join importer.dir spec)
    (h : resolve? i spec importer own = some path) :
    PathLike.resolve? i spec importer = some path ∨
      Search.withExtensions? i (Path.join importer.dir spec) [".dart"] [] = some path ∨
      IsRerooted i (Path.join importer.dir spec) spec path := by
  have hdart := hs.startsBy.startsWith_eq_false (d := 'd') (t := "dart:")
    ⟨['a','r','t',':'],by simp⟩ (by decide)
  have hpackage := hs.startsBy.afterHead?_eq_none (d := 'p') (t := "package:")
    ⟨['a','c','k','a','g','e',':'],by simp⟩ (by decide)
  simp only [resolve?,hdart,Bool.false_eq_true,if_false,package?,hpackage,Option.bind_none,
    Option.none_or] at h
  split at h
  · cases h
  rcases Option.or_eq_some_iff.mp h with h | ⟨-,h⟩
  · exact .inl h
  refine .inr ?_
  split at h
  · cases h
  next hn =>
  rw [not_or] at hn
  have hr : Path.isRooted (Path.toPosix (Text.trim spec)) = false :=
    ((hs.startsBy.trimWhere (by decide)).toPosix (by decide)).startsWith_eq_false
      (d := '/') ⟨[],by simp⟩ (by decide)
  rw [Search.fromBases?,List.findSome?_cons,
    Path.join_normalize (hs.startsBy.not_head (by decide)) hr hn.1 ht] at h
  split at h
  · next hit hw => exact .inl (hw.trans h)
  · next hw => exact .inr ⟨hw,h⟩

end Dart

namespace Relative

theorem of_table {ecosystem : Ecosystem} : ∀ row ∈ table ecosystem,
    (∀ t ∈ row.1, IsExtension t) ∧ ∀ s ∈ row.2, IsTidyName s := by
  cases ecosystem <;> decide +kernel

theorem cases_of_resolve? {spec place : String} (hs : Specifier.IsRelative spec)
    (h : resolve? i spec place importer = some path) :
    (∃ ecosystem, byTable? i place ecosystem = some path) ∨
      path ∈ i.filesIn place (some ".go") ∨
      (importer.ecosystem = .dart ∧ Dart.resolve? i spec importer none = some path) ∨
      PathLike.resolve? i spec importer = some path := by
  have hd : isDotted spec = false := by
    rcases hs with hs | hs <;> simp [isDotted,hs]
  unfold resolve? at h
  split at h
  · rw [hd] at h
    exact .inl ⟨_,h⟩
  · rcases Option.or_eq_some_iff.mp h with h | ⟨-,h⟩
    · exact .inl ⟨_,h⟩
    · exact .inr (.inl (List.mem_of_head? h))
  · next he => exact .inr (.inr (.inl ⟨he,h⟩))
  iterate 6 exact .inr (.inr (.inr h))
  iterate 2 cases h
  · exact .inl ⟨_,h⟩

/-- A relative specifier leads to a file at or below the place that it points to, up to letter case, or
for Dart to one that is found from the root once nothing is there. No blank may stand around the place,
and no directory of the importer may be one of unit tests. -/
theorem isNear_of_resolve? {spec : String} (hs : Specifier.IsRelative spec)
    (hu : "unittests" ∉ Path.segments importer.rel)
    (ht : Text.trim (Path.join importer.dir spec) = Path.join importer.dir spec)
    (h : resolve? i spec (Path.join importer.dir spec) importer = some path) :
    path ∈ i.files ∧ (IsNear (Path.join importer.dir spec) path ∨
      importer.ecosystem = .dart ∧ Dart.IsRerooted i (Path.join importer.dir spec) spec path) := by
  refine ⟨offers_resolve? i spec _ importer path h,?_⟩
  obtain ⟨s,hplace⟩ := Location.exists_normalize_eq_join importer.dir spec
  have hn : Path.normalize (Path.join importer.dir spec) = Path.join importer.dir spec := by
    rw [hplace] at ht ⊢
    exact Path.normalize_of_trimmed ht
  have htn : Text.trim (Path.normalize (Path.join importer.dir spec)) =
      Path.normalize (Path.join importer.dir spec) := by rwa [hn]
  have hpathLike : PathLike.resolve? i spec importer = some path →
      IsNear (Path.join importer.dir spec) path := by
    intro h
    rw [PathLike.resolve?_relative hs hu] at h
    exact hn ▸ PathLike.isNear_of_search? htn h
  obtain ⟨ecosystem,h⟩ | h | ⟨he,h⟩ | h := cases_of_resolve? hs h
  · obtain ⟨row,hrow,h⟩ := Option.bind_eq_some_iff.mp h
    obtain ⟨hx,hnames⟩ := of_table row hrow
    exact .inl (hn ▸ Search.isNear_of_withExtensions? htn hx hnames h)
  · have hb := FileIndex.isBelow_of_mem_filesIn (c := 'o') (by simp) (by decide) (by decide) h
    exact .inl ⟨path,.below (hn ▸ hb),rfl⟩
  · obtain h | h | h := Dart.cases_of_resolve? hs ht h
    · exact .inl (hpathLike h)
    · exact .inl (hn ▸ Search.isNear_of_withExtensions? htn Dart.isExtension_dart (by simp) h)
    · exact .inr ⟨he,h⟩
  · exact .inl (hpathLike h)

/-- A package of another directory, which the file system spells its own way. -/
theorem isNear_of_resolve?_package :
    let i := FileIndex.of (.ofList ["lib/pkg/__init__.py"])
    let importer := Importer.of "src/app.py"
    (Specifier.IsRelative "../Lib/pkg" ∧ "unittests" ∉ Path.segments importer.rel ∧
      Text.trim (Path.join importer.dir "../Lib/pkg") = Path.join importer.dir "../Lib/pkg" ∧
      resolve? i "../Lib/pkg" (Path.join importer.dir "../Lib/pkg") importer =
        some "lib/pkg/__init__.py") ∧
      "lib/pkg/__init__.py" ∈ i.files ∧
        (IsNear (Path.join importer.dir "../Lib/pkg") "lib/pkg/__init__.py" ∨
          importer.ecosystem = .dart ∧ Dart.IsRerooted i (Path.join importer.dir "../Lib/pkg")
            "../Lib/pkg" "lib/pkg/__init__.py") := by
  intro i importer
  have hs : Specifier.IsRelative "../Lib/pkg" := .inr (by decide +kernel)
  have hu : "unittests" ∉ Path.segments importer.rel := by decide +kernel
  have ht : Text.trim (Path.join importer.dir "../Lib/pkg") = Path.join importer.dir "../Lib/pkg" := by
    decide +kernel
  have h : resolve? i "../Lib/pkg" (Path.join importer.dir "../Lib/pkg") importer =
      some "lib/pkg/__init__.py" := by decide +kernel
  exact ⟨⟨hs,hu,ht,h⟩,isNear_of_resolve? hs hu ht h⟩

/-- A relative specifier leads to a file that does not stand for the place it points to. -/
structure Strays (files : List String) (importer spec path : String) : Prop where
  relative : Specifier.IsRelative spec
  plain : "unittests" ∉ Path.segments importer
  found : resolve? (.of (.ofList files)) spec (Path.join (Path.parent importer) spec)
    (.of importer) = some path
  far : ¬IsNear (Path.join (Path.parent importer) spec) path

/-- Nothing stands beside the importer, and a file below `lib` is taken; and a name that starts by a
blank is taken for the name without it. -/
theorem strays_util : Strays ["lib/util.dart"] "app/main.dart" "./util" "lib/util.dart" ∧
    Strays ["x.rb"] "main.rb" "./ x.rb" "x.rb" := by
  constructor
  · refine ⟨.inl (by decide +kernel),by decide +kernel,by decide +kernel,fun hn => ?_⟩
    exact absurd (hn.startsWith (by decide +kernel)) (by decide +kernel)
  · refine ⟨.inl (by decide +kernel),by decide +kernel,by decide +kernel,fun hn => ?_⟩
    exact absurd (hn.startsWith (by decide +kernel)) (by decide +kernel)

end Relative
end ImportResolution
