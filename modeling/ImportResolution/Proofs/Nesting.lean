import ImportResolution.Proofs.AliasOrder
import ImportResolution.Proofs.Counterparts

/-! Files below a directory. What a file set is expected to hold moves with the files: below another
directory, the same sources have the same outputs there, and a specifier is matched with the same source.
A document beside a path at the top is the one exception, for it is asked for only below a directory. -/
namespace ImportResolution

-- No text is computed here, and no unifier should try to.
attribute [local irreducible] String.toList

namespace Artifact
open ImportResolution.Path (IsEnding IsFront IsInner segments)

/-! Outputs of a source. -/

/-- The kind of a source by its extension, and by whether it is named as an interface document. -/
def kind? (ext : String) (isDocument : Bool) : Option SourceKind :=
  if ext = ".proto" then some .proto
  else if ext = ".graphql" ∨ ext = ".gql" then some .graphql
  else if ext = ".dart" then some .dart
  else if openApiExtensions.contains ext && isDocument then some .openApi
  else none

theorem source?_eq (rel : String) : source? rel =
    if Text.lowerAscii (Path.extension rel) = "" ∨ Path.withoutExtension rel = "" then none
    else (kind? (Text.lowerAscii (Path.extension rel)) (looksLikeOpenApi (Path.withoutExtension rel))).map
      (·,Path.withoutExtension rel) := by
  simp only [source?,kind?]
  split
  · rfl
  split
  · rfl
  split
  · rfl
  split
  · rfl
  split <;> rfl

theorem source?_slash (d s : String) :
    source? (d ++ "/" ++ s) = (source? s).map fun source => (source.1,d ++ "/" ++ source.2) := by
  rw [source?_eq,source?_eq,Path.extension_slash,Path.withoutExtension_slash,looksLikeOpenApi_slash]
  by_cases he : Path.extension s = ""
  · have hl : Text.lowerAscii "" = "" := by decide +kernel
    rw [he,if_pos (.inl hl),if_pos (.inl hl)]
    rfl
  · have hl : Text.lowerAscii (Path.extension s) ≠ "" := by
      rw [ne_eq,← String.toList_inj,Text.toList_lowerAscii]
      simpa using he
    have hn := (Path.withoutExtension_append s).2 he
    rw [if_neg (by simp [hl]),if_neg (by simp [hl,hn]),Option.map_map]
    rfl

/-- An inner path without its extension. -/
structure IsStem (stem : String) : Prop where
  named : stem ≠ ""
  inner : ∃ ext, '/' ∉ ext.toList ∧ IsInner (stem ++ ext)

theorem isStem_of_source? {f stem : String} {kind : SourceKind} (h : source? f = some (kind,stem))
    (hf : IsInner f) : IsStem stem := by
  rw [source?_eq] at h
  split at h
  · cases h
  · next hn =>
    obtain ⟨_,-,he⟩ := Option.map_eq_some_iff.mp h
    cases he
    refine ⟨(not_or.mp hn).2,_,Path.slash_not_mem_extension f,?_⟩
    rwa [(Path.withoutExtension_append f).1]

namespace IsStem
variable {stem : String} (h : IsStem stem)
include h

theorem relative : Path.isRooted stem = false := by
  obtain ⟨hn,ext,-,hi⟩ := h
  rw [← Location.isRooted_append hn]
  exact hi.isFront.relative

/-- What is named by the start of the name of the source is inner. -/
theorem isInner_front {front back suffix : String} (hb : Path.baseName stem = front ++ back)
    (hf : front ≠ "") (hs : IsEnding suffix) :
    IsInner (Path.child (Path.parent stem) (front ++ suffix)) := by
  have hchild := Path.child_parent h.relative
  obtain ⟨-,ext,he,hi⟩ := h
  have hstem : stem ++ ext = Path.child (Path.parent stem) front ++ (back ++ ext) := by
    rw [← String.append_assoc,← Path.child_append,← hb,hchild]
  have hback : '/' ∉ (back ++ ext).toList := by
    have hbase := Path.slash_not_mem_baseName stem
    rw [hb,String.toList_append,List.mem_append,not_or] at hbase
    rw [String.toList_append,List.mem_append,not_or]
    exact ⟨hbase.2,he⟩
  have hne : Path.child (Path.parent stem) front ≠ "" := by
    unfold Path.child
    split <;> simp [hf]
  rw [Path.child_append]
  exact (hstem ▸ hi).exchange hne hback hs

theorem isInner_name {name : String} (hs : IsEnding name) (hn : IsInner name) :
    IsInner (Path.child (Path.parent stem) name) := by
  obtain ⟨-,ext,he,hi⟩ := h
  rw [← Path.parent_append stem he]
  exact hi.sibling hs hn

theorem isInner_sub {sub name : String} (hsub : sub ∈ subdirs) (hs : IsEnding name) :
    IsInner (Path.child (Path.parent stem) (sub ++ "/" ++ name)) := by
  have hall : ∀ sub ∈ subdirs, IsEnding sub ∧ IsInner sub := by decide +kernel
  obtain ⟨hending,hi⟩ := hall sub hsub
  rw [String.append_assoc,Path.child_append,← String.append_assoc]
  exact (h.isInner_name hending hi).isFront.ending hs

theorem isEnding_base {suffix : String} (hs : IsEnding suffix) :
    IsEnding (Path.baseName stem ++ suffix) := by
  refine hs.append (Path.slash_not_mem_baseName stem) fun hb => ?_
  have hchild := Path.child_parent h.relative
  obtain ⟨-,ext,-,hi⟩ := h
  refine hi.isFront.posix ?_
  rw [← hchild,Path.child]
  split <;> simp [hb]

end IsStem

/-- The names of the outputs of a source, as the directory of the source has them. -/
def outputNames : SourceKind → String → List String
  | .proto, base =>
    protoSuffixes.flatMap fun suffix =>
      (base ++ suffix) :: subdirs.map fun sub => sub ++ "/" ++ (base ++ suffix)
  | .graphql, base =>
    graphqlSuffixes.map (base ++ ·)
      ++ subdirs.flatMap fun sub => [".ts",".js"].map fun ext => sub ++ "/" ++ (base ++ ext)
  | .dart, base => [base ++ ".g.dart"]
  | .openApi, base =>
    let short :=
      ((beforeTailFolded? ".openapi" base).or (beforeTailFolded? ".swagger" base)).filter (· ≠ "")
    let clients := if openApiNames.contains (Text.lowerAscii base) then openApiClients else []
    openApiSuffixes.map (base ++ ·)
      ++ short.toList.flatMap (fun s => (openApiSuffixes ++ ["-client.ts","-types.ts"]).map (s ++ ·))
      ++ clients
      ++ subdirs.flatMap fun sub =>
        openApiSuffixes.map (fun suffix => sub ++ "/" ++ (base ++ suffix))
          ++ clients.map fun file => sub ++ "/" ++ file

namespace IsStem
variable {stem : String} (h : IsStem stem)
include h

/-- The outputs of a source stand by their names in its directory. -/
theorem outputs_eq (kind : SourceKind) : outputs kind stem =
    (outputNames kind (Path.baseName stem)).map (Path.child (Path.parent stem)) := by
  have hstem : ∀ suffix, stem ++ suffix = Path.child (Path.parent stem) (Path.baseName stem ++ suffix) := by
    intro suffix
    rw [Path.child_append,Path.child_parent h.relative]
  have hsub : ∀ sub ∈ subdirs, ∀ suffix, IsEnding suffix →
      Path.join (Path.parent stem) (sub ++ "/" ++ Path.baseName stem ++ suffix) =
        Path.child (Path.parent stem) (sub ++ "/" ++ (Path.baseName stem ++ suffix)) := by
    intro sub hm suffix hs
    rw [← Path.join_of_isInner (h.isInner_sub hm (h.isEnding_base hs)),← String.append_assoc]
  cases kind with
  | proto =>
    have hall : ∀ suffix ∈ protoSuffixes, IsEnding suffix := by decide +kernel
    rw [outputs,outputNames,List.map_flatMap]
    refine List.flatMap_congr fun suffix hs => ?_
    rw [List.map_cons,List.map_map,hstem]
    congr 1
    exact List.map_congr_left fun sub hm => hsub sub hm suffix (hall suffix hs)
  | graphql =>
    have hall : ∀ ext ∈ [".ts",".js"], IsEnding ext := by decide +kernel
    rw [outputs,outputNames,List.map_append,List.map_map,List.map_flatMap]
    congr 1
    · exact List.map_congr_left fun suffix _ => hstem suffix
    · refine List.flatMap_congr fun sub hm => ?_
      rw [List.map_map]
      exact List.map_congr_left fun ext hs => hsub sub hm ext (hall ext hs)
  | dart => rw [outputs,outputNames,List.map_singleton,hstem]
  | openApi =>
    have hsuffixes : ∀ suffix ∈ openApiSuffixes ++ ["-client.ts","-types.ts"], IsEnding suffix := by
      decide +kernel
    have hclients : ∀ file ∈ (if openApiNames.contains (Text.lowerAscii (Path.baseName stem)) then
        openApiClients else []), IsEnding file ∧ IsInner file := by
      intro file hm
      have hall : ∀ file ∈ openApiClients, IsEnding file ∧ IsInner file := by decide +kernel
      split at hm
      · exact hall file hm
      · cases hm
    simp only [outputs,outputNames,List.map_append,List.map_flatMap,List.map_map]
    refine congrArg₂ (· ++ ·) (congrArg₂ (· ++ ·) (congrArg₂ (· ++ ·) ?_ ?_) ?_) ?_
    · exact List.map_congr_left fun suffix _ => hstem suffix
    · refine List.flatMap_congr fun short hm => ?_
      obtain ⟨hfound,hne⟩ := Option.filter_eq_some_iff.mp (Option.mem_toList.mp hm)
      obtain ⟨back,hback⟩ : ∃ back, Path.baseName stem = short ++ back := by
        rcases Option.or_eq_some_iff.mp hfound with hf | ⟨-,hf⟩ <;> exact append_of_beforeTailFolded? hf
      refine congrArg₂ (· ++ ·) ?_ ?_ <;>
      · refine List.map_congr_left fun suffix hs => ?_
        refine Path.join_of_isInner (h.isInner_front hback (by simpa using hne) ?_)
        exact hsuffixes suffix (by simp [hs])
    · exact List.map_congr_left fun file hm =>
        Path.join_of_isInner (h.isInner_name (hclients file hm).1 (hclients file hm).2)
    · refine List.flatMap_congr fun sub hm => congrArg₂ (· ++ ·) ?_ ?_
      · exact List.map_congr_left fun suffix hs =>
          hsub sub hm suffix (hsuffixes suffix (List.mem_append_left _ hs))
      · exact List.map_congr_left fun file hf =>
          Path.join_of_isInner (h.isInner_sub hm (hclients file hf).1)

theorem slash {d : String} (hd : IsInner d) : IsStem (d ++ "/" ++ stem) := by
  obtain ⟨-,ext,he,hi⟩ := h
  refine ⟨by simp,ext,he,?_⟩
  rw [String.append_assoc]
  exact hd.slash hi

end IsStem

/-- The outputs of a source in a directory are those that it has without, in the directory. -/
theorem outputs_slash {d stem : String} (hd : IsInner d) (h : IsStem stem) (kind : SourceKind) :
    outputs kind (d ++ "/" ++ stem) = (outputs kind stem).map (d ++ "/" ++ ·) := by
  rw [(h.slash hd).outputs_eq,h.outputs_eq,Path.baseName_slash,List.map_map]
  exact List.map_congr_left fun name _ => Path.child_parent_slash hd.isFront.ne_empty h.relative name

/-! What a file set is expected to hold. -/

/-- A match as it is told from above a directory. -/
def Match.below (d : String) : Match → Match
  | .expectedOutput candidate => .expectedOutput (Path.child d candidate)
  | .counterpart candidate source => .counterpart (Path.child d candidate) (Path.child d source)
  | .tokenHint => .tokenHint

/-- The place that a specifier leads to from its importer. -/
def place (importer spec : String) : String :=
  Path.join (Path.parent importer) (Specifier.normalize spec)

theorem pointedAt?_eq {importer spec : String} (hi : IsInner importer)
    (hs : StartsBy '.' (Specifier.normalize spec)) :
    pointedAt? importer spec = if place importer spec = "" then none else some (place importer spec) := by
  have hslash : StartsBy '/' "/" := ⟨[],by simp⟩
  have hafter : Text.afterHead? "/" (Specifier.normalize spec) = none :=
    hs.afterHead?_eq_none hslash (by decide)
  have hdot : Text.startsWith "." (Specifier.normalize spec) = true := startsBy_iff.mp hs
  rw [pointedAt?]
  simp only [hafter,hdot,hi.normal,hi.isFront.ne_empty,Bool.not_true,Bool.false_eq_true,if_false]
  rfl

namespace Expected

/-- A match that rests on the file set. -/
def indexMatch? (e : Expected) (importer specifier : String) : Option Match :=
  (e.match? importer specifier).filter Match.isIndexed

theorem indexMatch?_eq (e : Expected) (importer specifier : String) :
    e.indexMatch? importer specifier = (pointedAt? importer specifier).bind e.matchCandidate? := by
  have hindexed : ∀ c m, e.matchCandidate? c = some m → m.isIndexed = true := by
    intro c m hm
    unfold matchCandidate? at hm
    split at hm
    · cases hm
      rfl
    · obtain ⟨source,-,rfl⟩ := Option.map_eq_some_iff.mp hm
      rfl
  rw [indexMatch?,match?]
  cases hb : (pointedAt? importer specifier).bind e.matchCandidate? with
  | none =>
    rw [Option.none_or]
    split <;> rfl
  | some m =>
    obtain ⟨c,-,hm⟩ := Option.bind_eq_some_iff.mp hb
    rw [Option.some_or,Option.filter_some_pos (hindexed c m hm)]

/-- The match with an interface document beside a path, which is made only below a directory. -/
def documentMatch? (files : List String) (c : String) : Option Match :=
  if c = "" then none else ((addedDocuments c).find? files.contains).map (.counterpart c)

section Files
variable {files : List String} (hf : ∀ f ∈ files, IsInner f)
include hf

theorem mem_indexed {s : String} : s ∈ (Expected.of files).indexed ↔ s ∈ files := by
  rw [Expected.of,Text.mem_distinctSorted,List.mem_filter,List.mem_map]
  constructor
  · rintro ⟨⟨f,hm,rfl⟩,-⟩
    rwa [(hf f hm).normal]
  · intro hm
    exact ⟨⟨s,hm,(hf s hm).normal⟩,by simpa using (hf s hm).isFront.ne_empty⟩

theorem mem_outputs {s : String} : s ∈ (Expected.of files).outputs ↔
    s ≠ "" ∧ ∃ f ∈ files, ∃ source, source? f = some source ∧ s ∈ Artifact.outputs source.1 source.2 := by
  have hindexed : ∀ f, f ∈ Text.distinctSorted ((files.map Path.normalize).filter (· ≠ "")) ↔ f ∈ files :=
    fun f => mem_indexed hf
  rw [Expected.of,Text.mem_distinctSorted,List.mem_filter,List.mem_flatMap]
  simp only [List.mem_filterMap,hindexed,decide_eq_true_eq]
  constructor
  · rintro ⟨⟨source,⟨f,hm,hs⟩,ho⟩,hn⟩
    exact ⟨hn,f,hm,source,hs,ho⟩
  · rintro ⟨hn,f,hm,source,hs,ho⟩
    exact ⟨⟨source,⟨f,hm,hs⟩,ho⟩,hn⟩

theorem matchCandidate?_of_isExpected {c : String} (h : (Expected.of files).isExpected c = false) :
    (Expected.of files).matchCandidate? c =
      ((counterpartsFrom (c.length + 1) c).find? files.contains).map (.counterpart c) := by
  have hcontains : (Expected.of files).indexed.contains = files.contains := by
    funext s
    rw [Bool.eq_iff_iff,List.contains_iff_mem,List.contains_iff_mem,mem_indexed hf]
  rw [matchCandidate?,if_neg (by simp [h]),hcontains,counterparts,List.find?_eq_findSome?_guard,
    Text.findSome?_distinct,← List.find?_eq_findSome?_guard,List.find?_filter]
  congr 2
  funext s
  by_cases hs : s = ""
  · have hn : "" ∉ files := fun hm => (hf "" hm).isFront.ne_empty rfl
    simp [hs,hn]
  · simp [hs]

variable {d : String} (hd : IsInner d)
include hd

theorem isInner_of_mem_slash : ∀ f ∈ files.map (d ++ "/" ++ ·), IsInner f := by
  intro f hm
  obtain ⟨g,hg,rfl⟩ := List.mem_map.mp hm
  exact hd.slash (hf g hg)

/-- What is expected of files in a directory is what is expected of them without, in the directory. -/
theorem mem_outputs_slash {s : String} : s ∈ (Expected.of (files.map (d ++ "/" ++ ·))).outputs ↔
    ∃ t, d ++ "/" ++ t = s ∧
      ∃ f ∈ files, ∃ source, source? f = some source ∧ t ∈ Artifact.outputs source.1 source.2 := by
  rw [mem_outputs (isInner_of_mem_slash hf hd)]
  constructor
  · rintro ⟨-,f,hm,source,hs,ho⟩
    obtain ⟨g,hg,rfl⟩ := List.mem_map.mp hm
    rw [source?_slash] at hs
    obtain ⟨⟨kind,stem⟩,hsource,rfl⟩ := Option.map_eq_some_iff.mp hs
    rw [outputs_slash hd (isStem_of_source? hsource (hf g hg))] at ho
    obtain ⟨t,ht,he⟩ := List.mem_map.mp ho
    exact ⟨t,he,g,hg,_,hsource,ht⟩
  · rintro ⟨t,rfl,f,hm,⟨kind,stem⟩,hs,ho⟩
    refine ⟨by simp,_,List.mem_map_of_mem hm,(kind,d ++ "/" ++ stem),?_,?_⟩
    · rw [source?_slash,hs]
      rfl
    · rw [outputs_slash hd (isStem_of_source? hs (hf f hm))]
      exact List.mem_map_of_mem ho

theorem isExpected_slash {s : String} (hn : s ≠ "") :
    (Expected.of (files.map (d ++ "/" ++ ·))).isExpected (d ++ "/" ++ s) =
      (Expected.of files).isExpected s := by
  rw [isExpected,isExpected,Bool.eq_iff_iff,List.contains_iff_mem,List.contains_iff_mem,
    mem_outputs_slash hf hd,mem_outputs hf]
  constructor
  · rintro ⟨t,he,hexpected⟩
    exact ⟨hn,slash_inj he ▸ hexpected⟩
  · rintro ⟨-,hexpected⟩
    exact ⟨s,rfl,hexpected⟩

/-- In a directory, a path is matched as it is without, or else with a document beside it. -/
theorem matchCandidate?_slash (hg : ∀ s ∈ segments d, ¬IsGenerated s) {c : String} (h : IsRegular c) :
    (Expected.of (files.map (d ++ "/" ++ ·))).matchCandidate? (d ++ "/" ++ c) =
      (((Expected.of files).matchCandidate? c).or (documentMatch? files c)).map (Match.below d) := by
  have hne := h.inner.isFront.ne_empty
  have hchild := Path.child_of_ne_empty hd.isFront.ne_empty
  have hexpected := isExpected_slash hf hd hne
  cases he : (Expected.of files).isExpected c with
  | true =>
    rw [he] at hexpected
    rw [matchCandidate?,if_pos hexpected,matchCandidate?,if_pos he,Option.some_or,Option.map_some,
      Match.below,hchild]
  | false =>
    rw [he] at hexpected
    have hcontains : (files.map (d ++ "/" ++ ·)).contains ∘ (d ++ "/" ++ ·) = files.contains := by
      funext s
      rw [Function.comp_apply,Bool.eq_iff_iff,List.contains_iff_mem,List.contains_iff_mem,List.mem_map]
      exact ⟨fun ⟨f,hm,he⟩ => slash_inj he ▸ hm,fun hm => ⟨s,hm,rfl⟩⟩
    have hlength : c.length < (d ++ "/" ++ c).length + 1 := by
      simp only [String.length_append]
      omega
    rw [matchCandidate?_of_isExpected (isInner_of_mem_slash hf hd) hexpected,
      matchCandidate?_of_isExpected hf he,counterpartsFrom_slash hd hg h hlength (Nat.lt_succ_self _),
      List.find?_map,hcontains,List.find?_append,documentMatch?,if_neg hne,Option.map_map,
      ← Option.map_or,Option.map_map]
    congr 1
    funext s
    simp only [Function.comp_apply,Match.below,hchild]

/-- The directory itself is no match: what it may come from does not lie within. -/
theorem matchCandidate?_directory (hg : ∀ s ∈ segments d, ¬IsGenerated s) :
    (Expected.of (files.map (d ++ "/" ++ ·))).matchCandidate? d = none := by
  have hexpected : (Expected.of (files.map (d ++ "/" ++ ·))).isExpected d = false := by
    rw [isExpected,← Bool.not_eq_true,List.contains_iff_mem,mem_outputs_slash hf hd]
    rintro ⟨t,he,-⟩
    have hl := congrArg (fun s => s.toList.length) he
    simp only [toList_slash,List.length_append,List.length_cons] at hl
    omega
  rw [matchCandidate?_of_isExpected (isInner_of_mem_slash hf hd) hexpected,Option.map_eq_none_iff,
    List.find?_eq_none]
  intro x hx hcontains
  rw [List.contains_iff_mem] at hcontains
  obtain ⟨f,-,rfl⟩ := List.mem_map.mp hcontains
  exact (isBeside_of_mem_counterpartsFrom hd hg hx).ne_slash f rfl

end Files

/-- Matches that rest on a file set do not depend on the directory that it lies in, but for a document at
the top: a path at the top has none beside it until it lies in a directory. -/
theorem indexMatch?_child {files : List String} {d importer spec : String}
    (hf : ∀ f ∈ files, IsInner f) (hd : IsInner d) (hg : ∀ s ∈ segments d, ¬IsGenerated s)
    (hi : IsInner importer) (hs : StartsBy '.' (Specifier.normalize spec))
    (hc : place importer spec = "" ∨ IsRegular (place importer spec)) :
    (Expected.of (files.map (Path.child d))).indexMatch? (Path.child d importer) spec =
      (((Expected.of files).indexMatch? importer spec).or
        (documentMatch? files (place importer spec))).map (Match.below d) := by
  have hchild : Path.child d = (d ++ "/" ++ ·) := funext (Path.child_of_ne_empty hd.isFront.ne_empty)
  have hplace := Path.join_parent_importer hd hi hs (Specifier.trim_normalize spec)
    (Specifier.backslash_not_mem_normalize spec) (hc.imp_right (·.inner))
  rw [hchild,indexMatch?_eq,indexMatch?_eq,pointedAt?_eq (hd.slash hi) hs,pointedAt?_eq hi hs,place,hplace]
  rcases hc with hc | hc
  · have hc' : Path.join (Path.parent importer) (Specifier.normalize spec) = "" := hc
    rw [if_pos hc',if_neg hd.isFront.ne_empty,Option.bind_some,matchCandidate?_directory hf hd hg,
      if_pos hc,Option.bind_none,documentMatch?,if_pos hc]
    rfl
  · have hne := hc.inner.isFront.ne_empty
    have hne' : Path.join (Path.parent importer) (Specifier.normalize spec) ≠ "" := hne
    rw [if_neg hne',if_neg hne,if_neg (by simp)]
    exact matchCandidate?_slash hf hd hg hc

/-- A source is found behind a directory of generated files. -/
theorem indexMatch?_child_package :
    ((∀ f ∈ ["lib/user.dart"], IsInner f) ∧ IsInner "packages/core" ∧
      (∀ s ∈ segments "packages/core", ¬IsGenerated s) ∧ IsInner "lib/main.dart" ∧
      StartsBy '.' (Specifier.normalize "./gen/user.g.dart") ∧
      IsRegular (place "lib/main.dart" "./gen/user.g.dart")) ∧
    (Expected.of (["lib/user.dart"].map (Path.child "packages/core"))).indexMatch?
        (Path.child "packages/core" "lib/main.dart") "./gen/user.g.dart" =
      some (.counterpart "packages/core/lib/gen/user.g.dart" "packages/core/lib/user.dart") := by
  have hf : ∀ f ∈ ["lib/user.dart"], IsInner f := by decide +kernel
  have hd : IsInner "packages/core" := by decide +kernel
  have hg : ∀ s ∈ segments "packages/core", ¬IsGenerated s := by decide +kernel
  have hi : IsInner "lib/main.dart" := by decide +kernel
  have hs : StartsBy '.' (Specifier.normalize "./gen/user.g.dart") := startsBy_iff.mpr (by decide +kernel)
  have hp : place "lib/main.dart" "./gen/user.g.dart" = "lib/gen/user.g.dart" := by decide +kernel
  have hc : IsRegular "lib/gen/user.g.dart" := by decide +kernel
  have he : (Expected.of ["lib/user.dart"]).isExpected "lib/gen/user.g.dart" = false := by decide +kernel
  have hm : ((counterpartsFrom ("lib/gen/user.g.dart".length + 1) "lib/gen/user.g.dart").find?
      ["lib/user.dart"].contains) = some "lib/user.dart" := by decide +kernel
  refine ⟨⟨hf,hd,hg,hi,hs,hp ▸ hc⟩,?_⟩
  rw [indexMatch?_child hf hd hg hi hs (.inr (hp ▸ hc)),indexMatch?_eq,pointedAt?_eq hi hs,hp,
    if_neg (by decide),Option.bind_some,matchCandidate?_of_isExpected hf he,hm]
  decide +kernel

/-- At the top, the document beside a client is not taken for its source. -/
theorem indexMatch?_child_ne_client :
    ((∀ f ∈ ["openapi.yaml"], IsInner f) ∧ IsInner "pkg" ∧ (∀ s ∈ segments "pkg", ¬IsGenerated s) ∧
      IsInner "app.ts" ∧ StartsBy '.' (Specifier.normalize "./api-client.ts") ∧
      IsRegular (place "app.ts" "./api-client.ts")) ∧
    (Expected.of ["openapi.yaml"]).indexMatch? "app.ts" "./api-client.ts" = none ∧
    (Expected.of (["openapi.yaml"].map (Path.child "pkg"))).indexMatch? (Path.child "pkg" "app.ts")
        "./api-client.ts" = some (.counterpart "pkg/api-client.ts" "pkg/openapi.yaml") := by
  have hf : ∀ f ∈ ["openapi.yaml"], IsInner f := by decide +kernel
  have hd : IsInner "pkg" := by decide +kernel
  have hg : ∀ s ∈ segments "pkg", ¬IsGenerated s := by decide +kernel
  have hi : IsInner "app.ts" := by decide +kernel
  have hi' : IsInner (Path.child "pkg" "app.ts") := by decide +kernel
  have hs : StartsBy '.' (Specifier.normalize "./api-client.ts") := startsBy_iff.mpr (by decide +kernel)
  have hp : place "app.ts" "./api-client.ts" = "api-client.ts" := by decide +kernel
  have hp' : place (Path.child "pkg" "app.ts") "./api-client.ts" = "pkg" ++ "/" ++ "api-client.ts" := by
    decide +kernel
  have hc : IsRegular "api-client.ts" := by decide +kernel
  have hfiles : ["openapi.yaml"].map (Path.child "pkg") = ["openapi.yaml"].map ("pkg" ++ "/" ++ ·) := by
    decide +kernel
  have he : (Expected.of ["openapi.yaml"]).isExpected "api-client.ts" = false := by
    have hsource : source? "openapi.yaml" = some (.openApi,"openapi") := by decide +kernel
    have hstem := isStem_of_source? hsource (hf _ (.head _))
    have hn : "api-client.ts" ∉ Artifact.outputs .openApi "openapi" := by
      rw [hstem.outputs_eq]
      decide +kernel
    rw [isExpected,← Bool.not_eq_true,List.contains_iff_mem,mem_outputs hf]
    rintro ⟨-,f,hm,source,hsf,ho⟩
    rw [List.mem_singleton.mp hm,hsource] at hsf
    obtain rfl := Option.some.inj hsf
    exact hn ho
  have hnone : (Expected.of ["openapi.yaml"]).matchCandidate? "api-client.ts" = none := by
    rw [matchCandidate?_of_isExpected hf he]
    decide +kernel
  refine ⟨⟨hf,hd,hg,hi,hs,hp ▸ hc⟩,?_,?_⟩
  · rw [indexMatch?_eq,pointedAt?_eq hi hs,hp,if_neg (by decide),Option.bind_some,hnone]
  · rw [indexMatch?_eq,pointedAt?_eq hi' hs,hp',if_neg (by decide +kernel),Option.bind_some,hfiles,
      matchCandidate?_slash hf hd hg hc,hnone]
    decide +kernel

end Expected
end Artifact
end ImportResolution
