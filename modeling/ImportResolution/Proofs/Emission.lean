import ImportResolution.Proofs.Pointing

/-! Outputs of the compiler and their sources. A source is written to the same place below an output
directory as it has below the directory of the sources. A missing output whose source is indexed is
told from others, and the source that is named for it is one that writes it. -/
namespace ImportResolution

-- No text is computed here, and no unifier should try to.
attribute [local irreducible] String.toList

open ImportResolution.Path (IsExtension IsTidyName ofSegments segments)

namespace Artifact

theorem beforeTailFolded?_append {tail : String}
    (h : tail.toList.map Text.lowerAsciiChar = tail.toList) (stem : String) :
    beforeTailFolded? tail (stem ++ tail) = some stem := by
  have hs : tail.toList.isSuffixOf ((stem ++ tail).toList.map Text.lowerAsciiChar) = true := by
    rw [List.isSuffixOf_iff_suffix,String.toList_append,List.map_append,h]
    exact List.suffix_append _ _
  rw [beforeTailFolded?,if_pos hs,String.toList_append,List.length_append,Nat.add_sub_cancel,
    List.take_left,String.ofList_toList]

theorem suffix_of_beforeTailFolded? {tail s stem : String} (h : beforeTailFolded? tail s = some stem) :
    tail.toList <:+ s.toList.map Text.lowerAsciiChar := by
  unfold beforeTailFolded? at h
  split at h
  · next hs => exact List.isSuffixOf_iff_suffix.mp hs
  · cases h

end Artifact

namespace Emit

/-- What the compiler writes for a source, by the extension of the source. -/
def emissions : List (String × List String) :=
  [(".ts",[".js",".d.ts"]),(".tsx",[".js",".jsx",".d.ts"]),(".mts",[".mjs",".d.mts"]),
   (".cts",[".cjs",".d.cts"]),(".js",[".js"]),(".jsx",[".js",".jsx"]),(".mjs",[".mjs"]),
   (".cjs",[".cjs"])]

def Writes (ext out : String) : Prop := ∃ row ∈ emissions, row.1 = ext ∧ out ∈ row.2

/-- The sources of a suffix are those that are written with it. -/
theorem writes_iff {ext out : String} :
    Writes ext out ↔ ∃ row ∈ sources, row.1 = out ∧ ext ∈ row.2 := by
  have hsources : ∀ row ∈ emissions, ∀ out ∈ row.2, ∃ s ∈ sources, s.1 = out ∧ row.1 ∈ s.2 := by
    decide +kernel
  have hemissions : ∀ row ∈ sources, ∀ ext ∈ row.2, ∃ s ∈ emissions, s.1 = ext ∧ row.1 ∈ s.2 := by
    decide +kernel
  constructor
  · rintro ⟨row,hr,rfl,ho⟩
    exact hsources row hr out ho
  · rintro ⟨row,hr,rfl,he⟩
    exact hemissions row hr ext he

/-- No suffix ends in another one. -/
theorem eq_of_suffix : ∀ a ∈ sources, ∀ b ∈ sources, a.1.toList <:+ b.1.toList → a = b := by
  decide +kernel

theorem row?_append {row : String × List String} (h : row ∈ sources) (stem : String) :
    row? (stem ++ row.1) = some (stem,row.2) := by
  have hlower : ∀ r ∈ sources, r.1.toList.map Text.lowerAsciiChar = r.1.toList := by decide +kernel
  have hrow := Artifact.beforeTailFolded?_append (hlower row h) stem
  cases hf : row? (stem ++ row.1) with
  | none =>
    have hn := List.findSome?_eq_none_iff.mp hf row h
    rw [hrow] at hn
    cases hn
  | some found =>
    obtain ⟨other,ho,hfound⟩ := List.exists_of_findSome?_eq_some hf
    obtain ⟨front,hfront,rfl⟩ := Option.map_eq_some_iff.mp hfound
    have hs := Artifact.suffix_of_beforeTailFolded? hfront
    have hr := Artifact.suffix_of_beforeTailFolded? hrow
    obtain rfl : other = row := by
      rcases List.suffix_or_suffix_of_suffix hs hr with h' | h'
      · exact eq_of_suffix other ho row h h'
      · exact (eq_of_suffix row h other ho h').symm
    rw [hrow] at hfront
    rw [Option.some.inj hfront]

theorem below?_eq_some_iff {dir path rest : String} :
    below? dir path = some rest ↔ Path.child dir rest = path := by
  unfold below? Path.child
  split
  · rw [Option.some_inj,eq_comm]
  · simp only [Option.bind_eq_some_iff,Text.afterHead?_eq_some_iff]
    constructor
    · rintro ⟨_,rfl,rfl⟩
      rw [String.append_assoc]
    · rintro rfl
      exact ⟨_,(String.append_assoc ..).symm,rfl⟩

/-- What goes on below another directory ends as the path does. -/
theorem exists_of_child {dir rest out stem ext : String} (hs : '/' ∉ ext.toList)
    (h : Path.child dir rest = Path.child out (stem ++ ext)) : ∃ front, rest = front ++ ext := by
  have hsuffix : ∀ dir name : String, name.toList <:+ (Path.child dir name).toList := by
    intro dir name
    unfold Path.child
    split
    · exact List.suffix_refl _
    · rw [String.toList_append]
      exact List.suffix_append _ _
  have hext : ext.toList <:+ (Path.child dir rest).toList := by
    rw [h]
    refine List.IsSuffix.trans ?_ (hsuffix out _)
    rw [String.toList_append]
    exact List.suffix_append _ _
  suffices hr : ext.toList <:+ rest.toList by
    obtain ⟨r,hr⟩ := hr
    exact ⟨String.ofList r,String.toList_inj.mp (by simp [← hr])⟩
  unfold Path.child at hext
  split at hext
  · exact hext
  -- A longer suffix would hold the slash.
  have hslash : (dir ++ "/" ++ rest).toList = dir.toList ++ '/' :: rest.toList := by simp
  rw [hslash] at hext
  rcases List.suffix_or_suffix_of_suffix hext (List.suffix_append _ _) with hr | hr
  · rcases List.suffix_cons_iff.mp hr with he | hr
    · exact absurd (he ▸ List.mem_cons_self) hs
    · exact hr
  · exact absurd (hr.subset List.mem_cons_self) hs

end Emit

namespace Path

/-- A tidy name stays one with another extension. -/
theorem IsTidyName.exchange {front ext other : String} (h : IsTidyName (front ++ ext))
    (ho : IsExtension other) (hu : other ≠ "..") : IsTidyName (front ++ other) := by
  refine ⟨⟨Text.trimWhere_eq_self_iff.mpr ⟨?_,?_⟩,?_⟩,Path.isStep_append ?_ ho,
    ho.append_ne_up (.inr hu)⟩
  · intro d hd
    rw [String.toList_append,List.head?_append] at hd
    cases hfront : front.toList.head? with
    | none =>
      rw [hfront,Option.none_or,ho.dot] at hd
      exact Option.some.inj hd ▸ by decide
    | some x =>
      rw [hfront,Option.some_or] at hd
      refine (Text.trimWhere_eq_self_iff.mp h.trimmed).1 d ?_
      rw [String.toList_append,List.head?_append,hfront,Option.some_or]
      exact hd
  · obtain ⟨more,x,hx,hb⟩ := (Text.IsTight.append ho.tight front).exists_append
    rw [hx,List.getLast?_concat]
    rintro y ⟨⟩
    exact hb
  · have hp := h.posix
    rw [String.toList_append,List.mem_append,not_or] at hp ⊢
    exact ⟨hp.1,ho.posix⟩
  · have hs := h.isStep.2.2
    rw [String.toList_append,List.mem_append,not_or] at hs
    exact hs.1

theorem isTidyName_exchange {stem ext other : String} (h : ∀ s ∈ segments (stem ++ ext), IsTidyName s)
    (he : '/' ∉ ext.toList) (ho : IsExtension other) (hu : other ≠ "..") :
    ∀ s ∈ segments (stem ++ other), IsTidyName s := by
  obtain ⟨front,last,hf,hext⟩ := segments_append stem he
  obtain ⟨front',last',hf',hother⟩ := segments_append stem ho.single
  obtain ⟨rfl,hl⟩ := List.append_inj' (hf.symm.trans hf') rfl
  obtain rfl := List.singleton_inj.mp hl
  rw [hext] at h
  rw [hother]
  intro s hs
  rcases List.mem_append.mp hs with hs | hs
  · exact h s (List.mem_append_left _ hs)
  · rw [List.mem_singleton.mp hs]
    exact (h _ (List.mem_append_right _ (List.mem_singleton.mpr rfl))).exchange ho hu

theorem mem_segments_child {name x : String} (h : x ∈ segments name) (dir : String) :
    x ∈ segments (child dir name) := by
  unfold child
  split
  · exact h
  · rw [segments_slash]
    exact List.mem_append_right _ h

end Path

namespace Emit
open TsConfig (Profile)

/-- A source that is compiled to a path, up to letter case. -/
inductive Emits (p : Profile) (source : String) : String → Prop
  | intro {out stem ext suffix : String} (ho : out ∈ p.outDir.toList ++ p.declarationDir.toList)
      (hn : stem ≠ "") (hw : Writes ext suffix)
      (hs : Text.lower source = Text.lower (Path.child (rootDirOf p) (stem ++ ext))) :
      Emits p source (Path.child out (stem ++ suffix))

theorem isExtension_of_writes {ext suffix : String} (h : Writes ext suffix) :
    (IsExtension ext ∧ ext ≠ "..") ∧ IsExtension suffix := by
  have hall : ∀ row ∈ emissions, (IsExtension row.1 ∧ row.1 ≠ "..") ∧
      ∀ suffix ∈ row.2, IsExtension suffix := by decide +kernel
  obtain ⟨row,hr,rfl,hs⟩ := h
  exact ⟨(hall row hr).1,(hall row hr).2 suffix hs⟩

/-- An output whose source is indexed: they have one place, below the directory of the sources and below
an output directory, and the names that lead to the sources are tidy. -/
structure IsOutput (i : FileIndex) (p : Profile) (out stem ext suffix : String) : Prop where
  root : ∃ names, rootDirOf p = ofSegments names ∧ ∀ s ∈ names, IsTidyName s
  dir : out ∈ p.outDir.toList ++ p.declarationDir.toList
  apart : out ≠ rootDirOf p
  named : stem ≠ ""
  writes : Writes ext suffix
  source : Path.child (rootDirOf p) (stem ++ ext) ∈ i.files

/-- A specifier that starts by a dot or two and a slash, or by one slash. -/
def IsPath (spec : String) : Prop :=
  Specifier.IsRelative spec ∨ Text.startsWith "/" spec = true ∧ Text.startsWith "//" spec = false

/-- A specifier that leads to a place inside the root, without blanks around its segments. -/
structure LeadsTo (spec : String) (importer : Importer) (target : String) : Prop where
  path : IsPath spec
  lands : Relative.base spec importer = target
  trimmed : ∀ s ∈ segments target, Text.trim s = s
  relative : Path.isRooted target = false
  inside : Text.startsWith ".." target = false

namespace LeadsTo
variable {spec target : String} {importer : Importer} (h : LeadsTo spec importer target)
  (hn : target ≠ "")
include h hn

theorem target?_eq : target? spec importer = some target := by
  have hout : ¬(target = "" ∨ Text.startsWith ".." target = true) := by simp [hn,h.inside]
  have hb := h.lands
  simp only [target?,Relative.base] at hb ⊢
  cases ha : Text.afterHead? "/" spec with
  | some rest =>
    simp only [ha] at hb
    simp only [hb,if_neg hout]
  | none =>
    simp only [ha] at hb
    have hdot : Text.startsWith "." spec = true := by
      rcases h.path with hs | ⟨hs,-⟩
      · exact startsBy_iff.mp hs.startsBy
      · obtain ⟨rest,rfl⟩ := Text.exists_of_startsWith hs
        rw [Text.afterHead?_eq_some_iff.mpr rfl] at ha
        cases ha
    simp only [hdot,if_true,hb,if_neg hout]

theorem isTidyName : ∀ s ∈ segments target, IsTidyName s := by
  obtain ⟨x,rfl⟩ : ∃ x, target = Path.normalize x := by
    rw [← h.lands]
    unfold Relative.base
    split
    · exact ⟨_,rfl⟩
    · exact Location.exists_normalize_eq_join _ _
  have hescapes : Path.escapesRoot (Path.normalize x) = false := by
    refine eq_false_of_ne_true fun he => ?_
    have hu := h.inside
    rw [Path.escapesRoot,Bool.or_eq_true,beq_iff_eq] at he
    rw [← Bool.not_eq_true,Text.startsWith_iff] at hu
    rcases he with he | he
    · exact hu (he ▸ List.prefix_refl _)
    · refine hu (List.IsPrefix.trans ?_ ((Text.startsWith_iff _ _).mp he))
      simp
  have hinside : Path.isInside (Path.normalize x) = true := by
    simp [Path.isInside,hn,h.relative,hescapes]
  intro s hs
  refine ⟨⟨h.trimmed s hs,fun hb => ?_⟩,Path.isStep_of_mem_normalize h.relative hn hs,fun he => ?_⟩
  · apply Path.backslash_not_mem_normalize x
    rw [← Path.ofSegments_segments (Path.normalize x),Path.mem_toList_ofSegments (by decide)]
    exact ⟨s,hs,hb⟩
  · exact Path.up_not_mem_normalize hinside (he ▸ hs)

end LeadsTo

variable {i : FileIndex} {p : Profile}

theorem source?_append {row : String × List String} (h : row ∈ sources) (rootDir stem : String) :
    source? i rootDir (stem ++ row.1) = if stem = "" then none
      else row.2.findSome? fun ext => i.spelled? (Path.join rootDir (stem ++ ext)) := by
  simp only [source?,row?_append h]

namespace IsOutput
variable {out stem ext suffix : String} (h : IsOutput i p out stem ext suffix)
  (hm : ∀ s ∈ segments (Path.child out (stem ++ suffix)), IsTidyName s)
include h hm

/-- A source that is found for the output writes it, whichever directory it is found by. -/
theorem emits_of_source? {dir rest source : String}
    (hd : dir ∈ p.outDir.toList ++ p.declarationDir.toList)
    (hb : below? dir (Path.child out (stem ++ suffix)) = some rest)
    (hs : source? i (rootDirOf p) rest = some source) :
    source ∈ i.files ∧ Emits p source (Path.child out (stem ++ suffix)) := by
  rw [below?_eq_some_iff] at hb
  obtain ⟨names,hroot,ht⟩ := h.root
  obtain ⟨-,hsuffix⟩ := isExtension_of_writes h.writes
  obtain ⟨front,rfl⟩ := exists_of_child hsuffix.single hb
  obtain ⟨row,hrow,rfl,-⟩ := writes_iff.mp h.writes
  rw [source?_append hrow] at hs
  split at hs
  · cases hs
  next hn =>
  obtain ⟨other,ho,hf⟩ := List.exists_of_findSome?_eq_some hs
  have hother : Writes other row.1 := writes_iff.mpr ⟨row,hrow,rfl,ho⟩
  obtain ⟨⟨hx,hu⟩,-⟩ := isExtension_of_writes hother
  have htidy : ∀ s ∈ segments (front ++ row.1), IsTidyName s := fun s hs =>
    hm s (hb ▸ Path.mem_segments_child hs dir)
  obtain ⟨hmem,hl⟩ := FileIndex.lower_of_spelled? hf
  rw [hroot,Path.join_names ht (Path.isTidyName_exchange htidy hsuffix.single hx hu),← hroot] at hl
  exact ⟨hmem,hb ▸ .intro hd hn hother hl⟩

/-- By the directory of the output, a source is found. -/
theorem exists_source? : ∃ source, source? i (rootDirOf p) (stem ++ suffix) = some source := by
  obtain ⟨names,hroot,ht⟩ := h.root
  obtain ⟨⟨hx,hu⟩,hsuffix⟩ := isExtension_of_writes h.writes
  have htidy : ∀ s ∈ segments (stem ++ suffix), IsTidyName s := fun s hs =>
    hm s (Path.mem_segments_child hs out)
  have hjoin := Path.join_names ht (Path.isTidyName_exchange htidy hsuffix.single hx hu)
  rw [← hroot] at hjoin
  obtain ⟨row,hrow,rfl,hext⟩ := writes_iff.mp h.writes
  rw [source?_append hrow,if_neg h.named,← Option.isSome_iff_exists,List.findSome?_isSome_iff]
  have hcontains : i.contains (Path.child (rootDirOf p) (stem ++ ext)) = true :=
    (FileSet.contains_iff _ _).mpr h.source
  refine ⟨ext,hext,?_⟩
  rw [hjoin,FileIndex.spelled?,if_pos hcontains]
  rfl

end IsOutput

/-- An output is matched with an indexed source that writes it. -/
theorem exists_match? {out stem ext suffix spec : String} {importer : Importer}
    (h : IsOutput i p out stem ext suffix)
    (hl : LeadsTo spec importer (Path.child out (stem ++ suffix))) :
    ∃ source, match? i p spec importer =
        some (.counterpart (Path.child out (stem ++ suffix)) source) ∧
      source ∈ i.files ∧ Emits p source (Path.child out (stem ++ suffix)) := by
  have hn : Path.child out (stem ++ suffix) ≠ "" := by
    unfold Path.child
    split <;> simp [h.named]
  have htidy := hl.isTidyName hn
  have hrooted : Path.isRooted out = false := by
    have hr := hl.relative
    by_cases hv : out = ""
    · rw [hv]
      simp [Path.isRooted,Text.startsWith]
    · rwa [Path.child,if_neg hv,String.append_assoc,Location.isRooted_append hv] at hr
  have hdir : out ∈ outputDirs p := List.mem_filter.mpr ⟨h.dir,by simp [hrooted,h.apart]⟩
  obtain ⟨found,hfound⟩ := h.exists_source? htidy
  obtain ⟨source,hsource⟩ : ∃ source, (outputDirs p).findSome? (fun dir =>
      (below? dir (Path.child out (stem ++ suffix))).bind (source? i (rootDirOf p))) =
        some source := by
    rw [← Option.isSome_iff_exists,List.findSome?_isSome_iff]
    refine ⟨out,hdir,?_⟩
    rw [below?_eq_some_iff.mpr rfl,Option.bind_some,hfound]
    rfl
  -- Another directory may have answered before, with a source of its own.
  obtain ⟨dir,hd,hf⟩ := List.exists_of_findSome?_eq_some hsource
  obtain ⟨rest,hrest,hf⟩ := Option.bind_eq_some_iff.mp hf
  refine ⟨source,?_,h.emits_of_source? htidy (List.mem_filter.mp hd).1 hrest hf⟩
  rw [match?,hl.target?_eq hn,Option.bind_some,hsource,Option.map_some]

end Emit

namespace BuildContext
open Emit (Emits IsOutput IsPath LeadsTo)

theorem isLabelGap_of_isPath {u : Unresolved} (h : IsPath u.spec) : isLabelGap u = false := by
  have hslashes : Text.startsWith "//" u.spec = false ∧ ∃ c, StartsBy c u.spec ∧ c ≠ '@' ∧ c ≠ ':' := by
    rcases h with h | ⟨h,hd⟩
    · exact ⟨h.startsBy.startsWith_eq_false (d := '/') ⟨['/'],by simp⟩ (by decide),'.',
        h.startsBy,by decide,by decide⟩
    · exact ⟨hd,'/',StartsBy.of_startsWith ⟨[],by simp⟩ h,by decide,by decide⟩
  obtain ⟨hd,c,hc,hat,hcolon⟩ := hslashes
  have ha : Text.startsWith "@" u.spec = false := hc.startsWith_eq_false ⟨[],by simp⟩ hat
  have hl : Text.startsWith ":" u.spec = false := hc.startsWith_eq_false ⟨[],by simp⟩ hcolon
  simp only [isLabelGap,hd,ha,hl,Bool.false_and,Bool.and_false,Bool.or_false]

/-- A missing output, whose source is indexed, is told to be one, by an indexed source that writes it. -/
theorem classify?_emission {i : FileIndex} {u : Unresolved} {p : TsConfig.Profile}
    (listed : List String) (hjs : u.importer.ecosystem = .javaScript) (hp : u.profile = some p)
    {out stem ext suffix : String} (ho : IsOutput i p out stem ext suffix)
    (hl : LeadsTo u.spec u.importer (Path.child out (stem ++ suffix))) :
    ∃ source, (BuildContext.of listed true).classify? i u = some ⟨.generatedExpectedMissing,.emit,
        some (.counterpart (Path.child out (stem ++ suffix)) source)⟩ ∧
      (Artifact.Match.counterpart (Path.child out (stem ++ suffix)) source).isIndexed = true ∧
      source ∈ i.files ∧ Emits p source (Path.child out (stem ++ suffix)) := by
  obtain ⟨source,hm,hf,he⟩ := Emit.exists_match? ho hl
  refine ⟨source,?_,rfl,hf,he⟩
  simp only [classify?,BuildContext.of,if_true,Classifier.all,List.findSome?_cons,classifyBy,
    isLabelGap_of_isPath hl.path,Bool.false_eq_true,if_false,hjs,hp,Option.bind_some,hm,
    Option.map_some]
  rfl

/-- Declarations go to a directory among the outputs. -/
def nestedProfile : TsConfig.Profile where
  tsconfigRel := "tsconfig.json"
  baseUrl := none
  pathsBase := ""
  rules := []
  outDir := some "dist"
  rootDir := some "src"
  declarationDir := some "dist/types"
  fingerprint := ""

def nestedOutput : Unresolved where
  importer := .of "scripts/run.ts"
  spec := "../dist/types/view.d.js"
  rawSpec := "../dist/types/view.d.js"
  profile := some nestedProfile

/-- The output of a source that is named as an output is. -/
theorem classify?_emission_nested :
    let i := FileIndex.of (.ofList ["src/types/view.d.ts"])
    let output := Path.child "dist" ("types/view.d" ++ ".js")
    (nestedOutput.importer.ecosystem = .javaScript ∧ nestedOutput.profile = some nestedProfile ∧
      IsOutput i nestedProfile "dist" "types/view.d" ".ts" ".js" ∧
      LeadsTo nestedOutput.spec nestedOutput.importer output) ∧
    ∃ source, (BuildContext.of ["src/types/view.d.ts"] true).classify? i nestedOutput =
        some ⟨.generatedExpectedMissing,.emit,some (.counterpart output source)⟩ ∧
      (Artifact.Match.counterpart output source).isIndexed = true ∧ source ∈ i.files ∧
      Emits nestedProfile source output := by
  intro i output
  have hjs : nestedOutput.importer.ecosystem = .javaScript := by decide +kernel
  have ho : IsOutput i nestedProfile "dist" "types/view.d" ".ts" ".js" := {
    root := ⟨["src"],by decide +kernel,by decide +kernel⟩
    dir := by decide +kernel
    apart := by decide +kernel
    named := by decide
    writes := ⟨_,.head _,rfl,.head _⟩
    source := (FileSet.contains_iff _ _).mp (by decide +kernel) }
  have hl : LeadsTo nestedOutput.spec nestedOutput.importer output := {
    path := .inl (.inr (by decide +kernel))
    lands := by decide +kernel
    trimmed := by decide +kernel
    relative := by decide +kernel
    inside := by decide +kernel }
  exact ⟨⟨hjs,rfl,ho,hl⟩,classify?_emission _ hjs rfl ho hl⟩

end BuildContext
end ImportResolution
