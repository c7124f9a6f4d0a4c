import ImportResolution.Proofs.Acceleration

/-! Candidates of the index and of a search. Where the index holds all files of a tree, a search comes to
the file that the index has for a relative specifier, if the file has an extension. -/
namespace ImportResolution

namespace Path

/-- A name that a normal form keeps. -/
structure IsTidy (s : String) : Prop where
  trimmed : Text.trim s = s
  posix : '\\' ∉ s.toList

instance (s : String) : Decidable (IsTidy s) :=
  decidable_of_iff (Text.trim s = s ∧ '\\' ∉ s.toList) ⟨fun ⟨ht,hp⟩ => ⟨ht,hp⟩,fun h => ⟨h.1,h.2⟩⟩

theorem ofSegments_singleton (s : String) : ofSegments [s] = s := by simp [ofSegments]

theorem exists_ofSegments_cons (s : String) (rest : List String) :
    ∃ t, ofSegments (s :: rest) = s ++ t := by
  cases rest with
  | nil => exact ⟨"",by rw [ofSegments_singleton,String.append_empty]⟩
  | cons u rest => exact ⟨_,by rw [ofSegments_cons_cons,String.append_assoc]⟩

/-- Tidy names make a plain path. -/
theorem isPlain_ofSegments {names : List String} (hn : names ≠ [])
    (h : ∀ s ∈ names, IsStep s ∧ IsTidy s) : IsPlain (ofSegments names) := by
  have hsegments : segments (ofSegments names) = names :=
    segments_ofSegments (fun s hs => (h s hs).1.2.2) hn
  refine ⟨trim_of_segments (hsegments.symm ▸ fun s hs => (h s hs).2.trimmed),?_,?_,?_⟩
  · rw [mem_toList_ofSegments (by decide)]
    rintro ⟨s,hs,hb⟩
    exact (h s hs).2.posix hb
  · obtain ⟨s,rest,rfl⟩ := List.exists_cons_of_ne_nil hn
    obtain ⟨t,ht⟩ := exists_ofSegments_cons s rest
    have hs : IsStep s := (h s (.head _)).1
    rw [ht,Location.isRooted_append hs.1]
    exact Location.not_isRooted_of_step hs
  · rw [hsegments]
    exact fun s hs => (h s hs).1

/-- A normal form without blanks around it that names a file of the repository is plain. -/
theorem isPlain_of_isInside {s : String} (ht : Text.trim (normalize s) = normalize s)
    (hi : isInside (normalize (normalize s)) = true) :
    IsPlain (normalize s) ∧ normalize (normalize s) = normalize s := by
  have hr : isRooted (normalize s) = false := by
    refine eq_false_of_ne_true fun hr => ?_
    have hb := backslash_not_mem_normalize s
    generalize normalize s = x at ht hi hr hb
    rw [normalize,ht,toPosix_eq_self hb,hr] at hi
    simp [isInside,isRooted,Text.startsWith,List.isPrefixOf] at hi
  have hn := normalize_normalize ht hr
  refine ⟨isPlain_normalize ht hr ?_,hn⟩
  rintro he
  rw [hn,he] at hi
  cases hi

end Path

namespace Probe

/-- A relative specifier is sought from the directory of its importer. -/
theorem bases_relative {spec : String}
    (h : Text.startsWith "./" spec = true ∨ Text.startsWith "../" spec = true)
    (importer : Importer) {purse : Purse} (hd : climbs spec ≤ purse.maxDepth) :
    bases spec importer purse = ([Path.join importer.dir spec],purse) := by
  have hspec : ¬(spec = "" ∨ spec = "." ∨ spec = "..") := by
    rintro (rfl | rfl | rfl) <;> revert h <;> decide
  have hdot : StartsBy '.' spec := by
    rcases h with h | h
    · exact StartsBy.of_startsWith (s := "./") ⟨['/'],by decide +kernel⟩ h
    · exact StartsBy.of_startsWith (s := "../") ⟨['.','/'],by decide +kernel⟩ h
  have hrel : Text.afterHead? "/" spec = none :=
    hdot.afterHead?_eq_none (d := '/') ⟨[],by decide +kernel⟩ (by decide)
  rw [bases,if_neg hspec,hrel,Purse.allowDepth,if_pos hd]

theorem length_candidates_le (base : String) :
    (candidates [base]).length ≤ 2 * FileIndex.guessedExtensions.length := by
  by_cases hb : base = ""
  · simp [candidates,hb]
  · by_cases hx : Path.hasExtension base = true
    · simp [candidates,hb,spellings,hx,FileIndex.guessedExtensions]
    · simp [candidates,hb,spellings,hx,FileIndex.guessedExtensions]

/-- A search that can pay for all its candidates is not cut short. -/
theorem isExhausted_search {site : ProbeSite} {cs : List String} {s : ProbeState}
    (hs : s.purse.isExhausted = false) (hc : cs.length ≤ s.purse.candidates)
    (hp : cs.length ≤ s.purse.probes) : (search site cs s).2.purse.isExhausted = false := by
  induction cs generalizing s with
  | nil => exact hs
  | cons c rest ih =>
    rw [List.length_cons] at hc hp
    cases search_cons site c rest s with
    | noCandidate hspent => omega
    | noLook _ _ hspent => omega
    | examined t hx he =>
      have ht : t.purse.isExhausted = false := by
        rw [Purse.isExhausted,hx.exhausted]
        exact hs
      have hcandidates := hx.candidates
      have hprobes := hx.probes
      have hlooks : ([c].filterMap (lookPlace? site)).length ≤ 1 := List.length_filterMap_le _ _
      rw [List.length_singleton] at hcandidates
      rw [he]
      cases hit? site c with
      | some path => exact ht
      | none => exact ih ht (by omega) (by omega)

end Probe

-- No text is computed from here on, and no unifier should try to.
attribute [local irreducible] String.toList

theorem FileIndex.isInside_of_candidate? {i : FileIndex} {path p : String}
    (h : i.candidate? path = some p) : Path.isInside (Path.normalize path) = true := by
  refine eq_true_of_ne_false fun hi => ?_
  simp [candidate?,hi] at h

namespace Disk
open ImportResolution.Path (IsStep steps)
variable {d : Disk} {root : String}

/-- All files below a root, for an index. -/
def allFiles (d : Disk) (root : String) : FileSet :=
  FileSet.ofPaths ((d.filesBelow root).map Path.ofSegments)

/-- All names below a root are tidy. -/
def IsTidy (d : Disk) (root : String) : Prop :=
  ∀ names ∈ d.filesBelow root, ∀ s ∈ names, Path.IsTidy s

instance (d : Disk) (root : String) : Decidable (d.IsTidy root) :=
  inferInstanceAs (Decidable (∀ names ∈ d.filesBelow root, ∀ s ∈ names, Path.IsTidy s))

theorem exists?_of_mem_filesBelow {names : List String} (h : names ∈ d.filesBelow root) :
    d.exists? root = true := by
  obtain ⟨path,hl,-⟩ := mem_filesBelow.mp h
  simp [exists?,isDir,stat,hl]

theorem mem_allFiles (hd : d.IsTree) (ht : d.IsTidy root) {path : String} :
    path ∈ d.allFiles root ↔ ∃ names ∈ d.filesBelow root, path = Path.ofSegments names := by
  have hnormal : ∀ names ∈ d.filesBelow root,
      Path.normalize (Path.ofSegments names) = Path.ofSegments names ∧
        Path.isInside (Path.ofSegments names) = true := by
    intro names hm
    obtain ⟨front,-,hn,content,hmem⟩ := mem_filesBelow.mp hm
    have hname := fun s hs => hd.named _ hmem s (List.mem_append_right front hs)
    have hplain := Path.isPlain_ofSegments hn fun s hs => ⟨(hname s hs).isStep,ht names hm s hs⟩
    have hup : ".." ∉ Path.segments (Path.ofSegments names) := by
      rw [Path.segments_ofSegments (fun s hs => (hname s hs).isStep.2.2) hn]
      exact fun hs => (hname _ hs).ne_up rfl
    exact ⟨hplain.normalize_eq hup,hplain.isInside hup⟩
  simp only [allFiles,FileSet.ofPaths,FileSet.mem_ofList,List.mem_filter,List.mem_map]
  constructor
  · rintro ⟨⟨-,⟨names,hm,rfl⟩,rfl⟩,-⟩
    exact ⟨names,hm,(hnormal names hm).1⟩
  · rintro ⟨names,hm,rfl⟩
    exact ⟨⟨_,⟨names,hm,rfl⟩,(hnormal names hm).1⟩,(hnormal names hm).2⟩

end Disk

/-- A purse that nothing was refused, with enough for all that a specifier may stand for. -/
structure Purse.IsAmple (p : Purse) (spec : String) : Prop where
  unrefused : p.isExhausted = false
  candidates : 2 * FileIndex.guessedExtensions.length ≤ p.candidates
  probes : 2 * FileIndex.guessedExtensions.length ≤ p.probes
  depth : Probe.climbs spec ≤ p.maxDepth

namespace Probe
open ImportResolution.Path (IsStep steps)

/-- An ample purse pays for all candidates of a relative specifier. -/
theorem find_relative {site : ProbeSite} {spec : String}
    (h : Text.startsWith "./" spec = true ∨ Text.startsWith "../" spec = true)
    (importer : Importer) {s : ProbeState} (hs : s.purse.IsAmple spec) :
    (find site spec importer s).1 =
      (candidates [Path.join importer.dir spec]).findSome? (hit? site) := by
  have hlength := length_candidates_le (Path.join importer.dir spec)
  simp only [find,bases_relative h importer hs.depth]
  exact search_eq (isExhausted_search hs.unrefused (Nat.le_trans hlength hs.candidates)
    (Nat.le_trans hlength hs.probes))

section Tree
variable {disk : Disk} {root : String} {view : DiskView}
  (hv : ∀ place, view.isFile place = disk.isFile place) {c : String} (hc : Path.IsPlain c)
include hv hc

/-- What a search takes for a file is one of the tree. -/
theorem mem_allFiles_of_hit? (hd : disk.IsTree) (ht : disk.IsTidy root)
    (hroot : disk.exists? root = true) (h : hit? (plainSite root view) c ≠ none) :
    c ∈ disk.allFiles root := by
  have hsteps : steps c = Path.segments c := Path.steps_of_isStep hc.isStep
  obtain ⟨path,h⟩ := Option.ne_none_iff_exists'.mp h
  obtain ⟨hw,hf⟩ := hit?_eq_some.mp h
  have hf : view.isFile ((steps c).foldl Location.join root) = true := hf
  obtain ⟨-,hup,hne⟩ := Location.steps_of_within? (hsteps.symm ▸ hc.isStep) hw
  rw [hv] at hf
  refine (Disk.mem_allFiles hd ht).mpr ⟨steps c,?_,by rw [hsteps,Path.ofSegments_segments]⟩
  exact Disk.mem_filesBelow_of_isFile hroot hne
    (fun s hs => ⟨hc.isStep s (hsteps ▸ hs),fun he => hup (he ▸ hs)⟩) hf

/-- A file of the tree is a hit where its place can be asked for. -/
theorem hit?_of_mem_allFiles (hd : disk.IsTree) (ht : disk.IsTidy root)
    (hm : c ∈ disk.allFiles root) (hl : (Location.ofRelative root c).utf8ByteSize ≤
      Disk.maxPlace) : hit? (plainSite root view) c = some c := by
  obtain ⟨names,hm,hnames⟩ := (Disk.mem_allFiles hd ht).mp hm
  obtain ⟨front,-,hne,content,hmem⟩ := Disk.mem_filesBelow.mp hm
  have hname := fun s hs => hd.named _ hmem s (List.mem_append_right front hs)
  have hsteps : steps c = names := by
    rw [Path.steps_of_isStep hc.isStep,hnames,
      Path.segments_ofSegments (fun s hs => (hname s hs).isStep.2.2) hne]
  have hw := Location.within?_ofRelative (c := c)
    (fun s hs => ⟨(hname s (hsteps ▸ hs)).isStep,(hname s (hsteps ▸ hs)).ne_up⟩)
    (hsteps.symm ▸ hne) root
  rw [hsteps,← hnames] at hw
  refine hit?_eq_some.mpr ⟨hw,?_⟩
  have hplace : Location.ofRelative root c = names.foldl Location.join root :=
    congrArg (List.foldl Location.join root) hsteps
  change view.isFile (Location.ofRelative root c) = true
  rw [hv,hplace]
  exact Disk.isFile_of_mem_filesBelow hd hm (hplace ▸ hl)

end Tree

/-- Where the first spelling of a file that the index has is the path of the file, whatever takes that
path and otherwise none but members comes to the path. -/
theorem findSome?_of_spelled {i : FileIndex} {base p : String} {cs : List String}
    (hcs : ∀ c ∈ cs, c ∈ FileIndex.spellings base) (hp : p ∈ FileIndex.spellings base)
    (h : cs.findSome? i.spelled? = some p) {f : String → Option String} (hf : f p = some p)
    (hm : ∀ c ∈ cs, f c ≠ none → c ∈ i.files) : cs.findSome? f = some p := by
  obtain ⟨front,c,back,hc,hspelled,hfront⟩ := List.findSome?_eq_some_iff.mp h
  have he : p = c := FileIndex.eq_of_mem_spellings hp (hcs c (by simp [hc]))
    (FileIndex.lower_of_spelled? hspelled).2
  refine List.findSome?_eq_some_iff.mpr ⟨front,c,back,hc,he ▸ hf,fun d hd => ?_⟩
  refine Decidable.byContradiction fun hn => ?_
  have hspell : i.spelled? d = some d :=
    if_pos ((FileSet.contains_iff _ _).mpr (hm d (by simp [hc,hd]) hn))
  rw [hfront d hd] at hspell
  cases hspell

theorem mem_spellings_of_mem {base c : String} (h : c ∈ spellings base) :
    c ∈ FileIndex.spellings base := by
  rcases cases_of_mem_spellings h with ⟨rfl,-⟩ | ⟨-,hc,-⟩
  · exact .head _
  · exact hc

/-- A candidate that is spelled with an extension is the first one that the index has among those of a
search. -/
theorem findSome?_of_candidate? {i : FileIndex} {base p : String} (hn : Path.normalize base = base)
    (hi : Path.isInside base = true) (h : i.candidate? base = some p)
    (hp : p ∈ FileIndex.spellings base) (hx : Path.hasExtension p = true) :
    (spellings base).findSome? i.spelled? = some p := by
  unfold FileIndex.candidate? at h
  simp only [hn,hi,Bool.not_true,Bool.false_eq_true,if_false] at h
  unfold spellings
  by_cases hb : Path.hasExtension base = true
  · rw [if_pos hb] at h ⊢
    simpa using h
  · rw [if_neg hb] at h ⊢
    split at h
    · cases h
    · rw [FileIndex.spellings,List.findSome?_cons] at h
      cases hs : i.spelled? base with
      | none => rwa [hs] at h
      | some q =>
        rw [hs] at h
        obtain rfl := Option.some.inj h
        have he := FileIndex.eq_of_mem_spellings hp (.head _) (FileIndex.lower_of_spelled? hs).2
        exact absurd (he ▸ hx) hb

/-- With all files of a tree in the index, a search comes to what the index has for a relative specifier
by one of its spellings, if the place that the specifier names is its own normal form and the file has an
extension and can be asked for. -/
theorem find_of_candidate? {disk : Disk} {root : String} {view : DiskView} (hd : disk.IsTree)
    (hv : ∀ place, view.isFile place = disk.isFile place) (ht : disk.IsTidy root) {spec : String}
    (hspec : Text.startsWith "./" spec = true ∨ Text.startsWith "../" spec = true)
    (importer : Importer) {s : ProbeState} (hs : s.purse.IsAmple spec) {p : String}
    (hp : (FileIndex.of (disk.allFiles root)).candidate? (Path.join importer.dir spec) = some p)
    (hexact : p ∈ FileIndex.spellings (Path.join importer.dir spec))
    (htrim : Text.trim (Path.join importer.dir spec) = Path.join importer.dir spec)
    (hx : Path.hasExtension p = true)
    (hl : (Location.ofRelative root p).utf8ByteSize ≤ Disk.maxPlace) :
    (find (plainSite root view) spec importer s).1 = some p := by
  have hmem : p ∈ disk.allFiles root := FileIndex.mem_of_candidate? hp
  obtain ⟨names,hnames,-⟩ := (Disk.mem_allFiles hd ht).mp hmem
  have hroot := Disk.exists?_of_mem_filesBelow hnames
  have hinside := FileIndex.isInside_of_candidate? hp
  obtain ⟨t,hbase⟩ := Location.exists_normalize_eq_join importer.dir spec
  rw [find_relative hspec importer hs,hbase]
  rw [hbase] at hp hexact htrim hinside
  obtain ⟨hplain,hnormal⟩ := Path.isPlain_of_isInside htrim hinside
  rw [hnormal] at hinside
  have hcandidates : candidates [Path.normalize t] = spellings (Path.normalize t) := by
    simp [candidates,hplain.ne_empty]
  have hspelled := findSome?_of_candidate? hnormal hinside hp hexact hx
  have hc : ∀ c ∈ spellings (Path.normalize t), Path.IsPlain c := fun c hc =>
    (isPlain_of_mem_spellings hplain hc).1
  have hpplain : Path.IsPlain p := by
    obtain ⟨c,hm,hs⟩ := List.exists_of_findSome?_eq_some hspelled
    rw [FileIndex.eq_of_mem_spellings hexact (mem_spellings_of_mem hm)
      (FileIndex.lower_of_spelled? hs).2]
    exact hc c hm
  rw [hcandidates]
  exact findSome?_of_spelled (fun c hc => mem_spellings_of_mem hc) hexact hspelled
    (hit?_of_mem_allFiles hv hpplain hd ht hmem hl)
    fun c hm hn => mem_allFiles_of_hit? hv (hc c hm) hd ht hroot hn

/-- The source beside its importer. -/
theorem find_of_candidate?_source :
    sourceDisk.IsTidy "/r" ∧ sourceState.purse.IsAmple "./util" ∧
      (FileIndex.of (sourceDisk.allFiles "/r")).candidate?
        (Path.join (Importer.of "main.ts").dir "./util") = some "util.ts" ∧
      (find (plainSite "/r" ⟨sourceDisk,{}⟩) "./util" (.of "main.ts") sourceState).1 =
        some "util.ts" := by
  have ht : sourceDisk.IsTidy "/r" := by decide +kernel
  have hs : sourceState.purse.IsAmple "./util" :=
    ⟨by decide +kernel,by decide +kernel,by decide +kernel,by decide +kernel⟩
  have hp : (FileIndex.of (sourceDisk.allFiles "/r")).candidate?
      (Path.join (Importer.of "main.ts").dir "./util") = some "util.ts" := by decide +kernel
  exact ⟨ht,hs,hp,find_of_candidate? isTree_sourceDisk (fun _ => rfl) ht (.inl (by decide +kernel))
    (.of "main.ts") hs hp (by decide +kernel) (by decide +kernel) (by decide +kernel)
    (by decide +kernel)⟩

/-- A disk with a file that has no extension. -/
def makeDisk : Disk where
  entries := [(["r"],.dir),(["r","Makefile"],.file .empty),(["r","main.ts"],.file .empty)]

/-- The index has the file by its name; the search tries none but names with an extension. -/
theorem find_ne_makefile :
    makeDisk.IsTree ∧ makeDisk.IsTidy "/r" ∧
      ((makeDisk.allFiles "/r").paths.map Text.lower).Nodup ∧
      sourceState.purse.IsAmple "./Makefile" ∧
      (FileIndex.of (makeDisk.allFiles "/r")).candidate?
        (Path.join (Importer.of "main.ts").dir "./Makefile") = some "Makefile" ∧
      "Makefile" ∈ FileIndex.spellings (Path.join (Importer.of "main.ts").dir "./Makefile") ∧
      (find (plainSite "/r" ⟨makeDisk,{}⟩) "./Makefile" (.of "main.ts") sourceState).1 = none := by
  have htree : makeDisk.IsTree :=
    ⟨Disk.closed_of_entries (by decide +kernel),by decide +kernel,by decide +kernel⟩
  have hs : sourceState.purse.IsAmple "./Makefile" :=
    ⟨by decide +kernel,by decide +kernel,by decide +kernel,by decide +kernel⟩
  exact ⟨htree,by decide +kernel,by decide +kernel,hs,by decide +kernel,by decide +kernel,
    by decide +kernel⟩

end Probe
end ImportResolution
