import Mathlib.Data.List.Infix
import ImportResolution.Proofs.Candidates
import ImportResolution.Proofs.Governing

/-! The nearest configuration. A loader that answers many importers, one after the other, gives each
the answer of a new loader; and that is the profile of the configuration in the nearest directory at
or above the importer that has one, or nothing where it does not load or there is none. -/
namespace ImportResolution

-- No text is computed here, and no unifier should try to.
attribute [local irreducible] String.toList

namespace Path

/-- A name that a normal form keeps as it is, wherever it stands. -/
structure IsTidyName (s : String) : Prop extends IsTidy s where
  isStep : IsStep s
  ne_up : s ≠ ".."

/-- A path as it is asked for: relative, not leaving the root, and without blanks around any of its
segments. -/
structure IsTidyPath (path : String) : Prop where
  relative : isRooted (toPosix path) = false
  inside : escapesRoot (normalize path) = false
  trimmed : ∀ s ∈ segments (toPosix path), Text.trim s = s

theorem trim_of_toPosix {s : String} (h : Text.trim (toPosix s) = toPosix s) : Text.trim s = s := by
  have hb : ∀ c, Text.isBlank (if c = '\\' then '/' else c) = false → Text.isBlank c = false := by
    intro c hc
    split at hc
    · next he => rw [he]; decide
    · exact hc
  obtain ⟨hh,hl⟩ := Text.trimWhere_eq_self_iff.mp h
  rw [toPosix,Text.replaceChar,String.toList_ofList] at hh hl
  refine Text.trimWhere_eq_self_iff.mpr ⟨fun c hc => hb c (hh _ ?_),fun c hc => hb c (hl _ ?_)⟩
  · rw [List.head?_map]
    exact Option.mem_map_of_mem _ hc
  · rw [List.getLast?_map]
    exact Option.mem_map_of_mem _ hc

/-- The normal form of a tidy path consists of tidy names. -/
theorem IsTidyPath.exists_names {path : String} (h : IsTidyPath path) :
    ∃ names, (∀ s ∈ names, IsTidyName s) ∧ normalize path = ofSegments names := by
  have ht : Text.trim path = path := trim_of_toPosix (trim_of_segments h.trimmed)
  obtain ⟨names,k,hn,hw⟩ := walk_ups (segments (toPosix path))
  have hform : normalize path = ofSegments (List.replicate k ".." ++ names) := by
    simp [normalize,ht,h.relative,hw]
  cases k with
  | succ k =>
    have hu := h.inside
    rw [hform,List.replicate_succ,List.cons_append,escapesRoot_ofSegments] at hu
    cases hu
  | zero =>
    rw [List.replicate_zero,List.nil_append] at hw hform
    refine ⟨names,fun s hs => ?_,hform⟩
    have hup : s ≠ ".." := fun he => hn (he ▸ hs)
    obtain ⟨hm,-⟩ := (mem_walk (hw ▸ hs)).resolve_left hup
    refine ⟨⟨h.trimmed s hm,fun hc => ?_⟩,isStep_of_mem_walk (hw ▸ hs),hup⟩
    apply backslash_not_mem_toPosix path
    rw [← ofSegments_segments (toPosix path),mem_toList_ofSegments (by decide)]
    exact ⟨s,hm,hc⟩

section Names
variable {names : List String} (h : ∀ s ∈ names, IsTidyName s) (hn : names ≠ [])
include h hn

theorem segments_ofSegments_names : segments (ofSegments names) = names :=
  segments_ofSegments (fun s hs => (h s hs).isStep.2.2) hn

theorem isPlain_ofSegments_names : IsPlain (ofSegments names) :=
  isPlain_ofSegments hn fun s hs => ⟨(h s hs).isStep,(h s hs).toIsTidy⟩

/-- Tidy names make a normal form. -/
theorem normalize_ofSegments : normalize (ofSegments names) = ofSegments names := by
  refine (isPlain_ofSegments_names h hn).normalize_eq ?_
  rw [segments_ofSegments_names h hn]
  exact fun hm => (h _ hm).ne_up rfl

end Names

end Path

namespace TsConfig
open ImportResolution.Path (IsTidyName IsTidyPath ofSegments)

/-- Where a directory, given by the names that lead to it, has its configuration. -/
def configPlace (root : String) (dir : List String) : String :=
  (dir ++ [fileName]).foldl Location.join root

theorem isTidyName_fileName : IsTidyName fileName :=
  ⟨⟨by decide +kernel,by decide +kernel⟩,⟨by decide,by decide,by decide +kernel⟩,by decide⟩

section Place
variable {dir : List String} (h : ∀ s ∈ dir, IsTidyName s)
include h

theorem isTidyName_of_mem : ∀ s ∈ dir ++ [fileName], IsTidyName s := by
  intro s hs
  rcases List.mem_append.mp hs with hs | hs
  · exact h s hs
  · exact List.mem_singleton.mp hs ▸ isTidyName_fileName

theorem steps_configPath : Path.steps (ofSegments (dir ++ [fileName])) = dir ++ [fileName] := by
  have hs := Path.segments_ofSegments_names (isTidyName_of_mem h) (by simp)
  rw [Path.steps_of_isStep (hs.symm ▸ fun s hm => (isTidyName_of_mem h s hm).isStep),hs]

theorem join_fileName : Path.join (ofSegments dir) fileName = ofSegments (dir ++ [fileName]) := by
  by_cases hn : dir = []
  · subst hn
    decide +kernel
  · have hdot : ofSegments dir ≠ "." := by
      intro he
      have hs := Path.segments_ofSegments_names h hn
      have hd : Path.segments "." = ["."] := by decide +kernel
      rw [he,hd] at hs
      exact (h "." (hs ▸ .head _)).isStep.2.1 rfl
    rw [Path.join,if_neg (by simp [(Path.isPlain_ofSegments_names h hn).ne_empty,hdot]),
      ← Path.ofSegments_concat hn fileName]
    exact Path.normalize_ofSegments (isTidyName_of_mem h) (by simp)

theorem placeIn_ofSegments (root : String) :
    placeIn root (ofSegments dir) = configPlace root dir := by
  rw [placeIn,join_fileName h]
  exact congrArg (List.foldl Location.join root) (steps_configPath h)

/-- A configuration that loads has a profile, which bears its path. -/
theorem exists_of?_configPlace (root : String) (merged : MergedOptions) :
    ∃ p, Profile.of? root (configPlace root dir) merged = some p ∧
      p.tsconfigRel = ofSegments (dir ++ [fileName]) := by
  have hall := isTidyName_of_mem h
  have hw := Location.within?_ofRelative (c := ofSegments (dir ++ [fileName]))
    (by rw [steps_configPath h]; exact fun s hm => ⟨(hall s hm).isStep,(hall s hm).ne_up⟩)
    (by rw [steps_configPath h]; simp) root
  have ho : Location.ofRelative root (ofSegments (dir ++ [fileName])) = configPlace root dir :=
    congrArg (List.foldl Location.join root) (steps_configPath h)
  rw [ho,steps_configPath h] at hw
  rw [Profile.of?,hw]
  exact ⟨_,rfl,rfl⟩

end Place

variable (v : DiskView) (root : String)

/-- The nearest directory at or above one that has a configuration. -/
structure IsNearest (dir above : List String) : Prop where
  le : above <+: dir
  isFile : v.isFile (configPlace root above) = true
  nearest : ∀ other, other <+: dir → v.isFile (configPlace root other) = true → other <+: above

/-- What governs a directory: the nearest configuration, if there is one and it loads. -/
inductive IsGoverned (dir : List String) : Option Profile → Prop
  | absent (h : ∀ above, above <+: dir → v.isFile (configPlace root above) = false) :
      IsGoverned dir none
  | broken {above : List String} {e : ConfigError} (h : IsNearest v root dir above)
      (hc : chain v (configPlace root above) = .error e) : IsGoverned dir none
  | loaded {above : List String} {merged : MergedOptions} {p : Profile}
      (h : IsNearest v root dir above) (hc : chain v (configPlace root above) = .ok merged)
      (hp : Profile.of? root (configPlace root above) merged = some p)
      (hr : p.tsconfigRel = ofSegments (above ++ [fileName])) : IsGoverned dir (some p)

variable {v root}

/-- What is found where a directory has a configuration. -/
theorem isGoverned_of_isNearest {dir above : List String} (h : ∀ s ∈ above, IsTidyName s)
    (hn : IsNearest v root dir above) :
    IsGoverned v root dir (profileOf? v root (configPlace root above)) := by
  rw [profileOf?]
  cases hc : chain v (configPlace root above) with
  | error e => exact .broken hn hc
  | ok merged =>
    obtain ⟨p,hp,hr⟩ := exists_of?_configPlace h root merged
    simp only [hp]
    exact .loaded hn hc hp hr

/-- Where a directory has no configuration, what governs the one above governs it. -/
theorem IsGoverned.below {dir : List String} {name : String} {found : Option Profile}
    (h : IsGoverned v root dir found)
    (hf : v.isFile (configPlace root (dir ++ [name])) = false) :
    IsGoverned v root (dir ++ [name]) found := by
  have hnearest : ∀ {above}, IsNearest v root dir above →
      IsNearest v root (dir ++ [name]) above := by
    intro above hn
    refine ⟨hn.le.trans (List.prefix_append ..),hn.isFile,fun other ho hi => ?_⟩
    rcases List.prefix_concat_iff.mp ho with rfl | ho
    · rw [hf] at hi
      cases hi
    · exact hn.nearest other ho hi
  cases h with
  | absent h =>
    refine .absent fun above ha => ?_
    rcases List.prefix_concat_iff.mp ha with rfl | ha
    · exact hf
    · exact h above ha
  | broken hn hc => exact .broken (hnearest hn) hc
  | loaded hn hc hp hr => exact .loaded (hnearest hn) hc hp hr

/-- The climb of a loader without a memory ends at the nearest configuration. -/
theorem isGoverned_governDir {dir : List String} (h : ∀ s ∈ dir, IsTidyName s) :
    IsGoverned v root dir (governDir v root (ofSegments dir)) := by
  -- The last name is what the climb takes back first.
  induction dir using List.reverseRecOn with
  | nil =>
    have ho : ofSegments [] = "" := by decide +kernel
    have hp := placeIn_ofSegments h root
    rw [governDir_step,hp,if_pos ho]
    cases hf : v.isFile (configPlace root []) with
    | true =>
      refine isGoverned_of_isNearest h ⟨List.nil_prefix,hf,fun other ho _ => ho⟩
    | false =>
      refine .absent fun above ha => ?_
      rw [List.prefix_nil.mp ha,hf]
  | append_singleton dir name ih =>
    have hdir : ∀ s ∈ dir, IsTidyName s := fun s hs => h s (by simp [hs])
    have hsegments := Path.segments_ofSegments_names h (by simp)
    rw [governDir_step,placeIn_ofSegments h root,if_neg (Path.isPlain_ofSegments_names h (by simp)).ne_empty,
      Path.parent_of_segments hsegments]
    cases hf : v.isFile (configPlace root (dir ++ [name])) with
    | true => exact isGoverned_of_isNearest h ⟨List.prefix_rfl,hf,fun other ho _ => ho⟩
    | false => exact (ih hdir).below hf

/-- The names that lead to the directory of an importer. -/
def dirNames (importerRel : String) : List String :=
  (Path.segments (Path.normalize importerRel)).dropLast

theorem isGoverned_governing {importerRel : String} (h : IsTidyPath importerRel) :
    IsGoverned v root (dirNames importerRel) (governing v root importerRel) := by
  obtain ⟨names,hn,hform⟩ := h.exists_names
  rw [governing,dirNames,hform]
  rcases List.eq_nil_or_concat names with rfl | ⟨front,last,rfl⟩
  · have he : Path.parent (ofSegments []) = ofSegments [] := by decide +kernel
    have hd : (Path.segments (ofSegments [])).dropLast = [] := by decide +kernel
    rw [he,hd]
    exact isGoverned_governDir (by simp)
  · rw [List.concat_eq_append] at hn ⊢
    have hs := Path.segments_ofSegments_names hn (by simp)
    rw [Path.parent_of_segments hs,hs,List.dropLast_concat]
    exact isGoverned_governDir fun s hm => hn s (by simp [hm])

namespace Loader

/-- The answers to importers, one after the other, each found with the memory that the last left. -/
def answers (v : DiskView) (root : String) : Loader → List String → List (Option Profile)
  | _, [] => []
  | l, importerRel :: rest =>
    (find v root l importerRel).1 :: answers v root (find v root l importerRel).2 rest

theorem answers_eq_map_governing {l : Loader} (h : l.IsTrue v root) (importers : List String) :
    answers v root l importers = importers.map (governing v root) := by
  induction importers generalizing l with
  | nil => rfl
  | cons importerRel rest ih =>
    obtain ⟨hv,ht⟩ := find_eq h importerRel
    rw [answers,hv,ih ht,List.map_cons]

/-- Whatever a loader was asked before, it answers as a new one does, by the nearest configuration. -/
theorem answers_eq_map_find (v : DiskView) (root : String) {importers : List String}
    (h : ∀ i ∈ importers, IsTidyPath i) :
    answers v root {} importers = importers.map (fun i => (find v root {} i).1) ∧
      ∀ i ∈ importers, IsGoverned v root (dirNames i) (find v root {} i).1 := by
  have hnew (i : String) : (find v root {} i).1 = governing v root i :=
    (find_eq (isTrue_empty v root) i).1
  constructor
  · rw [answers_eq_map_governing (isTrue_empty v root)]
    exact List.map_congr_left fun i _ => (hnew i).symm
  · intro i hi
    rw [hnew]
    exact isGoverned_governing (h i hi)

/-- A configuration at the root, and one below it that is broken. -/
def nested : DiskView :=
  ⟨⟨[(["r"],.dir),(["r","tsconfig.json"],.file "\x7b\x7d".toUTF8),(["r","web"],.dir),
    (["r","web","tsconfig.json"],.file "\x7b".toUTF8)]⟩,{}⟩

def nestedImporters : List String := ["web/ui/page.ts","main.ts","lib/../web/app.ts","lib/util.ts"]

/-- The broken configuration hides the one at the root from what lies below it. -/
theorem answers_eq_map_find_nested :
    (∀ i ∈ nestedImporters, IsTidyPath i) ∧
      answers nested "/r" {} nestedImporters =
        nestedImporters.map (fun i => (find nested "/r" {} i).1) ∧
      (∀ i ∈ nestedImporters, IsGoverned nested "/r" (dirNames i) (find nested "/r" {} i).1) ∧
      (answers nested "/r" {} nestedImporters).map (Option.map (·.tsconfigRel)) =
        [none,some "tsconfig.json",none,some "tsconfig.json"] := by
  have h : ∀ i ∈ nestedImporters, IsTidyPath i := by
    intro i hi
    simp only [nestedImporters,List.mem_cons,List.not_mem_nil,or_false] at hi
    rcases hi with rfl | rfl | rfl | rfl <;>
      exact ⟨by decide +kernel,by decide +kernel,by decide +kernel⟩
  obtain ⟨heach,hgoverned⟩ := answers_eq_map_find nested "/r" h
  exact ⟨h,heach,hgoverned,by decide +kernel⟩

end Loader
end TsConfig
end ImportResolution
