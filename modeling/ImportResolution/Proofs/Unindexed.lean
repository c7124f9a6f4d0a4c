import ImportResolution.Proofs.Folding
import ImportResolution.Proofs.Meaning

/-! Files on the disk outside the index. What a search finds lies below the root and is there; that the
index does not have it is sure where the search looked for no more than the index was asked for. -/
namespace ImportResolution

namespace Path

/-- The segments that lead somewhere. -/
def steps (s : String) : List String := (segments s).filter (· ≠ "")

theorem steps_of_isStep {s : String} (h : ∀ x ∈ segments s, IsStep x) : steps s = segments s :=
  List.filter_eq_self.mpr fun x hx => by simpa using (h x hx).1

/-- A normal form that is neither rooted nor empty consists of steps. -/
theorem isStep_of_mem_normalize {s x : String} (hr : isRooted (normalize s) = false)
    (hn : normalize s ≠ "") (hx : x ∈ segments (normalize s)) : IsStep x := by
  simp only [normalize] at hr hn hx
  generalize toPosix (Text.trim s) = posix at hr hn hx
  cases hrooted : isRooted posix with
  | true =>
    rw [hrooted,if_pos rfl] at hr
    simp [isRooted,Text.startsWith,List.isPrefixOf] at hr
  | false =>
    simp only [hrooted,Bool.false_eq_true,if_false] at hn hx
    have hs : ∀ y ∈ walk false (segments posix), IsStep y := fun y hy => isStep_of_mem_walk hy
    generalize walk false (segments posix) = xs at hn hx hs
    have hne : xs ≠ [] := fun h => hn (by rw [h]; rfl)
    rw [segments_ofSegments (fun y hy => (hs y hy).2.2) hne] at hx
    exact hs x hx

theorem escapesRoot_of_not_mem {s : String} (h : ".." ∉ segments s) : escapesRoot s = false :=
  eq_false_of_ne_true fun he => h (List.mem_of_head? (escapesRoot_iff.mp he))

/-- Two dots have an extension, for what that is worth. -/
theorem hasExtension_of_up {s : String} {front : List String} (h : segments s = front ++ [".."]) :
    hasExtension s = true := by
  rw [hasExtension,extension,baseName_of_segments h]
  decide

theorem not_mem_index : '/' ∉ "index".toList := by decide

theorem hasExtension_index (s : String) : hasExtension (s ++ "/" ++ "index") = false := by
  rw [hasExtension,extension,baseName_of_segments (segments_slash s "index")]
  decide

/-- What is put behind a name: a dot and more, without a slash, and neither a backslash in it nor a blank
at its end. -/
structure IsExtension (t : String) : Prop where
  dot : t.toList.head? = some '.'
  long : 2 ≤ t.toList.length
  single : '/' ∉ t.toList
  posix : '\\' ∉ t.toList
  tight : Text.IsTight t

instance (t : String) : Decidable (IsExtension t) :=
  decidable_of_iff _ ⟨fun ⟨hd,hl,hs,hp,ht⟩ => ⟨hd,hl,hs,hp,ht⟩,fun h =>
    (⟨h.dot,h.long,h.single,h.posix,h.tight⟩ : _ ∧ _ ∧ _ ∧ _ ∧ _)⟩

theorem isExtension_guessed : ∀ t ∈ FileIndex.guessedExtensions, IsExtension t := by decide +kernel

/-- An extension makes a step of whatever it is put behind. -/
theorem isStep_append {s t : String} (hs : '/' ∉ s.toList) (ht : IsExtension t) :
    IsStep (s ++ t) := by
  have hl : ∀ u : String, u.toList.length < 2 → s ++ t ≠ u := by
    rintro u hu rfl
    have hlong := ht.long
    rw [String.toList_append,List.length_append] at hu
    omega
  refine ⟨hl _ (by decide),hl _ (by decide),?_⟩
  rw [String.toList_append,List.mem_append,not_or]
  exact ⟨hs,ht.single⟩

/-- With an extension behind it, a name is no step up, unless it was empty and the extension is two
dots. -/
theorem IsExtension.append_ne_up {s t : String} (h : IsExtension t) (hs : s ≠ "" ∨ t ≠ "..") :
    s ++ t ≠ ".." := by
  intro he
  have hempty : s = "" := by
    have hl := congrArg String.toList he
    have hup : "..".toList = ['.','.'] := by decide +kernel
    have hlong := h.long
    rw [String.toList_append,hup] at hl
    have hn := congrArg List.length hl
    rw [List.length_append,List.length_cons,List.length_singleton] at hn
    exact String.toList_eq_nil_iff.mp (List.length_eq_zero_iff.mp (by omega))
  rw [hempty,String.empty_append] at he
  exact hs.elim (fun hn => hn hempty) fun hn => hn he

/-- A relative path of steps without blanks around it. -/
structure IsPlain (s : String) : Prop where
  trimmed : Text.trim s = s
  posix : '\\' ∉ s.toList
  relative : isRooted s = false
  isStep : ∀ x ∈ segments s, IsStep x

theorem isPlain_normalize {s : String} (ht : Text.trim (normalize s) = normalize s)
    (hr : isRooted (normalize s) = false) (hn : normalize s ≠ "") : IsPlain (normalize s) where
  trimmed := ht
  posix := backslash_not_mem_normalize s
  relative := hr
  isStep _ hx := isStep_of_mem_normalize hr hn hx

namespace IsPlain
variable {s t : String} (h : IsPlain s)
include h

theorem ne_empty : s ≠ "" := by
  rintro rfl
  exact (h.isStep "" (by decide)).1 rfl

theorem normalize_eq (hu : ".." ∉ segments s) : normalize s = s :=
  normalize_of_names h.trimmed h.posix h.relative fun x hx => ⟨h.isStep x hx,fun he => hu (he ▸ hx)⟩

theorem isInside (hu : ".." ∉ segments s) : isInside s = true := by
  simp [Path.isInside,h.ne_empty,h.relative,escapesRoot_of_not_mem hu]

/-- A name below a plain path. -/
theorem child {name : String} (ht : Text.trim name = name) (hp : '\\' ∉ name.toList)
    (hs : IsStep name) : IsPlain (s ++ "/" ++ name) where
  trimmed := by
    obtain ⟨front,c,hl,hc⟩ := (Text.isTight_of_trim ht hs.1).exists_append
    rw [String.append_assoc]
    refine Text.trimWhere_append h.trimmed h.ne_empty ⟨'/' :: front,c,?_,hc⟩
    rw [String.toList_append,hl]
    rfl
  posix := by
    simp only [String.toList_append,List.mem_append,not_or]
    exact ⟨⟨h.posix,by decide⟩,hp⟩
  relative := by
    rw [String.append_assoc,Location.isRooted_append h.ne_empty]
    exact h.relative
  isStep := by
    intro x hx
    rw [segments_slash,segments_of_not_mem hs.2.2] at hx
    rcases List.mem_append.mp hx with hx | hx
    · exact h.isStep x hx
    · rw [List.mem_singleton.mp hx]
      exact hs

theorem index : IsPlain (s ++ "/" ++ "index") :=
  h.child (by decide +kernel) (by decide) ⟨by decide,by decide,by decide⟩

/-- What is put behind a plain path. -/
theorem append (ht : IsExtension t) :
    IsPlain (s ++ t) ∧ hasExtension (s ++ t) = true ∧
      (hasExtension s = false → ".." ∉ segments (s ++ t) → ".." ∉ segments s) := by
  obtain ⟨front,last,hs,hc⟩ := segments_append s ht.single
  have hlast : IsStep last := h.isStep last (by simp [hs])
  refine ⟨⟨?_,?_,?_,?_⟩,hasExtension_append hc hlast.1 (List.mem_of_head? ht.dot),?_⟩
  · exact Text.trimWhere_append h.trimmed h.ne_empty ht.tight.exists_append
  · rw [String.toList_append,List.mem_append,not_or]
    exact ⟨h.posix,ht.posix⟩
  · rw [Location.isRooted_append h.ne_empty]
    exact h.relative
  · intro x hx
    rw [hc] at hx
    rcases List.mem_append.mp hx with hx | hx
    · exact h.isStep x (by rw [hs]; exact List.mem_append_left _ hx)
    · rw [List.mem_singleton.mp hx]
      exact isStep_append hlast.2.2 ht
  · intro hn hu hm
    rw [hs] at hm
    rw [hc] at hu
    rcases List.mem_append.mp hm with hm | hm
    · exact hu (List.mem_append_left _ hm)
    · obtain rfl := List.mem_singleton.mp hm
      rw [hasExtension_of_up hs] at hn
      cases hn

end IsPlain
end Path

namespace Location
open ImportResolution.Path (IsStep steps)

theorem parts_ofRelative {root c : String} (h : ∀ s ∈ steps c, IsStep s) :
    parts (ofRelative root c) = parts root ++ (steps c).map stepPart :=
  parts_foldl_join h root

/-- The path of a place below the root is made of the steps to it, none of them up. -/
theorem steps_of_within? {root c path : String} (hc : ∀ s ∈ steps c, IsStep s)
    (h : within? root (ofRelative root c) = some path) :
    path = Path.ofSegments (steps c) ∧ ".." ∉ steps c ∧ steps c ≠ [] := by
  unfold within? at h
  split at h
  · cases h
  · next rest hrest =>
    have hk := Text.isPrefixOf?_eq_some_iff.mp hrest
    rw [parts_ofRelative hc] at hk
    obtain rfl := List.append_cancel_left hk
    have hhere : ((steps c).map stepPart).filter (· ≠ Part.here) = (steps c).map stepPart := by
      rw [List.filter_eq_self]
      intro p hp
      obtain ⟨s,-,rfl⟩ := List.mem_map.mp hp
      unfold stepPart
      split <;> simp
    simp only [hhere] at h
    split at h
    · cases h
    · next hn =>
      simp only [not_or,Bool.not_eq_true,List.isEmpty_eq_false_iff,Bool.not_eq_false',
        List.all_eq_true,List.mem_map,ne_eq,List.map_eq_nil_iff] at hn
      obtain ⟨hne,hnames⟩ := hn
      have hup : ".." ∉ steps c := by
        intro hm
        have := hnames _ ⟨"..",hm,rfl⟩
        simp [stepPart,Part.name?] at this
      refine ⟨?_,hup,hne⟩
      have hsame : (steps c).map stepPart = (steps c).map Part.name :=
        List.map_congr_left fun s hs => if_neg fun he : s = ".." => hup (he ▸ hs)
      rw [← Option.some.inj h,hsame,List.filterMap_map]
      exact congrArg _ List.filterMap_some

/-- Steps that never go up lead to a place below the root. -/
theorem within?_ofRelative {c : String} (hc : ∀ s ∈ steps c, IsStep s ∧ s ≠ "..")
    (hn : steps c ≠ []) (root : String) :
    within? root (ofRelative root c) = some (Path.ofSegments (steps c)) := by
  have hparts : (steps c).map stepPart = (steps c).map Part.name :=
    List.map_congr_left fun s hs => if_neg (hc s hs).2
  have hp : (parts root).isPrefixOf? (parts (ofRelative root c)) = some ((steps c).map Part.name) :=
    Text.isPrefixOf?_eq_some_iff.mpr
      (by rw [parts_ofRelative fun s hs => (hc s hs).1,hparts])
  have hnames : ((steps c).map Part.name).filterMap Part.name? = steps c := by
    rw [List.filterMap_map]
    exact List.filterMap_some
  have hhere : ((steps c).map Part.name).filter (· ≠ Part.here) = (steps c).map Part.name := by
    rw [List.filter_eq_self]
    simp
  unfold within?
  simp only [hp,hhere,hnames]
  rw [if_neg (by simp [hn,Part.name?])]

/-- A path below the root is the path of its place. -/
theorem ofRelative_of_within? {root c path : String} (hc : ∀ s ∈ steps c, IsStep s)
    (h : within? root (ofRelative root c) = some path) :
    ofRelative root path = ofRelative root c ∧ path ≠ "" := by
  obtain ⟨rfl,-,hne⟩ := steps_of_within? hc h
  have hs : Path.segments (Path.ofSegments (steps c)) = steps c :=
    Path.segments_ofSegments (fun s hs => (hc s hs).2.2) hne
  have hk : steps (Path.ofSegments (steps c)) = steps c := by
    rw [Path.steps_of_isStep (by rw [hs]; exact hc),hs]
  refine ⟨congrArg (List.foldl join root) hk,?_⟩
  intro he
  have hv : steps "" = [] := by decide
  rw [he,hv] at hk
  exact hne hk.symm

end Location

-- No text is computed from here on, and no unifier should try to.
attribute [local irreducible] String.toList

namespace Probe
open ImportResolution.Path (IsStep steps)

/-- A search finds a path below the root that its index has or that is a file. -/
theorem mem_of_search {site : ProbeSite} {cs : List String} {s : ProbeState} {path : String}
    (h : (search site cs s).1 = some path) : ∃ c ∈ cs,
      Location.within? site.root (Location.ofRelative site.root c) = some path ∧
        (indexAnswer site path = some .present ∨
          site.view.isFile (Location.ofRelative site.root c) = true) := by
  induction cs generalizing s with
  | nil => cases h
  | cons c rest ih =>
    have hrest : ∀ {t}, (search site rest t).1 = some path → ∃ d ∈ c :: rest,
        Location.within? site.root (Location.ofRelative site.root d) = some path ∧
          (indexAnswer site path = some .present ∨
            site.view.isFile (Location.ofRelative site.root d) = true) := fun ht =>
      (ih ht).imp fun _ hx => ⟨.tail c hx.1,hx.2⟩
    simp only [search] at h
    split at h
    · cases h
    · split at h
      · exact hrest h
      · next rel hw =>
        split at h
        · next hp =>
          obtain rfl := Option.some.inj h
          exact ⟨c,.head _,hw,.inl hp⟩
        · exact hrest h
        · revert h
          generalize (if (indexAnswer site rel).isSome then _ else _ : ProbeState) = t
          unfold look
          intro h
          cases hpaid : t.purse.takeProbe with
          | mk paid left =>
            rw [hpaid] at h
            cases paid with
            | false => cases h
            | true =>
              cases hf : site.view.isFile (Location.ofRelative site.root c) with
              | false =>
                rw [hf] at h
                exact hrest h
              | true =>
                rw [hf] at h
                obtain rfl := Option.some.inj h
                exact ⟨c,.head _,hw,.inr hf⟩

/-- Bases are normal forms. -/
theorem exists_normalize_of_mem_bases {spec base : String} {importer : Importer} {purse : Purse}
    (h : base ∈ (bases spec importer purse).1) : ∃ s, base = Path.normalize s := by
  unfold bases at h
  split at h
  · cases h
  · split at h
    · next rooted _ =>
      unfold rootedBases at h
      simp only at h
      split at h
      · cases h
      · split at h
        · rcases List.mem_cons.mp (List.mem_eraseDups.mp h) with rfl | h
          · exact Location.exists_normalize_eq_join _ _
          · exact ⟨rooted,List.mem_singleton.mp h⟩
        · exact ⟨rooted,List.mem_singleton.mp h⟩
    · split at h
      · rw [List.mem_singleton.mp h]
        exact Location.exists_normalize_eq_join _ _
      · cases h

theorem mem_candidates {bases : List String} {c : String} :
    c ∈ candidates bases ↔ ∃ base ∈ bases, base ≠ "" ∧ c ∈ spellings base := by
  simp [candidates,and_assoc]

/-- A spelling is the base, or an extension behind it or behind an index below it. -/
theorem cases_of_mem_spellings {base c : String} (h : c ∈ spellings base) :
    c = base ∧ Path.hasExtension base = true ∨ Path.hasExtension base = false ∧ c ∈ FileIndex.spellings base ∧
      ∃ t ∈ FileIndex.guessedExtensions, c = base ++ t ∨ c = base ++ "/" ++ "index" ++ t := by
  unfold spellings at h
  split at h
  · next hx => exact .inl ⟨List.mem_singleton.mp h,hx⟩
  · next hn =>
    refine .inr ⟨by simpa using hn,List.mem_cons_of_mem _ h,?_⟩
    rcases List.mem_append.mp h with h | h
    · obtain ⟨t,ht,rfl⟩ := List.mem_map.mp h
      exact ⟨t,ht,.inl rfl⟩
    · obtain ⟨t,ht,rfl⟩ := List.mem_map.mp h
      have hi : base ++ "/index" = base ++ "/" ++ "index" := by
        rw [String.append_assoc]
        rfl
      exact ⟨t,ht,.inr (by rw [hi])⟩

/-- The steps of a candidate. -/
theorem isStep_of_mem_spellings {s c x : String} (h : c ∈ spellings (Path.normalize s))
    (hx : x ∈ steps c) : IsStep x := by
  obtain ⟨hx,hne⟩ := List.mem_filter.mp hx
  have hne : x ≠ "" := by simpa using hne
  have hbase : x ∈ Path.segments (Path.normalize s) → IsStep x := fun hm =>
    Path.isStep_of_mem_segments_normalize hm hne
  rcases cases_of_mem_spellings h with ⟨rfl,-⟩ | ⟨-,-,t,ht,rfl | rfl⟩
  · exact hbase hx
  · have ht := Path.isExtension_guessed t ht
    obtain ⟨front,last,hs,hc⟩ := Path.segments_append (Path.normalize s) ht.single
    rw [hc] at hx
    rcases List.mem_append.mp hx with hx | hx
    · exact hbase (by rw [hs]; exact List.mem_append_left _ hx)
    · rw [List.mem_singleton.mp hx]
      have hlast : last ∈ Path.segments (Path.normalize s) := by simp [hs]
      exact Path.isStep_append (Path.not_mem_of_mem_segments hlast) ht
  · rw [String.append_assoc,Path.segments_slash] at hx
    rcases List.mem_append.mp hx with hx | hx
    · exact hbase hx
    · have hi : IsStep ("index" ++ t) :=
        Path.isStep_append Path.not_mem_index (Path.isExtension_guessed t ht)
      rw [Path.segments_of_not_mem hi.2.2,List.mem_singleton] at hx
      rw [hx]
      exact hi

/-- The spellings of a plain path are plain and have an extension, their own or one that is guessed. -/
theorem isPlain_of_mem_spellings {base c : String} (hb : Path.IsPlain base) (h : c ∈ spellings base) :
    Path.IsPlain c ∧ Path.hasExtension c = true ∧ (c = base ∨
      Path.hasExtension base = false ∧ c ∈ FileIndex.spellings base ∧
        (".." ∉ Path.segments c → ".." ∉ Path.segments base)) := by
  rcases cases_of_mem_spellings h with ⟨rfl,hx⟩ | ⟨hn,hc,t,ht,rfl | rfl⟩
  · exact ⟨hb,hx,.inl rfl⟩
  · obtain ⟨hp,hx,hu⟩ := hb.append (Path.isExtension_guessed t ht)
    exact ⟨hp,hx,.inr ⟨hn,hc,hu hn⟩⟩
  · obtain ⟨hp,hx,hu⟩ := hb.index.append (Path.isExtension_guessed t ht)
    refine ⟨hp,hx,.inr ⟨hn,hc,fun hs hm => ?_⟩⟩
    apply hu (Path.hasExtension_index base) hs
    rw [Path.segments_slash]
    exact List.mem_append_left _ hm

end Probe

/-- Where the index has no candidate for a plain path without a capital sigma, it has none for a
spelling of the path. -/
theorem FileIndex.candidate?_of_mem_spellings {i : FileIndex} {base c : String}
    (hb : Path.IsPlain base) (hsigma : 'Σ' ∉ base.toList) (hc : c ∈ Probe.spellings base)
    (hu : ".." ∉ Path.segments c) (h : i.candidate? base = none) : i.candidate? c = none := by
  obtain ⟨hp,hx,rfl | ⟨hn,hs,hup⟩⟩ := Probe.isPlain_of_mem_spellings hb hc
  · exact h
  · have hc : i.candidate? c = i.spelled? c := by
      simp [candidate?,hp.normalize_eq hu,hp.isInside hu,hx]
    have hbase : i.candidate? base =
        if !i.trie.hasPathStart base then none else (spellings base).findSome? i.spelled? := by
      simp [candidate?,hb.normalize_eq (hup hu),hb.isInside (hup hu),hn]
    rw [hc,Option.eq_none_iff_forall_ne_some]
    intro p hspelled
    have ht := hasPathStart_of_spelled? (fun x hx => (hb.isStep x hx).1)
      (.inr (Text.endsInSigma_of_not_mem hsigma)) hs hspelled
    rw [hbase,ht] at h
    have hnone := List.findSome?_eq_none_iff.mp h c hs
    simp [hspelled] at hnone

/-- The search for a specifier keeps to the place that the index was asked for, and the index knows
all its spellings there. For a page, a rooted specifier may lead to two places. -/
structure Relative.IsPlain (spec : String) (importer : Importer) : Prop where
  trimmed : Text.trim (base spec importer) = base spec importer
  relative : Path.isRooted (base spec importer) = false
  sigma : 'Σ' ∉ (base spec importer).toList
  single : importer.has .html = false ∨ Text.afterHead? "/" spec = none

instance (spec : String) (importer : Importer) : Decidable (Relative.IsPlain spec importer) :=
  decidable_of_iff _ ⟨fun ⟨ht,hr,hs,hh⟩ => ⟨ht,hr,hs,hh⟩,fun h =>
    (⟨h.trimmed,h.relative,h.sigma,h.single⟩ : _ ∧ _ ∧ _ ∧ _)⟩

theorem Relative.IsPlain.eq_of_mem_bases {spec : String} {importer : Importer}
    (h : IsPlain spec importer) {purse : Purse} {b : String}
    (hb : b ∈ (Probe.bases spec importer purse).1) : b = base spec importer := by
  unfold Probe.bases at hb
  unfold base
  split at hb
  · cases hb
  · cases hr : Text.afterHead? "/" spec with
    | some rooted =>
      have hhtml := h.single.resolve_right (by simp [hr])
      simp only [hr,Probe.rootedBases,hhtml,Bool.false_eq_true,if_false] at hb
      split at hb
      · cases hb
      · exact List.mem_singleton.mp hb
    | none =>
      simp only [hr] at hb
      split at hb
      · exact List.mem_singleton.mp hb
      · cases hb

/-- The index has been asked in vain for every place that a search for the specifier starts from, once
the base is not in the index, and knows all the spellings there. -/
def Relative.IsCovered (i : FileIndex) (spec : String) (importer : Importer) : Prop :=
  ∀ purse, ∀ b ∈ (Probe.bases spec importer purse).1,
    Text.trim b = b ∧ Path.isRooted b = false ∧ 'Σ' ∉ b.toList ∧
      (b = base spec importer ∨ i.candidate? b = none)

theorem Relative.IsPlain.isCovered {spec : String} {importer : Importer} (h : IsPlain spec importer)
    (i : FileIndex) : IsCovered i spec importer := by
  intro purse b hb
  obtain rfl := h.eq_of_mem_bases hb
  exact ⟨h.trimmed,h.relative,h.sigma,.inl rfl⟩

namespace Run
open ImportResolution.Path (IsStep steps)

/-- What the index has is on the disk. -/
def Rules.HasTrueIndex (r : Rules) : Prop :=
  ∀ path, Probe.indexAnswer r.site path = some .present →
    r.site.view.isFile (Location.ofRelative r.site.root path) = true

section Found
variable {r : Rules} {q : Query} {path : String} (h : probed? r q = some path)
include h

/-- What a search finds has the place of a candidate, and is there. -/
theorem exists_of_probed? (hr : r.HasTrueIndex) :
    ∃ base, base ≠ "" ∧ base ∈ (Probe.bases q.spec q.importer (Purse.of r.policy)).1 ∧
      ∃ c ∈ Probe.spellings base, (∀ s ∈ steps c, IsStep s) ∧
        Location.within? r.site.root (Location.ofRelative r.site.root c) = some path ∧
        r.site.view.isFile (Location.ofRelative r.site.root path) = true := by
  obtain ⟨c,hc,hw,hf⟩ := Probe.mem_of_search h
  obtain ⟨base,hb,hne,hc⟩ := Probe.mem_candidates.mp hc
  obtain ⟨s,rfl⟩ := Probe.exists_normalize_of_mem_bases hb
  have hs : ∀ x ∈ steps c, IsStep x := fun x hx => Probe.isStep_of_mem_spellings hc hx
  refine ⟨_,hne,hb,c,hc,hs,hw,?_⟩
  rcases hf with hf | hf
  · exact hr path hf
  · rwa [(Location.ofRelative_of_within? hs hw).1]

/-- A file that is found, and that the index has by no spelling, is still found when it is asked for
by its path. -/
theorem isStillValid_of_probed? (hr : r.HasTrueIndex) (hp : Path.normalize path = path)
    (hi : r.files.candidate? path = none) :
    Probe.isStillValid r.site r.files (some path) = true := by
  obtain ⟨-,-,-,c,-,hs,hw,hf⟩ := exists_of_probed? h hr
  obtain ⟨hplace,hne⟩ := Location.ofRelative_of_within? hs hw
  have hfilter : ((some path).map Path.normalize).filter (· ≠ "") = some path := by
    simp [hp,hne]
  have he : Probe.ephemeralPlace? r.site r.files (some path) =
      some (Location.ofRelative r.site.root path) := by
    rw [Probe.ephemeralPlace?,hfilter]
    simp [hplace,hw,hi]
  rw [Probe.isStillValid,he]
  exact hf

/-- What a search finds where the index was asked in vain is in truth outside the index. -/
theorem outside_of_isCovered (hq : Relative.IsCovered r.files q.spec q.importer)
    (hl : located? r q = none) (hr : r.HasTrueIndex) :
    Path.normalize path = path ∧ Path.hasExtension path = true ∧
      r.files.candidate? path = none := by
  obtain ⟨base,hne,hb,c,hc,hs,hw,-⟩ := exists_of_probed? h hr
  obtain ⟨ht,hrel,hsigma,hasked⟩ := hq _ _ hb
  have hplain : Path.IsPlain base := by
    obtain ⟨s,rfl⟩ := Probe.exists_normalize_of_mem_bases hb
    exact Path.isPlain_normalize ht hrel hne
  obtain ⟨hcplain,hx,-⟩ := Probe.isPlain_of_mem_spellings hplain hc
  obtain ⟨hpath,hup,-⟩ := Location.steps_of_within? hs hw
  rw [Path.steps_of_isStep hcplain.isStep] at hpath hup
  rw [Path.ofSegments_segments] at hpath
  subst hpath
  have hnone : r.files.candidate? base = none := by
    rcases hasked with rfl | hasked
    · unfold located? at hl
      exact (Option.or_eq_none_iff.mp (Option.or_eq_none_iff.mp hl).1).2
    · exact hasked
  exact ⟨hcplain.normalize_eq hup,hx,
    FileIndex.candidate?_of_mem_spellings hplain hsigma hc hup hnone⟩

/-- What a plain search finds is in truth outside the index. -/
theorem outside_of_isPlain (hq : Relative.IsPlain q.spec q.importer)
    (hl : located? r q = none) (hr : r.HasTrueIndex) :
    Path.normalize path = path ∧ r.files.candidate? path = none :=
  have ho := outside_of_isCovered h (hq.isCovered r.files) hl hr
  ⟨ho.1,ho.2.2⟩

end Found
end Run
end ImportResolution
