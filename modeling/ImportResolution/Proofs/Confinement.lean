import ImportResolution.Proofs.Budgets

/-! Places that are asked on the disk. A search, and the check of what one found before, ask below the
root alone. A package manifest is asked for there too, unless nothing but blanks stands before a step
up out of the root: the check of the directory sees the blanks, and the path of the manifest has lost
them. -/
namespace ImportResolution

namespace Text

theorem dropWhile_append_of_not {p : Char → Bool} {s t : String}
    (h : ∀ c ∈ t.toList.head?, p c = false) :
    dropWhile p (s ++ t) = dropWhile p s ++ t := by
  apply String.toList_inj.mp
  simp only [dropWhile,String.toList_ofList,String.toList_append,List.dropWhile_append]
  split
  · next he => rw [List.isEmpty_iff.mp he,dropWhile_eq_self_iff_head?.mpr h,List.nil_append]
  · rfl

/-- Only the front is trimmed where the end is no blank. -/
theorem trimWhere_eq_dropWhile {p : Char → Bool} {s t : String}
    (ht : ∃ front c, t.toList = front ++ [c] ∧ p c = false)
    (h : ∀ c ∈ t.toList.head?, p c = false) : trimWhere p (s ++ t) = dropWhile p (s ++ t) := by
  obtain ⟨front,c,ht',hc⟩ := ht
  have hd := congrArg String.toList (dropWhile_append_of_not (s := s) h)
  rw [dropWhile,String.toList_ofList] at hd
  rw [trimWhere,trimChars,dropWhile,trimEndChars_eq_self_iff.mpr]
  rw [hd,String.toList_append,ht',← List.append_assoc,List.getLast?_concat]
  rintro x ⟨⟩
  exact hc

end Text

namespace Path

/-- What is dropped from the front of a path is dropped from its first segment. -/
theorem segments_dropWhile {p : Char → Bool} (hp : p '/' = false) {s first : String}
    {rest : List String} (h : segments s = first :: rest) :
    segments (Text.dropWhile p s) = Text.dropWhile p first :: rest := by
  have hs := ofSegments_segments s
  rw [h] at hs
  have hf : '/' ∉ (Text.dropWhile p first).toList := by
    rw [Text.dropWhile,String.toList_ofList]
    have hm : '/' ∉ first.toList := not_mem_of_mem_segments (s := s) (by rw [h]; exact .head _)
    exact fun hd => hm ((List.dropWhile_suffix p).subset hd)
  have hr : ∀ x ∈ Text.dropWhile p first :: rest, '/' ∉ x.toList := by
    intro x hx
    rcases List.mem_cons.mp hx with rfl | hx
    · exact hf
    · exact not_mem_of_mem_segments (s := s) (by rw [h]; exact .tail _ hx)
  suffices he : Text.dropWhile p s = ofSegments (Text.dropWhile p first :: rest) by
    rw [he,segments_ofSegments hr (by simp)]
  rw [← hs]
  cases rest with
  | nil => simp [ofSegments]
  | cons t r =>
    rw [ofSegments_cons_cons,ofSegments_cons_cons,String.append_assoc,
      Text.dropWhile_append_of_not (by simpa using hp),String.append_assoc]

/-- Names behind a first segment stay, and nothing but that segment leads up. -/
theorem walk_cons_names {names : List String} (h : ∀ x ∈ names, IsStep x ∧ x ≠ "..") (rooted : Bool)
    (first : String) : (names ≠ [] → walk rooted (first :: names) ≠ []) ∧
      (".." ∈ walk rooted (first :: names) ↔ first = ".." ∧ rooted = false) := by
  have hw : walk rooted (first :: names) = (walkStep rooted [] first).reverse ++ names := by
    rw [walk,List.foldl_cons,foldl_walkStep_names h,List.reverse_append,List.reverse_reverse]
  have hu : ".." ∉ names := fun hm => (h _ hm).2 rfl
  rw [hw,List.mem_append,List.mem_reverse]
  refine ⟨fun hn => by simp [hn],?_⟩
  unfold walkStep
  split
  · next hv =>
    have hf : first ≠ ".." := by
      rintro rfl
      revert hv
      decide
    simp [hu,hf]
  · split
    · next hf => cases rooted <;> simp [hu,hf]
    · next hf => simp [hu,hf,Ne.symm hf]

end Path

namespace Location
open ImportResolution.Path (IsStep steps)

/-- A place strictly below a root, with names alone on the way. -/
def LiesBelow (root place : String) : Prop :=
  ∃ names : List String, names ≠ [] ∧ parts place = parts root ++ names.map Part.name

theorem liesBelow_ofRelative {root c : String} (hc : ∀ s ∈ steps c, IsStep s) :
    LiesBelow root (ofRelative root c) ↔ steps c ≠ [] ∧ ".." ∉ steps c := by
  unfold LiesBelow
  rw [parts_ofRelative hc]
  constructor
  · rintro ⟨names,hn,he⟩
    have he := List.append_cancel_left he
    refine ⟨fun h0 => hn (by simpa [h0] using he.symm),fun hm => ?_⟩
    have hup : Part.up ∈ names.map Part.name := he ▸ List.mem_map_of_mem (f := stepPart) hm
    simp at hup
  · rintro ⟨hn,hu⟩
    refine ⟨steps c,hn,congrArg _ (List.map_congr_left fun s hs => ?_)⟩
    exact if_neg fun he : s = ".." => hu (he ▸ hs)

theorem liesBelow_of_within? {root c path : String} (hc : ∀ s ∈ steps c, IsStep s)
    (h : within? root (ofRelative root c) = some path) : LiesBelow root (ofRelative root c) := by
  obtain ⟨-,hu,hn⟩ := steps_of_within? hc h
  exact (liesBelow_ofRelative hc).mpr ⟨hn,hu⟩

end Location

namespace PackageEntry
open ImportResolution.Path (IsStep steps)

/-- The path of a manifest before it is walked: that of its directory without the blanks before it, and
the name of the manifest. -/
theorem segments_manifest {dir first : String} {rest : List String}
    (hb : '\\' ∉ dir.toList) (h : Path.segments dir = first :: rest) :
    let place := Path.toPosix (Text.trim (dir ++ "/" ++ Manifest.packageName))
    Path.segments place = Text.dropWhile Text.isBlank first :: (rest ++ [Manifest.packageName]) := by
  have hslash : Text.isBlank '/' = false := by decide
  have hname : (("/" ++ Manifest.packageName : String)).toList = "/package.jso".toList ++ ['n'] := by
    decide
  have hhead : ∀ c ∈ (("/" ++ Manifest.packageName : String)).toList.head?, Text.isBlank c = false := by
    have hfirst : (("/" ++ Manifest.packageName : String)).toList.head? = some '/' := by decide
    rw [hfirst]
    rintro c ⟨⟩
    exact hslash
  have htrim : Text.trim (dir ++ "/" ++ Manifest.packageName) =
      Text.dropWhile Text.isBlank (dir ++ "/" ++ Manifest.packageName) := by
    rw [String.append_assoc]
    exact Text.trimWhere_eq_dropWhile ⟨_,'n',hname,by decide⟩ hhead
  have hposix : '\\' ∉ (Text.dropWhile Text.isBlank (dir ++ "/" ++ Manifest.packageName)).toList := by
    rw [Text.dropWhile,String.toList_ofList]
    intro hm
    have hm := (List.dropWhile_suffix _).subset hm
    rw [String.append_assoc,String.toList_append,hname,List.mem_append] at hm
    rcases hm with hm | hm
    · exact hb hm
    · revert hm
      decide
  have hs : Path.segments (dir ++ "/" ++ Manifest.packageName) =
      first :: (rest ++ [Manifest.packageName]) := by
    have hp : Path.segments Manifest.packageName = [Manifest.packageName] := by decide
    rw [Path.segments_slash,h,hp,List.cons_append]
  rw [htrim,Path.toPosix_eq_self hposix]
  exact Path.segments_dropWhile hslash hs

/-- An admitted directory is the root or lies in the repository. -/
theorem isInside_of_isAdmitted {dir : String} (h : isAdmitted dir = true) (hn : dir ≠ "") :
    Path.isInside dir = true := by
  simp only [isAdmitted,Bool.and_eq_true,Bool.not_eq_true'] at h
  simp only [Path.isInside,Bool.and_eq_true,Bool.not_eq_true',bne_iff_ne]
  refine ⟨⟨hn,h.1⟩,eq_false_of_ne_true fun hx => ?_⟩
  have hup : Text.startsWith ".." dir = true := by
    rw [Path.escapesRoot,Bool.or_eq_true,beq_iff_eq,Text.startsWith_iff] at hx
    rcases hx with rfl | hx
    · decide
    · exact (Text.startsWith_iff _ _).mpr (.trans (by decide) hx)
  rw [h.2] at hup
  cases hup

/-- The steps to the manifest of an admitted directory lead up just where its first segment does once the
blanks before it are gone. -/
theorem steps_manifestOf {dir : String} (h : isAdmitted (Path.normalize dir) = true) :
    steps (manifestOf (Path.normalize dir)) ≠ [] ∧
      (".." ∈ steps (manifestOf (Path.normalize dir)) ↔
        Path.escapesRoot (Text.dropWhile Text.isBlank (Path.normalize dir)) = true) := by
  by_cases he : Path.normalize dir = ""
  · rw [he]
    decide
  · have hi := isInside_of_isAdmitted h he
    have hup := Path.up_not_mem_normalize hi
    simp only [Path.isInside,Bool.and_eq_true,Bool.not_eq_true'] at hi
    have hnames : ∀ x ∈ Path.segments (Path.normalize dir), IsStep x ∧ x ≠ ".." := fun x hx =>
      ⟨Path.isStep_of_mem_normalize hi.1.2 he hx,fun hd => hup (hd ▸ hx)⟩
    have hdot : Path.normalize dir ≠ "." := by
      intro hd
      rw [hd] at hnames
      exact (hnames "." (by decide)).1.2.1 rfl
    obtain ⟨first,rest,hs⟩ := List.exists_cons_of_ne_nil
      (Path.segments_ne_nil (Path.normalize dir))
    have hplace := segments_manifest (Path.backslash_not_mem_normalize dir) hs
    have hrest : ∀ x ∈ rest ++ [Manifest.packageName], IsStep x ∧ x ≠ ".." := by
      intro x hx
      rcases List.mem_append.mp hx with hx | hx
      · exact hnames x (by rw [hs]; exact .tail _ hx)
      · rw [List.mem_singleton.mp hx]
        exact ⟨⟨by decide,by decide,by decide⟩,by decide⟩
    rw [manifestOf,Path.join,if_neg (by simp [he,hdot]),steps,Path.filter_segments_normalize]
    generalize Path.toPosix (Text.trim (Path.normalize dir ++ "/" ++ Manifest.packageName)) = place
      at hplace ⊢
    simp only at hplace
    obtain ⟨hne,hwalk⟩ := Path.walk_cons_names hrest (Path.isRooted place)
      (Text.dropWhile Text.isBlank first)
    rw [hplace,hwalk,Path.escapesRoot_iff,Path.segments_dropWhile (by decide) hs,List.head?_cons,
      Option.some.injEq]
    refine ⟨hne (by simp),And.left,fun hf => ⟨hf,eq_false_of_ne_true fun hr => ?_⟩⟩
    have hh : (Path.segments place).head? = some "" := Path.head?_segments (by decide) hr
    rw [hplace,hf] at hh
    exact absurd (Option.some.inj hh) (by decide)

end PackageEntry

-- No text is computed from here on, and no unifier should try to.
attribute [local irreducible] String.toList

namespace Probe
open ImportResolution.Path (IsStep steps)

/-- Whatever a search looks at is where it looks for one of its candidates. -/
theorem Course.mem_checked {site : ProbeSite} {s : ProbeState} {taken rest : List String}
    {out : Option String × ProbeState} (h : Course site s taken rest out) {place : String}
    (hp : place ∈ out.2.checked) :
    place ∈ s.checked ∨ ∃ c ∈ taken, lookPlace? site c = some place := by
  have hx : ∀ {cs : List String} {t : ProbeState}, Examines site cs s t → place ∈ t.checked →
      place ∈ s.checked ∨ ∃ c ∈ cs, lookPlace? site c = some place := by
    intro cs t hx hp
    rw [hx.checked] at hp
    simpa [or_comm] using hp
  cases h with
  | found _ _ examines => exact hx examines hp
  | through _ examines => exact hx examines hp
  | noCandidate _ examines _ => exact hx examines hp
  | noLook _ examines _ _ _ _ checked =>
    refine (hx examines (checked ▸ hp)).imp id ?_
    rintro ⟨c,hc,hl⟩
    exact ⟨c,List.mem_append_left _ hc,hl⟩

theorem of_lookPlace? {site : ProbeSite} {c place : String} (h : lookPlace? site c = some place) :
    place = Location.ofRelative site.root c ∧
      ∃ rel, Location.within? site.root (Location.ofRelative site.root c) = some rel := by
  obtain ⟨rel,hw,hl⟩ := Option.bind_eq_some_iff.mp h
  refine ⟨?_,rel,hw⟩
  split at hl
  · cases hl
  · cases hl
  · exact (Option.some.inj hl).symm

section Find
variable {site : ProbeSite} {spec : String} {importer : Importer} {s : ProbeState}

theorem liesBelow_of_mem_checked {place : String}
    (h : place ∈ (find site spec importer s).2.checked) :
    place ∈ s.checked ∨ Location.LiesBelow site.root place := by
  unfold find at h
  obtain ⟨taken,rest,hcs,hcourse⟩ := search_course site
    (candidates (bases spec importer s.purse).1) { s with purse := (bases spec importer s.purse).2 }
  refine (hcourse.mem_checked h).imp id ?_
  rintro ⟨c,hc,hl⟩
  obtain ⟨rfl,rel,hw⟩ := of_lookPlace? hl
  have hm : c ∈ candidates (bases spec importer s.purse).1 := by
    rw [hcs]
    exact List.mem_append_left _ hc
  exact Location.liesBelow_of_within? (fun _ hs => isStep_of_mem_candidates hm hs) hw

theorem isStep_of_find {path : String} (h : (find site spec importer s).1 = some path) :
    path ≠ "" ∧ ∀ x ∈ Path.segments path, IsStep x ∧ x ≠ ".." := by
  obtain ⟨c,hc,hw,-⟩ := mem_of_search h
  have hs : ∀ x ∈ steps c, IsStep x := fun x hx => isStep_of_mem_candidates hc hx
  have hne := (Location.ofRelative_of_within? hs hw).2
  obtain ⟨hpath,hu,hn⟩ := Location.steps_of_within? hs hw
  refine ⟨hne,fun x hx => ?_⟩
  rw [hpath,Path.segments_ofSegments (fun y hy => (hs y hy).2.2) hn] at hx
  exact ⟨hs x hx,fun he => hu (he ▸ hx)⟩

theorem liesBelow_of_ephemeralPlace? {i : FileIndex} {cached : Option String} {place : String}
    (h : ephemeralPlace? site i cached = some place) : Location.LiesBelow site.root place := by
  unfold ephemeralPlace? at h
  split at h
  · cases h
  · next rel hrel =>
    obtain ⟨stored,rfl⟩ : ∃ stored, rel = Path.normalize stored := by
      obtain ⟨hm,-⟩ := Option.filter_eq_some_iff.mp hrel
      obtain ⟨stored,-,he⟩ := Option.map_eq_some_iff.mp hm
      exact ⟨stored,he.symm⟩
    simp only at h
    split at h
    · next hk =>
      rw [Bool.and_eq_true] at hk
      obtain ⟨path,hw⟩ := Option.isSome_iff_exists.mp hk.1
      rw [← Option.some.inj h]
      refine Location.liesBelow_of_within? (fun x hx => ?_) hw
      obtain ⟨hx,hne⟩ := List.mem_filter.mp hx
      exact Path.isStep_of_mem_segments_normalize hx (by simpa using hne)
    · cases h

end Find
end Probe

namespace PackageEntries
variable {p : PackageEntries} {i : FileIndex} {v w : DiskView} {root dir : String}

theorem of_mem_checked {place : String} (h : place ∈ (p.find i v root dir).2.checked) :
    place ∈ p.checked ∨ PackageEntry.isAdmitted (Path.normalize dir) = true ∧
      place = Location.ofRelative root (PackageEntry.manifestOf (Path.normalize dir)) := by
  simp only [find] at h
  cases ha : PackageEntry.isAdmitted (Path.normalize dir) with
  | false =>
    rw [ha] at h
    exact .inl h
  | true =>
    rw [ha] at h
    simp only [Bool.not_true,Bool.false_eq_true,if_false] at h
    split at h
    · exact .inl h
    · rcases List.mem_cons.mp h with rfl | h
      · exact .inr ⟨rfl,rfl⟩
      · exact .inl h

/-- A manifest that is said to be malformed was asked for. -/
theorem of_mem_malformed {manifest : String} (h : manifest ∈ (p.find i v root dir).2.malformed) :
    manifest ∈ p.malformed ∨ Location.ofRelative root manifest ∈ (p.find i v root dir).2.checked := by
  unfold find at h ⊢
  simp only at h ⊢
  split
  · next ha =>
    rw [if_pos ha] at h
    exact .inl h
  · next ha =>
    rw [if_neg ha] at h
    split
    · next hk =>
      rw [hk] at h
      exact .inl h
    · next hk =>
      rw [hk] at h
      simp only at h
      split at h
      · rcases List.mem_cons.mp h with rfl | h
        · exact .inr (.head _)
        · exact .inl h
      · exact .inl h

/-- Of the disk, an entry depends on the place of its manifest alone. -/
theorem find_congr (p : PackageEntries) (i : FileIndex) (root dir : String)
    (hf : v.isFile (Location.ofRelative root (PackageEntry.manifestOf (Path.normalize dir))) =
      w.isFile (Location.ofRelative root (PackageEntry.manifestOf (Path.normalize dir))))
    (hr : v.readText? (Location.ofRelative root (PackageEntry.manifestOf (Path.normalize dir))) =
      w.readText? (Location.ofRelative root (PackageEntry.manifestOf (Path.normalize dir)))) :
    p.find i v root dir = p.find i w root dir := by
  have he : PackageEntry.entry? i v root (Path.normalize dir) =
      PackageEntry.entry? i w root (Path.normalize dir) := by
    simp only [PackageEntry.entry?,PackageEntry.manifest?,hf,hr]
  have hm : PackageEntry.isMalformed i v root (Path.normalize dir) =
      PackageEntry.isMalformed i w root (Path.normalize dir) := by
    simp only [PackageEntry.isMalformed,hf,hr]
  simp only [find,he,hm]

/-- A manifest is asked for below the root, unless its directory is a step up behind blanks. -/
theorem liesBelow_of_mem_checked {place : String} (h : place ∈ (p.find i v root dir).2.checked) :
    place ∈ p.checked ∨ (Location.LiesBelow root place ↔
      Path.escapesRoot (Text.dropWhile Text.isBlank (Path.normalize dir)) = false) := by
  refine (of_mem_checked h).imp id ?_
  rintro ⟨ha,rfl⟩
  obtain ⟨hne,hup⟩ := PackageEntry.steps_manifestOf ha
  have hs : ∀ s ∈ Path.steps (PackageEntry.manifestOf (Path.normalize dir)), Path.IsStep s :=
    fun _ => Location.isStep_of_mem_join
  rw [Location.liesBelow_ofRelative hs,hup,Bool.not_eq_true]
  exact and_iff_right hne

end PackageEntries

/-- Nothing is asked of the disk outside the root, but for the manifest of a directory that is a step up
behind blanks; and what a search finds has a path of names. -/
theorem liesBelow_of_asked (site : ProbeSite) (spec : String) (importer : Importer) (s : ProbeState)
    (i : FileIndex) (cached : Option String) (p : PackageEntries) (dir : String) :
    (∀ place ∈ (Probe.find site spec importer s).2.checked,
      place ∈ s.checked ∨ Location.LiesBelow site.root place) ∧
    (∀ path, (Probe.find site spec importer s).1 = some path →
      path ≠ "" ∧ ∀ x ∈ Path.segments path, Path.IsStep x ∧ x ≠ "..") ∧
    (∀ place, Probe.ephemeralPlace? site i cached = some place →
      Location.LiesBelow site.root place) ∧
    ∀ place ∈ (p.find i site.view site.root dir).2.checked, place ∈ p.checked ∨
      (Location.LiesBelow site.root place ↔
        Path.escapesRoot (Text.dropWhile Text.isBlank (Path.normalize dir)) = false) :=
  ⟨fun _ => Probe.liesBelow_of_mem_checked,fun _ => Probe.isStep_of_find,
    fun _ => Probe.liesBelow_of_ephemeralPlace?,fun _ => PackageEntries.liesBelow_of_mem_checked⟩

/-- The base of a specifier with blanks before a step up is a directory whose manifest is asked for
outside the root. -/
theorem not_liesBelow_blankUp :
    (PackageEntries.find {} default ⟨{},{}⟩ "/r" (Relative.base "./ ./ ../x" (.of "main.ts"))).2.checked =
        ["/r/../x/package.json"] ∧
      ¬Location.LiesBelow "/r" "/r/../x/package.json" := by
  refine ⟨by decide +kernel,?_⟩
  rintro ⟨names,-,he⟩
  have hplace : Location.parts "/r/../x/package.json" =
      [.root,.name "r",.up,.name "x",.name "package.json"] := by decide +kernel
  have hroot : Location.parts "/r" = [.root,.name "r"] := by decide +kernel
  rw [hplace,hroot] at he
  cases names <;> simp at he

end ImportResolution
