import ImportResolution.Proofs.Existence
import ImportResolution.Proofs.Trees

/-! Searches with an existence index. As long as a search is not cut short it finds the first
candidate that is there; an index of the same disk changes nothing but for what it does not scan. -/
namespace ImportResolution

namespace Purse
variable {p q : Purse}

theorem isExhausted_exhaust (p : Purse) (kind : BudgetKind) :
    (p.exhaust kind).isExhausted = true := by
  cases kind <;> simp [exhaust,isExhausted,BudgetKind.all]

end Purse

-- No text is computed here, and no unifier should try to.
attribute [local irreducible] String.toList

namespace Probe
open ImportResolution.Path (IsStep steps)

/-- Whether a search takes a path for a file: by the word of the index, and else by a look. -/
def takes (site : ProbeSite) (rel place : String) : Bool :=
  match indexAnswer site rel with
  | some .present => true
  | some .absent => false
  | _ => site.view.isFile place

theorem takes_eq {site : ProbeSite} {i : Existence.Index} (h : site.index = some i)
    (rel place : String) : takes site rel place = match i.lookup rel with
      | .present => true
      | .absent => false
      | .unknown => site.view.isFile place := by
  rw [takes,indexAnswer,h,Option.map_some]
  cases i.lookup rel <;> rfl

/-- What a candidate comes to. -/
def hit? (site : ProbeSite) (c : String) : Option String :=
  (Location.within? site.root (Location.ofRelative site.root c)).filter fun rel =>
    takes site rel (Location.ofRelative site.root c)

/-- Where a candidate is looked for: inside the root, unless the index decides. -/
def lookPlace? (site : ProbeSite) (c : String) : Option String :=
  (Location.within? site.root (Location.ofRelative site.root c)).bind fun rel =>
    match indexAnswer site rel with
    | some .present | some .absent => none
    | _ => some (Location.ofRelative site.root c)

section Within
variable {site : ProbeSite} {c rel : String}
  (hw : Location.within? site.root (Location.ofRelative site.root c) = some rel)
include hw

theorem hit?_of_within? : hit? site c =
    if takes site rel (Location.ofRelative site.root c) = true then some rel else none := by
  simp only [hit?,hw,Option.filter_some]

theorem lookPlace?_of_within? : lookPlace? site c =
    match indexAnswer site rel with
    | some .present | some .absent => none
    | _ => some (Location.ofRelative site.root c) := by
  simp only [lookPlace?,hw,Option.bind_some]

end Within

/-- What it takes to examine candidates: each of them, and a look where one is needed. -/
structure Examines (site : ProbeSite) (cs : List String) (s t : ProbeState) : Prop where
  candidates : t.purse.candidates + cs.length = s.purse.candidates
  probes : t.purse.probes + (cs.filterMap (lookPlace? site)).length = s.purse.probes
  checked : t.checked = (cs.filterMap (lookPlace? site)).reverse ++ s.checked
  exhausted : t.purse.exhausted = s.purse.exhausted

/-- What becomes of a search at its next candidate: the candidate is refused, or the look at it is, or it
is examined, and the search goes on unless it is a hit. -/
inductive Turn (site : ProbeSite) (c : String) (rest : List String) (s : ProbeState)
    (out : Option String × ProbeState) : Prop
  | noCandidate (spent : s.purse.candidates = 0)
      (ends : out = (none,{ s with purse := s.purse.exhaust .fallbackCandidates }))
  | noLook (t : ProbeState) (asked : (lookPlace? site c).isSome = true) (spent : s.purse.probes = 0)
      (paid : t.purse.candidates + 1 = s.purse.candidates)
      (purse : t.purse = { s.purse with candidates := t.purse.candidates })
      (checked : t.checked = s.checked)
      (ends : out = (none,{ t with purse := t.purse.exhaust .filesystemProbe }))
  | examined (t : ProbeState) (examines : Examines site [c] s t)
      (goes : out = match hit? site c with
        | some path => (some path,t)
        | none => search site rest t)

/-- The turn of a candidate that is looked for, once it is paid. -/
theorem turn_of_look {site : ProbeSite} {c rel : String} {rest : List String} {s t : ProbeState}
    {out : Option String × ProbeState}
    (hl : lookPlace? site c = some (Location.ofRelative site.root c))
    (hh : hit? site c =
      if site.view.isFile (Location.ofRelative site.root c) = true then some rel else none)
    (hpaid : t.purse.candidates + 1 = s.purse.candidates)
    (hpurse : t.purse = { s.purse with candidates := t.purse.candidates })
    (hchecked : t.checked = s.checked)
    (ho : out = match look site (Location.ofRelative site.root c) t with
      | (some true,s) => (some rel,s)
      | (some false,s) => search site rest s
      | (none,s) => (none,s)) : Turn site c rest s out := by
  have hprobes : t.purse.probes = s.purse.probes := by rw [hpurse]
  unfold look Purse.takeProbe at ho
  cases hn : t.purse.probes with
  | zero =>
    rw [hn] at ho
    exact .noLook t (by rw [hl]; rfl) (hprobes ▸ hn) hpaid hpurse hchecked ho
  | succ n =>
    rw [hn] at ho
    refine .examined { t with
      purse := { t.purse with probes := n }
      checked := Location.ofRelative site.root c :: t.checked } ⟨hpaid,?_,?_,?_⟩ ?_
    · rw [List.filterMap_cons_some hl,← hprobes,hn]
      rfl
    · rw [List.filterMap_cons_some hl,hchecked]
      rfl
    · rw [hpurse]
    · rw [ho,hh]
      cases site.view.isFile (Location.ofRelative site.root c) <;> rfl

theorem search_cons (site : ProbeSite) (c : String) (rest : List String) (s : ProbeState) :
    Turn site c rest s (search site (c :: rest) s) := by
  obtain ⟨⟨probes,candidates,maxDepth,exhausted⟩,usage,checked⟩ := s
  cases candidates with
  | zero => exact .noCandidate rfl rfl
  | succ n =>
    have hfree : lookPlace? site c = none → ∀ usage', Examines site [c]
        ⟨⟨probes,n + 1,maxDepth,exhausted⟩,usage,checked⟩
        ⟨⟨probes,n,maxDepth,exhausted⟩,usage',checked⟩ := by
      intro hl usage'
      exact ⟨rfl,by rw [List.filterMap_cons_none hl]; rfl,by rw [List.filterMap_cons_none hl]; rfl,rfl⟩
    cases hw : Location.within? site.root (Location.ofRelative site.root c) with
    | none =>
      refine .examined _ (hfree (by simp [lookPlace?,hw]) usage) ?_
      simp [search,Purse.takeCandidate,hit?,hw]
    | some rel =>
      have hh := hit?_of_within? hw
      have hl := lookPlace?_of_within? hw
      rw [takes] at hh
      cases hi : indexAnswer site rel with
      | none =>
        rw [hi] at hh hl
        refine turn_of_look (t := ⟨⟨probes,n,maxDepth,exhausted⟩,usage,checked⟩) hl hh rfl rfl rfl ?_
        simp only [search,Purse.takeCandidate,hw,hi]
        rfl
      | some answer =>
        rw [hi] at hh hl
        cases answer with
        | present =>
          refine .examined _ (hfree hl { usage with exactHits := usage.exactHits + 1 }) ?_
          rw [hh]
          simp only [search,Purse.takeCandidate,hw,hi,if_true]
        | absent =>
          refine .examined _ (hfree hl { usage with negativeSkips := usage.negativeSkips + 1 }) ?_
          rw [hh]
          simp only [search,Purse.takeCandidate,hw,hi,Bool.false_eq_true,if_false]
        | unknown =>
          refine turn_of_look (t := ⟨⟨probes,n,maxDepth,exhausted⟩,
            { usage with unknownFallbacks := usage.unknownFallbacks + 1 },checked⟩)
            hl hh rfl rfl rfl ?_
          simp only [search,Purse.takeCandidate,hw,hi]
          rfl

/-- A search that its purse does not end finds the first hit. -/
theorem search_eq {site : ProbeSite} {cs : List String} {s : ProbeState}
    (h : (search site cs s).2.purse.isExhausted = false) :
    (search site cs s).1 = cs.findSome? (hit? site) := by
  induction cs generalizing s with
  | nil => rfl
  | cons c rest ih =>
    rw [List.findSome?_cons]
    cases search_cons site c rest s with
    | noCandidate _ he =>
      rw [he,Purse.isExhausted_exhaust] at h
      cases h
    | noLook t _ _ _ _ _ he =>
      rw [he,Purse.isExhausted_exhaust] at h
      cases h
    | examined t _ he =>
      rw [he] at h ⊢
      cases hh : hit? site c with
      | some path => rfl
      | none =>
        rw [hh] at h
        exact ih h

/-- The bases of a search that may climb as it likes. -/
def allBases (spec : String) (importer : Importer) : List String :=
  (bases spec importer ⟨0,0,climbs spec,[]⟩).1

/-- Bases are refused only for the climbs of a specifier that is not rooted. -/
theorem bases_cases (spec : String) (importer : Importer) (purse : Purse) :
    bases spec importer purse = (allBases spec importer,purse) ∨
      Text.afterHead? "/" spec = none ∧ purse.maxDepth < climbs spec ∧
        bases spec importer purse = ([],purse.exhaust .fallbackDepth) := by
  unfold allBases bases
  split
  · exact .inl rfl
  · cases hr : Text.afterHead? "/" spec with
    | some rooted => exact .inl rfl
    | none =>
      simp only [Purse.allowDepth,Nat.le_refl,if_true]
      by_cases hd : climbs spec ≤ purse.maxDepth
      · simp [hd]
      · simp [hd,Nat.lt_of_not_le hd]

/-- A search whose budgets last finds the first hit among all candidates. -/
theorem find_eq {site : ProbeSite} {spec : String} {importer : Importer} {s : ProbeState}
    (h : (find site spec importer s).2.purse.isExhausted = false) :
    (find site spec importer s).1 =
      (candidates (allBases spec importer)).findSome? (hit? site) := by
  simp only [find] at h ⊢
  rcases bases_cases spec importer s.purse with hb | ⟨-,-,hb⟩
  · rw [hb] at h ⊢
    exact search_eq h
  · rw [hb] at h
    exact absurd (Purse.isExhausted_exhaust _ _) (Bool.eq_false_iff.mp h)

theorem isStep_of_mem_candidates {spec c s : String} {importer : Importer} {purse : Purse}
    (hc : c ∈ candidates (bases spec importer purse).1) (hs : s ∈ steps c) : IsStep s := by
  obtain ⟨base,hb,-,hc⟩ := mem_candidates.mp hc
  obtain ⟨t,rfl⟩ := exists_normalize_of_mem_bases hb
  exact isStep_of_mem_spellings hc hs

/-- Two ways to hit come to one end where the first hit of each is a hit of the other. -/
theorem findSome?_agree {f g : String → Option String} {cs : List String}
    (hf : ∀ c ∈ cs, ∀ v, f c = some v → cs.findSome? f = some v → g c = some v)
    (hg : ∀ c ∈ cs, ∀ v, g c = some v → cs.findSome? g = some v → f c = some v) :
    cs.findSome? f = cs.findSome? g := by
  induction cs with
  | nil => rfl
  | cons c rest ih =>
    simp only [List.findSome?_cons] at hf hg ⊢
    cases hc : g c with
    | some v => rw [hg c (.head _) v hc (by rw [hc])]
    | none =>
      cases hd : f c with
      | some v =>
        rw [hf c (.head _) v hd (by rw [hd])] at hc
        cases hc
      | none =>
        rw [hc] at hg
        rw [hd] at hf
        exact ih (fun d hm => hf d (.tail _ hm)) fun d hm => hg d (.tail _ hm)

section Indexed
open Existence
variable {disk : Disk} {root : String} {view : DiskView} {settings : ExistenceSettings}

/-- A search without an index, and one with the index of a disk. -/
def plainSite (root : String) (view : DiskView) : ProbeSite := { root, view }

def indexedSite (root : String) (view : DiskView) (disk : Disk) (settings : ExistenceSettings) :
    ProbeSite :=
  { root, view, index := some (Index.build disk root settings) }

theorem indexedSite_index (root : String) (view : DiskView) (disk : Disk)
    (settings : ExistenceSettings) :
    (indexedSite root view disk settings).index = some (Index.build disk root settings) := rfl

theorem hit?_eq_some {site : ProbeSite} {c rel : String} : hit? site c = some rel ↔
    Location.within? site.root (Location.ofRelative site.root c) = some rel ∧
      takes site rel (Location.ofRelative site.root c) = true :=
  Option.filter_eq_some_iff

variable {c rel : String} (hc : ∀ s ∈ steps c, IsStep s)
include hc

/-- What a search with an index takes for a file is one. -/
theorem hit?_plain_of_indexed (hd : disk.IsTree)
    (hv : ∀ place, view.isFile place = disk.isFile place)
    (hl : (Location.ofRelative root rel).utf8ByteSize ≤ Disk.maxPlace)
    (h : hit? (indexedSite root view disk settings) c = some rel) :
    hit? (plainSite root view) c = some rel := by
  obtain ⟨hw,ht⟩ := hit?_eq_some.mp h
  refine hit?_eq_some.mpr ⟨hw,?_⟩
  have hw : Location.within? root (Location.ofRelative root c) = some rel := hw
  change view.isFile (Location.ofRelative root c) = true
  rw [takes_eq (indexedSite_index root view disk settings)] at ht
  obtain ⟨hrel,-,hne⟩ := Location.steps_of_within? hc hw
  cases hi : (Index.build disk root settings).lookup rel with
  | present =>
    obtain ⟨names,hm,-,he⟩ := Index.mem_scannedPaths.mp (Index.of_present_build hi)
    obtain ⟨path,-,hn,content,hmem⟩ := Disk.mem_filesBelow.mp hm
    -- The file that the index has under the path is the one that the candidate leads to.
    have hnames : names = steps c := by
      have hk := congrArg Path.segments (he.trans hrel)
      rwa [Path.segments_ofSegments (fun s hs => (hc s hs).2.2) hne,Path.segments_ofSegments
        (fun s hs => (hd.named _ hmem s (List.mem_append_right path hs)).isStep.2.2) hn] at hk
    rw [hv]
    rw [hnames] at hm
    rw [(Location.ofRelative_of_within? hc hw).1] at hl
    exact Disk.isFile_of_mem_filesBelow hd hm hl
  | absent =>
    rw [hi] at ht
    cases ht
  | unknown =>
    rw [hi] at ht
    exact ht

/-- A file that a search finds without an index is found with one if the scan does not skip it. -/
theorem hit?_indexed_of_plain (hv : ∀ place, view.isFile place = disk.isFile place)
    (hs : (Index.build disk root settings).summary.complete = true →
      Index.isScanned settings.skipDirs (Path.segments rel) = true)
    (h : hit? (plainSite root view) c = some rel) :
    hit? (indexedSite root view disk settings) c = some rel := by
  obtain ⟨hw,ht⟩ := hit?_eq_some.mp h
  refine hit?_eq_some.mpr ⟨hw,?_⟩
  have ht : view.isFile (Location.ofRelative root c) = true := ht
  rw [takes_eq (indexedSite_index root view disk settings)]
  obtain ⟨hrel,hup,hne⟩ := Location.steps_of_within? hc hw
  cases hi : (Index.build disk root settings).lookup rel with
  | present => rfl
  | absent =>
    obtain ⟨hcomplete,hexists,hn⟩ := Index.of_absent_build hi
    refine absurd (Index.mem_scannedPaths.mpr ⟨steps c,?_,?_,hrel.symm⟩) hn
    · rw [hv] at ht
      exact Disk.mem_filesBelow_of_isFile hexists hne
        (fun s hm => ⟨hc s hm,fun he => hup (he ▸ hm)⟩) ht
    · have hk := hs hcomplete
      rwa [hrel,Path.segments_ofSegments (fun s hm => (hc s hm).2.2) hne] at hk
  | unknown => exact ht

end Indexed

/-- An index of the disk itself changes nothing that a search finds, but for files that a complete
scan skips and for places too long to be asked for. -/
theorem find_indexed {disk : Disk} {root : String} {view : DiskView}
    {settings : ExistenceSettings} (hd : disk.IsTree)
    (hv : ∀ place, view.isFile place = disk.isFile place) (spec : String) (importer : Importer)
    {s t : ProbeState}
    (hs : (find (plainSite root view) spec importer s).2.purse.isExhausted = false)
    (ht : (find (indexedSite root view disk settings) spec importer t).2.purse.isExhausted = false)
    (hscan : ∀ rel, (find (plainSite root view) spec importer s).1 = some rel →
      (Existence.Index.build disk root settings).summary.complete = true →
        Existence.Index.isScanned settings.skipDirs (Path.segments rel) = true)
    (hname : ∀ rel, (find (indexedSite root view disk settings) spec importer t).1 = some rel →
      (Location.ofRelative root rel).utf8ByteSize ≤ Disk.maxPlace) :
    (find (indexedSite root view disk settings) spec importer t).1 =
      (find (plainSite root view) spec importer s).1 := by
  have hsteps : ∀ c ∈ candidates (allBases spec importer), ∀ x ∈ steps c, IsStep x :=
    fun _ hc _ hx => isStep_of_mem_candidates hc hx
  rw [find_eq hs] at hscan
  rw [find_eq ht] at hname
  rw [find_eq hs,find_eq ht]
  apply findSome?_agree
  · intro c hc rel h hfirst
    exact hit?_plain_of_indexed (hsteps c hc) hd hv (hname rel hfirst) h
  · intro c hc rel h hfirst
    exact hit?_indexed_of_plain (hsteps c hc) hv (hscan rel hfirst) h

/-- A disk with a source and a file that was made of it. -/
def sourceDisk : Disk where
  entries := [(["r"],.dir),(["r","dist"],.dir),(["r","dist","util.js"],.file .empty),
    (["r","main.ts"],.file .empty),(["r","util.ts"],.file .empty)]

def sourceState : ProbeState := { purse := ⟨32,48,16,[]⟩ }

theorem isTree_sourceDisk : sourceDisk.IsTree where
  closed := Disk.closed_of_entries (by decide +kernel)
  unique := by decide +kernel
  named := by decide +kernel

/-- The index of its sources. -/
theorem build_sourceDisk : Existence.Index.build sourceDisk "/r" {} =
    Existence.Index.ofPaths ["main.ts","util.ts"] true true := by
  have hf : (sourceDisk.filesBelow "/r").filter
      (Existence.Index.isScanned ({} : ExistenceSettings).skipDirs) =
        [["main.ts"],["util.ts"]] := by
    decide +kernel
  have hp : Existence.Index.scannedPaths sourceDisk "/r" ({} : ExistenceSettings).skipDirs =
      ["main.ts","util.ts"] := by
    rw [Existence.Index.scannedPaths,hf]
    exact List.mergeSort_of_pairwise (by decide +kernel)
  rw [Existence.Index.build,hp]
  decide +kernel

/-- The source is found, with the index and without. -/
theorem find_indexed_source :
    (find (plainSite "/r" ⟨sourceDisk,{}⟩) "./util" (.of "main.ts") sourceState).1 =
        some "util.ts" ∧
      (find (indexedSite "/r" ⟨sourceDisk,{}⟩ sourceDisk {}) "./util" (.of "main.ts")
        sourceState).1 = some "util.ts" := by
  have hplain : (find (plainSite "/r" ⟨sourceDisk,{}⟩) "./util" (.of "main.ts") sourceState).1 =
      some "util.ts" := by decide +kernel
  refine ⟨hplain,(find_indexed isTree_sourceDisk (fun _ => rfl) "./util" (.of "main.ts")
    (s := sourceState) ?_ ?_ ?_ ?_).trans hplain⟩
  · decide +kernel
  · rw [indexedSite,build_sourceDisk]
    decide +kernel
  · intro rel hr _
    rw [hplain] at hr
    obtain rfl := Option.some.inj hr
    decide +kernel
  · intro rel hr
    have hfound : (find (indexedSite "/r" ⟨sourceDisk,{}⟩ sourceDisk {}) "./util" (.of "main.ts")
        sourceState).1 = some "util.ts" := by
      rw [indexedSite,build_sourceDisk]
      decide +kernel
    rw [hfound] at hr
    obtain rfl := Option.some.inj hr
    decide +kernel

/-- What lies in a directory that the scan skips is there and is not found. -/
theorem find_indexed_ne_skipped :
    sourceDisk.IsTree ∧
      (find (plainSite "/r" ⟨sourceDisk,{}⟩) "./dist/util.js" (.of "main.ts") sourceState).1 =
        some "dist/util.js" ∧
      (find (indexedSite "/r" ⟨sourceDisk,{}⟩ sourceDisk {}) "./dist/util.js" (.of "main.ts")
        sourceState).1 = none := by
  refine ⟨isTree_sourceDisk,by decide +kernel,?_⟩
  rw [indexedSite,build_sourceDisk]
  decide +kernel

end Probe
end ImportResolution
