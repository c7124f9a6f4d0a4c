import Mathlib.Data.Finset.Card
import Mathlib.Data.List.Nodup
import Mathlib.Logic.Relation
import ImportResolution.Proofs.DirectPlaces
import ImportResolution.TsConfig.Chain

/-! The ancestry of a configuration. The walk along it is told without a bound on its depth: it comes
to an end, since every place that can be read is entered once, and leaves what the configuration
itself sets. -/
namespace ImportResolution
namespace TsConfig
open Location (Part IsClear IsDirect isAbsolute parts)

-- No text is computed here, and no unifier should try to.
attribute [local irreducible] String.toList

/-- The files that a configuration in `dir` extends, as far as they are there. -/
def ConfigFile.targets (config : ConfigFile) (v : DiskView) (dir : String) : List String :=
  config.parents.filterMap (extendsTarget? v dir)

/-- What is walked: one file, or the targets that are still to be laid over what is merged. -/
inductive Task
  | file (place : String)
  | above (targets : List String) (merged : MergedOptions)

/-- The walk along an ancestry, from one state to another. -/
inductive Gathers (v : DiskView) :
    Task → ChainState → Except ConfigError MergedOptions → ChainState → Prop
  | known {place : String} {s : ChainState} (h : parts place ∈ s.visited) :
      Gathers v (.file place) s (.ok {}) s
  | failed {place : String} {s : ChainState} {e : ConfigError} (h : parts place ∉ s.visited)
      (hr : read v place = .error e) : Gathers v (.file place) s (.error e) (s.enter place)
  | laid {place : String} {s t : ChainState} {config : ConfigFile} {merged : MergedOptions}
      (h : parts place ∉ s.visited) (hr : read v place = .ok config)
      (ha : Gathers v (.above (config.targets v (dirOf place)) {}) (s.enter place) (.ok merged) t) :
      Gathers v (.file place) s (.ok (merged.merge (.ofConfig config (dirOf place)))) t
  | ended {merged : MergedOptions} {s : ChainState} : Gathers v (.above [] merged) s (.ok merged) s
  | merged {target : String} {rest : List String} {merged parent : MergedOptions}
      {s t u : ChainState} {r : Except ConfigError MergedOptions}
      (hp : Gathers v (.file target) s (.ok parent) t)
      (ha : Gathers v (.above rest (merged.merge parent)) t r u) :
      Gathers v (.above (target :: rest) merged) s r u
  | passed {target : String} {rest : List String} {merged : MergedOptions} {e : ConfigError}
      {s t u : ChainState} {r : Except ConfigError MergedOptions}
      (hp : Gathers v (.file target) s (.error e) t) (ha : Gathers v (.above rest merged) t r u) :
      Gathers v (.above (target :: rest) merged) s r u

variable {v : DiskView} {s t : ChainState} {r : Except ConfigError MergedOptions}

/-- A walk has one end. -/
theorem Gathers.unique {task : Task} {r' : Except ConfigError MergedOptions} {t' : ChainState}
    (h : Gathers v task s r t) (h' : Gathers v task s r' t') : r = r' ∧ t = t' := by
  induction h generalizing r' t' with
  | known hk =>
    cases h' with
    | known => exact ⟨rfl,rfl⟩
    | failed hn => exact absurd hk hn
    | laid hn => exact absurd hk hn
  | failed hn hr =>
    cases h' with
    | known hk => exact absurd hk hn
    | failed _ hr' =>
      rw [hr] at hr'
      exact ⟨congrArg _ (Except.error.inj hr'),rfl⟩
    | laid _ hr' => rw [hr] at hr'; cases hr'
  | laid hn hr _ ih =>
    cases h' with
    | known hk => exact absurd hk hn
    | failed _ hr' => rw [hr] at hr'; cases hr'
    | laid _ hr' ha' =>
      obtain rfl := Except.ok.inj (hr.symm.trans hr')
      obtain ⟨he,rfl⟩ := ih ha'
      exact ⟨by rw [Except.ok.inj he],rfl⟩
  | ended =>
    cases h'
    exact ⟨rfl,rfl⟩
  | merged _ _ ihp iha =>
    cases h' with
    | merged hp' ha' =>
      obtain ⟨he,rfl⟩ := ihp hp'
      obtain rfl := Except.ok.inj he
      exact iha ha'
    | passed hp' => cases (ihp hp').1
  | passed _ _ ihp iha =>
    cases h' with
    | merged hp' => cases (ihp hp').1
    | passed hp' ha' =>
      obtain ⟨-,rfl⟩ := ihp hp'
      exact iha ha'

/-! What is read. -/

/-- The files that a file extends. -/
def parentsOf (v : DiskView) (place : String) : List String :=
  match read v place with
  | .ok config => config.targets v (dirOf place)
  | .error _ => []

theorem parentsOf_of_read {place : String} {config : ConfigFile} (h : read v place = .ok config) :
    parentsOf v place = config.targets v (dirOf place) := by
  simp only [parentsOf,h]

/-- That a walk may come from one file to another. -/
def Reaches (v : DiskView) : String → String → Prop :=
  Relation.ReflTransGen fun a b => b ∈ parentsOf v a

/-- The files that a task starts from. -/
def Task.starts : Task → List String
  | file place => [place]
  | above targets _ => targets

/-- What a walk reads is new to it, lies on the ways from where it starts, and is entered at once. -/
structure Adds (v : DiskView) (task : Task) (s t : ChainState) (reads : List String) : Prop where
  reads_eq : t.reads = reads ++ s.reads
  visited_eq : t.visited = reads.map parts ++ s.visited
  nodup : (reads.map parts).Nodup
  fresh : ∀ r ∈ reads, parts r ∉ s.visited
  reached : ∀ r ∈ reads, ∃ start ∈ task.starts, Reaches v start r

theorem Adds.append {target : String} {rest : List String} {m m' : MergedOptions}
    {s t u : ChainState} {first second : List String}
    (h : Adds v (.file target) s t first) (h' : Adds v (.above rest m) t u second) :
    Adds v (.above (target :: rest) m') s u (second ++ first) where
  reads_eq := by rw [h'.reads_eq,h.reads_eq,List.append_assoc]
  visited_eq := by rw [h'.visited_eq,h.visited_eq,List.map_append,List.append_assoc]
  nodup := by
    rw [List.map_append]
    refine h'.nodup.append h.nodup ?_
    intro p hp hq
    obtain ⟨r,hr,rfl⟩ := List.mem_map.mp hp
    exact h'.fresh r hr (h.visited_eq ▸ List.mem_append_left _ hq)
  fresh := by
    intro r hr hm
    rcases List.mem_append.mp hr with hr | hr
    · exact h'.fresh r hr (h.visited_eq ▸ List.mem_append_right _ hm)
    · exact h.fresh r hr hm
  reached := by
    intro r hr
    rcases List.mem_append.mp hr with hr | hr
    · obtain ⟨start,hs,hreach⟩ := h'.reached r hr
      exact ⟨start,.tail _ hs,hreach⟩
    · obtain ⟨start,hs,hreach⟩ := h.reached r hr
      exact ⟨start,List.mem_singleton.mp hs ▸ .head _,hreach⟩

theorem Gathers.adds {task : Task} (h : Gathers v task s r t) : ∃ reads, Adds v task s t reads := by
  induction h with
  | known | ended => exact ⟨[],by simp,by simp,by simp,by simp,by simp⟩
  | @failed place s e hn hr =>
    refine ⟨[place],rfl,rfl,by simp,by simpa using hn,fun r hm => ⟨place,.head _,?_⟩⟩
    rw [List.mem_singleton.mp hm]
    exact .refl
  | @laid place s t config m hn hr _ ih =>
    obtain ⟨reads,ha⟩ := ih
    refine ⟨reads ++ [place],?_,?_,?_,?_,?_⟩
    · rw [ha.reads_eq]
      simp [ChainState.enter]
    · rw [ha.visited_eq]
      simp [ChainState.enter]
    · rw [List.map_append]
      refine ha.nodup.append (by simp) ?_
      intro p hp hq
      obtain ⟨x,hx,rfl⟩ := List.mem_map.mp hp
      exact ha.fresh x hx (by rw [List.mem_singleton.mp hq]; exact .head _)
    · intro x hx
      rcases List.mem_append.mp hx with hx | hx
      · exact fun hm => ha.fresh x hx (.tail _ hm)
      · rwa [List.mem_singleton.mp hx]
    · intro x hx
      refine ⟨place,.head _,?_⟩
      rcases List.mem_append.mp hx with hx | hx
      · obtain ⟨start,hs,hreach⟩ := ha.reached x hx
        exact .head (show start ∈ parentsOf v place from parentsOf_of_read hr ▸ hs) hreach
      · rw [List.mem_singleton.mp hx]
        exact .refl
  | merged _ _ ihp iha | passed _ _ ihp iha =>
    obtain ⟨first,hf⟩ := ihp
    obtain ⟨second,hs⟩ := iha
    exact ⟨_,hf.append hs⟩

/-! Where a walk comes to. -/

theorem mem_extendsPlaces_cases {P : String → Prop} {dir spec place : String}
    (hjson : ∀ base, P base → P (withJson base)) (hfile : ∀ base, P base → P (Location.join base fileName))
    (hdirect : P (Location.joinCollapsed dir spec))
    (habove : ∀ above ∈ climb dir,
      P (Location.joinCollapsed (Location.join above "node_modules") spec))
    (h : place ∈ extendsPlaces dir spec) : P place := by
  unfold extendsPlaces at h
  split at h
  · rcases List.mem_cons.mp h with rfl | h
    · exact hdirect
    · rw [List.mem_singleton.mp h]
      exact hjson _ hdirect
  · obtain ⟨above,ha,h⟩ := List.mem_flatMap.mp h
    have hp := habove above ha
    simp only [packagePlaces,List.mem_cons,List.not_mem_nil,or_false] at h
    rcases h with rfl | rfl | rfl
    · exact hp
    · exact hjson _ hp
    · exact hfile _ hp

theorem isDirect_of_mem_extendsPlaces {dir spec place : String} (h : place ∈ extendsPlaces dir spec) :
    IsDirect place := by
  refine mem_extendsPlaces_cases (P := IsDirect) ?_ ?_ ?_ ?_ h
  · intro base hb
    unfold withJson
    split
    · exact hb
    · exact hb.append (by decide +kernel) (by decide +kernel)
  · intro base hb
    have hrel : isAbsolute fileName = false := by decide +kernel
    have hslash : '/' ∉ fileName.toList := by decide +kernel
    have hlong : 2 < fileName.length := by decide +kernel
    simp only [Location.join,hrel,Bool.false_eq_true,if_false]
    split
    · exact hb.append hslash hlong
    · intro s hs
      rw [Path.segments_slash,Path.segments_of_not_mem hslash] at hs
      rcases List.mem_append.mp hs with hs | hs
      · exact hb s hs
      · rw [List.mem_singleton.mp hs]
        decide
  · exact Location.isDirect_collapse _
  · exact fun _ _ => Location.isDirect_collapse _

theorem isAbsolute_of_mem_climb {dir above : String} (hd : isAbsolute dir = true)
    (h : above ∈ climb dir) : isAbsolute above = true := by
  unfold climb at h
  generalize dir.length + 1 = fuel at h
  induction fuel generalizing dir with
  | zero => cases h
  | succ fuel ih =>
    rcases List.mem_cons.mp h with rfl | h
    · exact hd
    · cases hp : Location.parent? dir with
      | none =>
        rw [hp] at h
        cases h
      | some next =>
        rw [hp] at h
        exact ih (Location.isAbsolute_of_parent? hd hp) h

theorem isAbsolute_of_mem_extendsPlaces {dir spec place : String} (hd : isAbsolute dir = true)
    (h : place ∈ extendsPlaces dir spec) : isAbsolute place = true := by
  refine mem_extendsPlaces_cases (P := fun p => isAbsolute p = true) ?_ ?_ ?_ ?_ h
  · intro base hb
    unfold withJson
    split
    · exact hb
    · exact Location.isAbsolute_append hb _
  · exact fun base hb => Location.isAbsolute_join hb _
  · exact Location.isAbsolute_collapse (Location.isAbsolute_join hd spec)
  · intro above ha
    have hm := Location.isAbsolute_join (isAbsolute_of_mem_climb hd ha) "node_modules"
    exact Location.isAbsolute_collapse (Location.isAbsolute_join hm spec)

theorem exists_fileAt?_of_read {place : String} {config : ConfigFile}
    (h : read v place = .ok config) : ∃ path, v.disk.fileAt? place = some path := by
  unfold read at h
  split at h
  · cases h
  · next content hc =>
    unfold DiskView.readText? at hc
    split at hc
    · cases ht : v.disk.readText place with
      | error e =>
        rw [ht] at hc
        cases hc
      | ok text => exact Disk.exists_fileAt?_of_readText ht
    · cases hc

/-- What can be read stands in a directory. -/
theorem isAbsolute_dirOf {place : String} {config : ConfigFile} (ha : isAbsolute place = true)
    (hu : ".." ∉ Path.segments place) (h : read v place = .ok config) :
    isAbsolute (dirOf place) = true := by
  unfold dirOf
  cases hp : Location.parent? place with
  | some above => exact Location.isAbsolute_of_parent? ha hp
  | none =>
    obtain ⟨path,hf⟩ := exists_fileAt?_of_read h
    obtain ⟨he,hne,-⟩ := Disk.of_fileAt? hu hf
    exact absurd (he.trans (Location.steps_of_parent?_none ha hp)) hne

theorem extendsPlaces_of_mem_targets {config : ConfigFile} {dir target : String}
    (h : target ∈ config.targets v dir) : ∃ spec, target ∈ extendsPlaces dir spec := by
  obtain ⟨spec,-,ht⟩ := List.mem_filterMap.mp h
  exact ⟨spec,List.mem_of_find?_eq_some ht⟩

theorem isDirect_of_mem_parentsOf {a b : String} (h : b ∈ parentsOf v a) : IsDirect b := by
  unfold parentsOf at h
  split at h
  · obtain ⟨spec,hm⟩ := extendsPlaces_of_mem_targets h
    exact isDirect_of_mem_extendsPlaces hm
  · cases h

theorem Reaches.isClear {a b : String} (h : Reaches v a b) (ha : IsClear a) : IsClear b := by
  cases h with
  | refl => exact ha
  | tail _ hb => exact (isDirect_of_mem_parentsOf hb).isClear

/-- From an absolute place a walk comes to absolute places only. -/
theorem Reaches.isAbsolute {a b : String} (h : Reaches v a b) (ha : isAbsolute a = true)
    (hc : IsClear a) : isAbsolute b = true := by
  induction h with
  | refl => exact ha
  | tail hab hb ih =>
    unfold parentsOf at hb
    split at hb
    · next config hr =>
      obtain ⟨spec,hm⟩ := extendsPlaces_of_mem_targets hb
      have hup := (Reaches.isClear hab hc).up_not_mem
      exact isAbsolute_of_mem_extendsPlaces (isAbsolute_dirOf ih hup hr) hm
    · cases hb

/-- The parts that a place without dots may have when it can be read. -/
def spots (v : DiskView) : Finset (List Part) :=
  (v.disk.entries.flatMap fun e => [.root :: e.1.map Part.name,e.1.map Part.name]).toFinset

theorem card_spots_le (v : DiskView) : (spots v).card ≤ 2 * v.disk.entries.length := by
  refine (List.toFinset_card_le _).trans ?_
  simp [List.length_flatMap,Nat.mul_comm]

theorem mem_spots {place : String} {config : ConfigFile} (hd : IsDirect place)
    (h : read v place = .ok config) : parts place ∈ spots v := by
  obtain ⟨path,hf⟩ := exists_fileAt?_of_read h
  obtain ⟨hp,-,content,hm⟩ := Disk.of_fileAt? hd.isClear.up_not_mem hf
  have hname : path.map Location.stepPart = path.map Part.name := by
    refine List.map_congr_left fun s hs => if_neg ?_
    rw [hp] at hs
    exact (hd s (List.mem_filter.mp (List.mem_filter.mp hs).1).1).2
  rw [spots,List.mem_toFinset,List.mem_flatMap]
  refine ⟨_,hm,?_⟩
  rw [Location.parts_eq_steps hd.isClear.head_ne,← hp,hname]
  cases isAbsolute place <;> simp

/-- How many of them have not been entered. -/
def left (v : DiskView) (s : ChainState) : Nat := (spots v \ s.visited.toFinset).card

theorem left_le (v : DiskView) (s : ChainState) : left v s ≤ 2 * v.disk.entries.length :=
  (Finset.card_le_card Finset.sdiff_subset).trans (card_spots_le v)

theorem left_anti (h : s.visited ⊆ t.visited) : left v t ≤ left v s := by
  refine Finset.card_le_card (Finset.sdiff_subset_sdiff subset_rfl fun p hp => ?_)
  exact List.mem_toFinset.mpr (h (List.mem_toFinset.mp hp))

theorem Gathers.left_le {task : Task} (h : Gathers v task s r t) : left v t ≤ left v s := by
  obtain ⟨reads,ha⟩ := h.adds
  exact left_anti fun p hp => ha.visited_eq ▸ List.mem_append_right _ hp

theorem left_enter_lt {place : String} {config : ConfigFile} (hd : IsDirect place)
    (hn : parts place ∉ s.visited) (h : read v place = .ok config) :
    left v (s.enter place) < left v s := by
  have he : spots v \ (s.enter place).visited.toFinset =
      (spots v \ s.visited.toFinset).erase (parts place) := by
    rw [ChainState.enter,List.toFinset_cons,Finset.sdiff_insert]
  rw [left,he]
  exact Finset.card_erase_lt_of_mem (by simp [mem_spots hd h,hn])

/-- Where a gatherer walks from places without dots as it should, it lays parents as it should. -/
theorem gathers_above {gatherParent : Gatherer} {bound : Nat}
    (hg : ∀ target s, IsDirect target → left v s < bound →
      Gathers v (.file target) s (gatherParent target s).1 (gatherParent target s).2)
    (dir : String) (specs : List String) (acc : MergedOptions × ChainState)
    (hb : left v acc.2 < bound) :
    Gathers v (.above (specs.filterMap (extendsTarget? v dir)) acc.1) acc.2
      (.ok (specs.foldl (layParent v gatherParent dir) acc).1)
      (specs.foldl (layParent v gatherParent dir) acc).2 := by
  induction specs generalizing acc with
  | nil => exact .ended
  | cons spec rest ih =>
    rw [List.foldl_cons]
    cases ht : extendsTarget? v dir spec with
    | none =>
      have hl : layParent v gatherParent dir acc spec = acc := by simp only [layParent,ht]
      rw [List.filterMap_cons_none ht,hl]
      exact ih acc hb
    | some target =>
      have hp := hg target acc.2
        (isDirect_of_mem_extendsPlaces (List.mem_of_find?_eq_some ht)) hb
      have hleft := hp.left_le.trans_lt hb
      rw [List.filterMap_cons_some ht]
      rcases hr : gatherParent target acc.2 with ⟨_ | parent,t⟩
      · have hl : layParent v gatherParent dir acc spec = (acc.1,t) := by
          simp only [layParent,ht,hr]
        rw [hr] at hp hleft
        rw [hl]
        exact .passed hp (ih (acc.1,t) hleft)
      · have hl : layParent v gatherParent dir acc spec = (acc.1.merge parent,t) := by
          simp only [layParent,ht,hr]
        rw [hr] at hp hleft
        rw [hl]
        exact .merged hp (ih (acc.1.merge parent,t) hleft)

theorem gathers_file {fuel : Nat}
    (hg : ∀ target s, IsDirect target → left v s < fuel →
      Gathers v (.file target) s (gatherFuel v fuel target s).1 (gatherFuel v fuel target s).2)
    (place : String) (s : ChainState)
    (hb : ∀ config, parts place ∉ s.visited → read v place = .ok config →
      left v (s.enter place) < fuel) :
    Gathers v (.file place) s (gatherFuel v (fuel+1) place s).1
      (gatherFuel v (fuel+1) place s).2 := by
  by_cases hk : parts place ∈ s.visited
  · have he : gatherFuel v (fuel+1) place s = (.ok {},s) := by
      simp [gatherFuel,hk]
    rw [he]
    exact .known hk
  · cases hr : read v place with
    | error e =>
      have he : gatherFuel v (fuel+1) place s = (.error e,s.enter place) := by
        simp [gatherFuel,hk,hr]
      rw [he]
      exact .failed hk hr
    | ok config =>
      simp only [gatherFuel,List.contains_iff_mem,hk,hr,if_false]
      exact .laid hk hr (gathers_above hg _ _ ({},s.enter place) (hb config hk hr))

theorem gathers_gatherFuel (v : DiskView) (fuel : Nat) (place : String) (s : ChainState)
    (hd : IsDirect place) (hb : left v s < fuel) :
    Gathers v (.file place) s (gatherFuel v fuel place s).1 (gatherFuel v fuel place s).2 := by
  induction fuel generalizing place s with
  | zero => exact absurd hb (Nat.not_lt_zero _)
  | succ fuel ih =>
    refine gathers_file (fun target t ht hlt => ih target t ht hlt) place s ?_
    intro config hn hr
    exact (left_enter_lt hd hn hr).trans_le (Nat.lt_succ_iff.mp hb)

/-- The bound on its depth does not cut a walk short, wherever it starts. -/
theorem gathers_gather (v : DiskView) (place : String) (s : ChainState) :
    Gathers v (.file place) s (gather v place s).1 (gather v place s).2 :=
  gathers_file (gathers_gatherFuel v _) place s fun _ _ _ => Nat.lt_succ_of_le (left_le v _)

theorem gather_eq_iff {place : String} : gather v place s = (r,t) ↔ Gathers v (.file place) s r t := by
  constructor
  · intro h
    have hg := gathers_gather v place s
    rwa [h] at hg
  · intro h
    obtain ⟨hr,ht⟩ := (gathers_gather v place s).unique h
    exact Prod.ext hr ht

end TsConfig
end ImportResolution
