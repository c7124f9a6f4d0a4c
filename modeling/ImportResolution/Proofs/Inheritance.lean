import ImportResolution.Proofs.Ancestry

/-! What a configuration inherits. Where nothing is reached through two of the files that it extends, the
walk along its ancestry lays their chains over one another, each taken on its own, and its own
options over them. A shared ancestor is laid once, below what was reached first. -/
namespace ImportResolution
namespace TsConfig
open Location (Part parts)

-- No text is computed here, and no unifier should try to.
attribute [local irreducible] String.toList

/-- The chains of many files, each laid over those before it. -/
def layChains (v : DiskView) (targets : List String) (merged : MergedOptions) : MergedOptions :=
  targets.foldl
    (fun m target =>
      match chain v target with
      | .ok parent => m.merge parent
      | .error _ => m)
    merged

/-- The options of a file laid over the chains of those that it extends. -/
def composed (v : DiskView) (place : String) : Except ConfigError MergedOptions :=
  (read v place).map fun config =>
    (layChains v (config.targets v (dirOf place)) {}).merge (.ofConfig config (dirOf place))

variable {v : DiskView} {s t : ChainState} {r : Except ConfigError MergedOptions}

/-- That two states tell alike what was entered, as far as a task can come. -/
def Agree (v : DiskView) (task : Task) (s t : ChainState) : Prop :=
  ∀ start ∈ task.starts, ∀ b, Reaches v start b → (parts b ∈ s.visited ↔ parts b ∈ t.visited)

/-- A walk goes the same way from a state that agrees, and enters the same. -/
theorem Gathers.frame {task : Task} (h : Gathers v task s r t) {s' : ChainState}
    (ha : Agree v task s s') : ∃ t', Gathers v task s' r t' ∧
      ∃ entered, t.visited = entered ++ s.visited ∧ t'.visited = entered ++ s'.visited := by
  induction h generalizing s' with
  | @known place s hk =>
    exact ⟨s',.known ((ha place (.head _) place .refl).mp hk),[],rfl,rfl⟩
  | @failed place s e hn hr =>
    refine ⟨s'.enter place,.failed (fun hk => hn ?_) hr,[parts place],rfl,rfl⟩
    exact (ha place (.head _) place .refl).mpr hk
  | @laid place s t config merged hn hr _ ih =>
    have hn' : parts place ∉ s'.visited := fun hk => hn ((ha place (.head _) place .refl).mpr hk)
    have hnext : Agree v (.above (config.targets v (dirOf place)) {}) (s.enter place)
        (s'.enter place) := by
      intro start hs b hb
      have hpb : Reaches v place b :=
        .head (show start ∈ parentsOf v place from parentsOf_of_read hr ▸ hs) hb
      simp only [ChainState.enter,List.mem_cons,ha place (.head _) b hpb]
    obtain ⟨t',hg,entered,he,he'⟩ := ih hnext
    exact ⟨t',.laid hn' hr hg,entered ++ [parts place],by simp [he,ChainState.enter],
      by simp [he',ChainState.enter]⟩
  | ended => exact ⟨s',.ended,[],rfl,rfl⟩
  | @merged target rest _ _ s t _ _ _ _ ihp iha | @passed target rest _ _ s t _ _ _ _ ihp iha =>
    have hfirst : Agree v (.file target) s s' := fun start hs b hb =>
      ha start (List.mem_singleton.mp hs ▸ .head _) b hb
    obtain ⟨t',hp,first,hf,hf'⟩ := ihp hfirst
    have hrest : ∀ start ∈ rest, ∀ b, Reaches v start b →
        (parts b ∈ t.visited ↔ parts b ∈ t'.visited) := by
      intro start hs b hb
      rw [hf,hf',List.mem_append,List.mem_append,ha start (.tail _ hs) b hb]
    obtain ⟨u',hg,second,hu,hu'⟩ := iha hrest
    refine ⟨u',?_,second ++ first,by rw [hu,hf,List.append_assoc],by rw [hu',hf',List.append_assoc]⟩
    first
    | exact .merged hp hg
    | exact .passed hp hg

/-- That no file is reached through two of these, by the parts of its place. -/
def AreApart (v : DiskView) (targets : List String) : Prop :=
  targets.Pairwise fun a b => ∀ x y, Reaches v a x → Reaches v b y → parts x ≠ parts y

/-- From places that are new and apart, the walk lays the chain of each. -/
theorem Gathers.layChains {targets : List String} {m : MergedOptions}
    (h : Gathers v (.above targets m) s r t) (ha : AreApart v targets)
    (hn : ∀ target ∈ targets, ∀ b, Reaches v target b → parts b ∉ s.visited) :
    r = .ok (layChains v targets m) := by
  induction targets generalizing m s with
  | nil =>
    cases h
    rfl
  | cons target rest ih =>
    obtain ⟨hfirst,hrest⟩ := List.pairwise_cons.mp ha
    have hchain : ∀ {p u}, Gathers v (.file target) s p u → chain v target = p ∧
        ∀ b ∈ rest, ∀ y, Reaches v b y → parts y ∉ u.visited := by
      intro p u hp
      have hagree : Agree v (.file target) s {} := by
        intro start hs b hb
        rw [List.mem_singleton.mp hs] at hb
        simpa using hn target (.head _) b hb
      obtain ⟨u',hg,-⟩ := hp.frame hagree
      refine ⟨congrArg Prod.fst (gather_eq_iff.mpr hg),fun b hb y hy hm => ?_⟩
      obtain ⟨reads,hadds⟩ := hp.adds
      rw [hadds.visited_eq] at hm
      rcases List.mem_append.mp hm with hm | hm
      · obtain ⟨x,hx,he⟩ := List.mem_map.mp hm
        obtain ⟨start,hs,hreach⟩ := hadds.reached x hx
        rw [List.mem_singleton.mp hs] at hreach
        exact hfirst b hb x y hreach hy he
      · exact hn b (.tail _ hb) y hy hm
    cases h with
    | merged hp hr =>
      obtain ⟨hc,hnew⟩ := hchain hp
      rw [ih hr hrest hnew]
      simp only [TsConfig.layChains,List.foldl_cons,hc]
    | passed hp hr =>
      obtain ⟨hc,hnew⟩ := hchain hp
      rw [ih hr hrest hnew]
      simp only [TsConfig.layChains,List.foldl_cons,hc]

/-- That nothing is inherited twice: no file that is extended leads back, and none of them shares what it
leads to with another. -/
structure IsUnshared (v : DiskView) (place : String) : Prop where
  acyclic : ∀ target ∈ parentsOf v place, ∀ b, Reaches v target b → parts b ≠ parts place
  apart : AreApart v (parentsOf v place)

/-- Where nothing is inherited twice, the chain of a configuration is composed of those of the files that
it extends. -/
theorem chain_eq_composed {place : String} (h : IsUnshared v place) :
    chain v place = composed v place := by
  obtain ⟨t,hg⟩ : ∃ t, Gathers v (.file place) {} (chain v place) t := ⟨_,gathers_gather v place {}⟩
  unfold composed
  generalize chain v place = r at hg ⊢
  cases hg with
  | known hk => cases hk
  | failed _ hr =>
    rw [hr]
    rfl
  | laid _ hr ha =>
    have hp := parentsOf_of_read hr
    have hm := ha.layChains (hp ▸ h.apart) fun target ht b hb hk =>
      h.acyclic target (hp ▸ ht) b hb (by simpa [ChainState.enter] using hk)
    rw [hr,Except.ok.inj hm]
    rfl

theorem Reaches.mem_of_closed {files : List String}
    (hc : ∀ a ∈ files, ∀ b ∈ parentsOf v a, b ∈ files) {a b : String} (h : Reaches v a b)
    (ha : a ∈ files) : b ∈ files := by
  induction h with
  | refl => exact ha
  | tail _ hb ih => exact hc _ ih _ hb

/-- Files in one directory. -/
def folder (files : List (String × String)) : DiskView :=
  ⟨⟨(["r"],.dir) :: files.map fun f => (["r",f.1],.file f.2.toUTF8)⟩,{}⟩

def fan : DiskView := folder
  [("t.json","\x7b\"extends\":[\"./a\",\"./b\"]\x7d"),
    ("a.json","\x7b\"extends\":\"./base\",\"compilerOptions\":\x7b\"outDir\":\"a\"\x7d\x7d"),
    ("b.json","\x7b\"compilerOptions\":\x7b\"outDir\":\"b\"\x7d\x7d"),
    ("base.json","\x7b\"compilerOptions\":\x7b\"rootDir\":\"base\"\x7d\x7d")]

theorem isUnshared_fan : IsUnshared fan "/r/t.json" := by
  have hp : parentsOf fan "/r/t.json" = ["/r/a.json","/r/b.json"] := by decide +kernel
  have hfirst : ∀ b, Reaches fan "/r/a.json" b → b ∈ ["/r/a.json","/r/base.json"] :=
    fun _ h => h.mem_of_closed (by decide +kernel) (.head _)
  have hsecond : ∀ b, Reaches fan "/r/b.json" b → b ∈ ["/r/b.json"] :=
    fun _ h => h.mem_of_closed (by decide +kernel) (.head _)
  constructor
  · have hback : ∀ b ∈ ["/r/a.json","/r/base.json"] ++ ["/r/b.json"], parts b ≠ parts "/r/t.json" := by
      decide +kernel
    intro target ht b hb
    simp only [hp,List.mem_cons,List.not_mem_nil,or_false] at ht
    rcases ht with rfl | rfl
    · exact hback b (List.mem_append_left _ (hfirst b hb))
    · exact hback b (List.mem_append_right _ (hsecond b hb))
  · have hapart : ∀ x ∈ ["/r/a.json","/r/base.json"], ∀ y ∈ ["/r/b.json"], parts x ≠ parts y := by
      decide +kernel
    simp only [AreApart,hp,List.pairwise_pair]
    exact fun x y hx hy => hapart x (hfirst x hx) y (hsecond y hy)

theorem chain_eq_composed_fan :
    IsUnshared fan "/r/t.json" ∧ chain fan "/r/t.json" = composed fan "/r/t.json" ∧
      composed fan "/r/t.json" = .ok { outDir := some "/r/b", rootDir := some "/r/base" } := by
  exact ⟨isUnshared_fan,chain_eq_composed isUnshared_fan,by decide +kernel⟩

/-- That every file on the way can be read, and none leads back to itself. -/
structure IsSound (v : DiskView) (place : String) : Prop where
  parses : ∀ a, Reaches v place a → ∃ config, read v a = .ok config
  acyclic : ∀ a, Reaches v place a → ∀ target ∈ parentsOf v a, ∀ b, Reaches v target b →
    parts b ≠ parts a

/-- Files that can be read, each listed after those that it extends, are sound. -/
theorem IsSound.of_files {files : List String}
    (hr : ∀ a ∈ files, (read v a).toOption.isSome = true)
    (hc : ∀ a ∈ files, ∀ b ∈ parentsOf v a, b ∈ files ∧
      (files.map parts).idxOf (parts b) < (files.map parts).idxOf (parts a))
    {place : String} (hp : place ∈ files) : IsSound v place := by
  have hclosed : ∀ a ∈ files, ∀ b ∈ parentsOf v a, b ∈ files := fun a ha b hb => (hc a ha b hb).1
  have hle : ∀ {a b}, Reaches v a b → a ∈ files →
      (files.map parts).idxOf (parts b) ≤ (files.map parts).idxOf (parts a) := by
    intro a b h ha
    induction h with
    | refl => exact le_rfl
    | tail hab hb ih => exact (hc _ (Reaches.mem_of_closed hclosed hab ha) _ hb).2.le.trans ih
  constructor
  · intro a ha
    have h := hr a (ha.mem_of_closed hclosed hp)
    cases hread : read v a with
    | ok config => exact ⟨config,rfl⟩
    | error e =>
      rw [hread] at h
      cases h
  · intro a ha target ht b hb he
    have hm := ha.mem_of_closed hclosed hp
    obtain ⟨htm,hlt⟩ := hc a hm target ht
    exact absurd (he ▸ hle hb htm) (Nat.not_le_of_lt hlt)

def diamond : DiskView := folder
  [("t.json","\x7b\"extends\":[\"./a.json\",\"./b.json\"]\x7d"),
    ("a.json","\x7b\"extends\":\"./base.json\",\"compilerOptions\":\x7b\"outDir\":\"a\"\x7d\x7d"),
    ("b.json","\x7b\"extends\":\"./base.json\"\x7d"),
    ("base.json","\x7b\"compilerOptions\":\x7b\"outDir\":\"base\"\x7d\x7d")]

theorem isSound_diamond : IsSound diamond "/r/t.json" := by
  refine @IsSound.of_files diamond ["/r/base.json","/r/b.json","/r/a.json","/r/t.json"] ?_ ?_ _ ?_ <;>
    decide +kernel

/-- A base that two parents share is laid once: the chain of the second, taken on its own, brings it over
what the first sets, and the walk does not. -/
theorem chain_ne_composed_diamond :
    IsSound diamond "/r/t.json" ∧ chain diamond "/r/t.json" ≠ composed diamond "/r/t.json" ∧
      chain diamond "/r/t.json" = .ok { outDir := some "/r/a" } ∧
      composed diamond "/r/t.json" = .ok { outDir := some "/r/base" } := by
  have hchain : chain diamond "/r/t.json" = .ok { outDir := some "/r/a" } := by decide +kernel
  have hcomposed : composed diamond "/r/t.json" = .ok { outDir := some "/r/base" } := by
    decide +kernel
  refine ⟨isSound_diamond,?_,hchain,hcomposed⟩
  rw [hchain,hcomposed]
  decide +kernel

end TsConfig
end ImportResolution
