import Mathlib.Algebra.Group.Nat.Defs
import ImportResolution.Existence.Index

/-! What an existence index says. Its filter lets through whatever was put in, so that an index says
"present" of the paths that it was made of and of no others, and "absent" of none of them. -/
namespace ImportResolution.Existence

namespace Bloom

theorem testBit_setBits (bits : List Nat) (mask i : Nat) :
    (bits.foldl (fun mask bit => mask ||| (1 <<< bit)) mask).testBit i = true ↔
      mask.testBit i = true ∨ i ∈ bits := by
  induction bits generalizing mask with
  | nil => simp
  | cons bit rest ih =>
    rw [List.foldl_cons,ih,Nat.testBit_or,Nat.one_shiftLeft,Nat.testBit_two_pow,Bool.or_eq_true,
      decide_eq_true_eq,or_assoc,List.mem_cons,eq_comm (a := bit)]

theorem positions_insert (f : Bloom) (s t : String) :
    (f.insert s).positions t = f.positions t := rfl

/-- A text that was put in passes, and keeps passing. -/
theorem mayContain_insert {f : Bloom} {s t : String} (h : s = t ∨ f.mayContain t = true) :
    (f.insert s).mayContain t = true := by
  rw [mayContain,positions_insert,List.all_eq_true]
  intro i hi
  refine (testBit_setBits _ _ _).mpr ?_
  rcases h with rfl | h
  · exact .inr hi
  · exact .inl (List.all_eq_true.mp h i hi)

theorem mayContain_foldl {f : Bloom} {t : String} (texts : List String)
    (h : t ∈ texts ∨ f.mayContain t = true) : (texts.foldl insert f).mayContain t = true := by
  induction texts generalizing f with
  | nil => exact h.resolve_left List.not_mem_nil
  | cons s rest ih =>
    apply ih
    rcases h with h | h
    · rcases List.mem_cons.mp h with rfl | h
      · exact .inr (mayContain_insert (.inl rfl))
      · exact .inl h
    · exact .inr (mayContain_insert (.inr h))

/-- A table whose size is a power of two, so that a mask takes every hash into it, and its bits. -/
structure IsTable (f : Bloom) : Prop where
  size : ∃ k, 12 ≤ k ∧ k ≤ 25 ∧ f.bitCount = 2^k
  probes : ∀ s, f.positions s =
    [0,1,2].map fun i => (fnv s + i * strideHash s).toNat &&& (f.bitCount - 1)
  inside : f.mask < 2^f.bitCount

theorem bitCount_withExpected (n : Nat) :
    ∃ k, 12 ≤ k ∧ k ≤ 25 ∧ (withExpected n).bitCount = 2^k := by
  obtain ⟨k,hk⟩ := Nat.isPowerOfTwo_nextPowerOfTwo (n*bitsPerEntry)
  have hp : ∀ {a b : Nat}, a ≤ b → 2^a ≤ 2^b := Nat.pow_le_pow_right (by decide)
  have hb : (withExpected n).bitCount = min (max (2^k) (2^12)) (2^25) := by
    rw [← hk]; rfl
  rcases Nat.le_total k 12 with hl | hl
  · refine ⟨12,by decide,by decide,?_⟩
    rw [hb,Nat.max_eq_right (hp hl)]
    decide
  · rw [hb,Nat.max_eq_left (hp hl)]
    rcases Nat.le_total k 25 with hr | hr
    · exact ⟨k,hl,hr,Nat.min_eq_left (hp hr)⟩
    · exact ⟨25,by decide,by decide,Nat.min_eq_right (hp hr)⟩

theorem isTable_withExpected (n : Nat) : (withExpected n).IsTable := by
  have hs := bitCount_withExpected n
  refine ⟨hs,fun s => ?_,Nat.two_pow_pos _⟩
  obtain ⟨k,-,-,hk⟩ := hs
  simp only [positions,hk,Nat.and_two_pow_sub_one_eq_mod]

/-- No bit outside the table is ever set. -/
theorem IsTable.insert {f : Bloom} (h : f.IsTable) (s : String) : (f.insert s).IsTable := by
  refine ⟨h.size,h.probes,?_⟩
  obtain ⟨k,-,-,hk⟩ := h.size
  have hpos : 0 < f.bitCount := hk ▸ Nat.two_pow_pos k
  refine Nat.lt_pow_two_of_testBit _ fun i hi => ?_
  rw [Bool.eq_false_iff]
  intro hb
  rcases (testBit_setBits _ _ _).mp hb with hm | hm
  · have hlt := Nat.lt_of_lt_of_le h.inside (Nat.pow_le_pow_right (by decide) hi)
    rw [Nat.testBit_lt_two_pow hlt] at hm
    cases hm
  · obtain ⟨j,-,rfl⟩ := List.mem_map.mp hm
    exact absurd (Nat.mod_lt _ hpos) (Nat.not_lt.mpr hi)

theorem IsTable.foldl {f : Bloom} (h : f.IsTable) (texts : List String) :
    (texts.foldl Bloom.insert f).IsTable := by
  induction texts generalizing f with
  | nil => exact h
  | cons s rest ih => exact ih (h.insert s)

end Bloom

/-- The paths under one hash. -/
def bucketOf (hash : UInt32) (bs : List Bucket) : List String := (bs.lookup hash).getD []

theorem bucketOf_cons (hash : UInt32) (b : Bucket) (bs : List Bucket) :
    bucketOf hash (b :: bs) = if hash = b.1 then b.2 else bucketOf hash bs := by
  obtain ⟨key,paths⟩ := b
  by_cases h : hash = key
  · simp [bucketOf,h]
  · have hb : (hash == key) = false := beq_false_of_ne h
    simp [bucketOf,List.lookup_cons,h,hb]

theorem mem_bucketOf_addToBuckets {p q : String} (bs : List Bucket) :
    q ∈ bucketOf (fnv q) (addToBuckets p bs) ↔ q = p ∨ q ∈ bucketOf (fnv q) bs := by
  induction bs with
  | nil =>
    rw [addToBuckets,bucketOf_cons]
    by_cases h : fnv q = fnv p
    · simp [h,bucketOf]
    · have hn : q ≠ p := fun he => h (congrArg fnv he)
      simp [h,hn]
  | cons b rest ih =>
    rw [addToBuckets]
    split
    · next hb =>
      rw [bucketOf_cons,bucketOf_cons]
      by_cases h : fnv q = b.1
      · rw [if_pos h,if_pos h]
        split
        · next hc =>
          exact ⟨.inr,fun hm => hm.elim (fun he => he ▸ List.contains_iff_mem.mp hc) id⟩
        · rw [List.mem_append,List.mem_singleton,or_comm]
      · have hn : q ≠ p := fun he => h (by rw [he,hb])
        rw [if_neg h,if_neg h]
        simp [hn]
    · next hb =>
      rw [bucketOf_cons,bucketOf_cons]
      by_cases h : fnv q = b.1
      · have hn : q ≠ p := fun he => hb (by rw [← h,he])
        rw [if_pos h,if_pos h]
        simp [hn]
      · rw [if_neg h,if_neg h,ih]

theorem mem_bucketOf_foldl (paths : List String) (bs : List Bucket) (q : String) :
    q ∈ bucketOf (fnv q) (paths.foldl (fun bs p => addToBuckets p bs) bs) ↔
      q ∈ paths ∨ q ∈ bucketOf (fnv q) bs := by
  induction paths generalizing bs with
  | nil => simp
  | cons p rest ih =>
    rw [List.foldl_cons,ih,mem_bucketOf_addToBuckets,List.mem_cons,or_left_comm,or_assoc]

namespace Index

/-- An index of the given paths. -/
structure Holds (i : Index) (paths : List String) : Prop where
  passes : ∀ q ∈ paths, i.bloom.mayContain q = true
  lists : ∀ q, i.isListed q = true ↔ q ∈ paths

theorem holds_ofPaths (paths : List String) (complete exact : Bool) :
    (ofPaths paths complete exact).Holds paths where
  passes _ hq := Bloom.mayContain_foldl paths (.inl hq)
  lists q := by
    rw [isListed,List.contains_iff_mem]
    exact (mem_bucketOf_foldl paths [] q).trans (by simp [bucketOf])

namespace Holds
variable {i : Index} {paths : List String} {q : String}

theorem of_present (h : i.Holds paths) (hq : i.lookup q = .present) : q ∈ paths := by
  refine (h.lists q).mp ?_
  cases hl : i.isListed q with
  | true => rfl
  | false =>
    cases hb : i.bloom.mayContain q <;> cases he : i.exactVerification <;>
      cases hc : i.summary.complete <;> simp [lookup,hb,he,hc,hl] at hq

theorem of_absent (h : i.Holds paths) (hq : i.lookup q = .absent) :
    i.summary.complete = true ∧ q ∉ paths := by
  have hn : ¬(i.bloom.mayContain q = true ∧ i.isListed q = true) := by
    rintro ⟨hb,hl⟩
    cases he : i.exactVerification <;> simp [lookup,hb,he,hl] at hq
  constructor
  · cases hc : i.summary.complete with
    | true => rfl
    | false =>
      cases hb : i.bloom.mayContain q <;> cases he : i.exactVerification <;>
        cases hl : i.isListed q <;> simp [lookup,hb,he,hc,hl] at hq
  · exact fun hm => hn ⟨h.passes q hm,(h.lists q).mpr hm⟩

/-- Doubt has a reason. -/
theorem of_unknown (h : i.lookup q = .unknown) :
    i.summary.complete = false ∨ i.exactVerification = false := by
  cases he : i.exactVerification with
  | false => exact .inr rfl
  | true =>
    left
    cases hc : i.summary.complete with
    | false => rfl
    | true =>
      cases hb : i.bloom.mayContain q <;> cases hl : i.isListed q <;>
        simp [lookup,hb,he,hc,hl] at h

theorem present_iff (h : i.Holds paths) (he : i.exactVerification = true) :
    i.lookup q = .present ↔ q ∈ paths := by
  refine ⟨h.of_present,fun hm => ?_⟩
  simp [lookup,he,h.passes q hm,(h.lists q).mpr hm]

end Holds

/-- What an index of the given paths answers, whichever of their hashes are equal. -/
structure IsTruthful (i : Index) (paths : List String) (complete exact : Bool) : Prop where
  table : i.bloom.IsTable
  of_present : ∀ q, i.lookup q = .present → q ∈ paths
  of_absent : ∀ q, i.lookup q = .absent → q ∉ paths ∧ complete = true
  of_unknown : ∀ q, i.lookup q = .unknown → complete = false ∨ exact = false
  present_iff : exact = true → ∀ q, i.lookup q = .present ↔ q ∈ paths

theorem isTruthful_ofPaths (paths : List String) (complete exact : Bool) :
    (ofPaths paths complete exact).IsTruthful paths complete exact :=
  have h := holds_ofPaths paths complete exact
  { table := (Bloom.isTable_withExpected paths.length).foldl paths
    of_present _ hq := h.of_present hq
    of_absent _ hq := (h.of_absent hq).symm
    of_unknown _ hq := Holds.of_unknown hq
    present_iff he _ := h.present_iff he }

-- Words of one hash, in one bucket.
example : (ofPaths ["costarring","liquid","costarring"] true true).buckets =
    [(fnv "liquid",["costarring","liquid"])] := by
  decide +kernel

section Building
variable {disk : Disk} {root : String} {settings : ExistenceSettings}

theorem holds_build : (build disk root settings).Holds
    ((scannedPaths disk root settings.skipDirs).take settings.maxScanFiles) :=
  have h := holds_ofPaths ((scannedPaths disk root settings.skipDirs).take settings.maxScanFiles)
    (build disk root settings).summary.complete settings.exactVerification
  ⟨h.passes,h.lists⟩

theorem mem_scannedPaths {rel : String} {skipDirs : List String} :
    rel ∈ scannedPaths disk root skipDirs ↔ ∃ names ∈ disk.filesBelow root,
      isScanned skipDirs names = true ∧ Path.ofSegments names = rel := by
  simp [scannedPaths,and_assoc]

/-- A root below which nothing is is a file, or not there. -/
theorem filesBelow_of_isFile (h : disk.isFile root = true) : disk.filesBelow root = [] := by
  unfold Disk.isFile Disk.stat at h
  unfold Disk.filesBelow Disk.below
  split at h <;> simp_all [Stat.isFile]

/-- A complete scan leaves nothing out, and its root is there. -/
theorem of_complete (h : (build disk root settings).summary.complete = true) :
    disk.exists? root = true ∧ (scannedPaths disk root settings.skipDirs).take
      settings.maxScanFiles = scannedPaths disk root settings.skipDirs := by
  have hc : (!decide (settings.maxScanFiles < if disk.isFile root then 1
      else (scannedPaths disk root settings.skipDirs).length) &&
        (if disk.exists? root then 0 else 1) == 0) = true := h
  simp only [Bool.and_eq_true,Bool.not_eq_true',decide_eq_false_iff_not,Nat.not_lt] at hc
  obtain ⟨hlen,hexists⟩ := hc
  refine ⟨?_,List.take_of_length_le ?_⟩
  · cases he : disk.exists? root with
    | true => rfl
    | false => simp [he] at hexists
  · cases hf : disk.isFile root with
    | true => simp [scannedPaths,filesBelow_of_isFile hf]
    | false => simpa [hf] using hlen

/-- What an index denies was not met, and it met all that it does not skip. -/
theorem of_absent_build {rel : String} (h : (build disk root settings).lookup rel = .absent) :
    (build disk root settings).summary.complete = true ∧ disk.exists? root = true ∧
      rel ∉ scannedPaths disk root settings.skipDirs := by
  obtain ⟨hc,hn⟩ := holds_build.of_absent h
  obtain ⟨he,ht⟩ := of_complete hc
  exact ⟨hc,he,ht ▸ hn⟩

theorem of_present_build {rel : String} (h : (build disk root settings).lookup rel = .present) :
    rel ∈ scannedPaths disk root settings.skipDirs :=
  List.mem_of_mem_take (holds_build.of_present h)

end Building
end Index
end ImportResolution.Existence
