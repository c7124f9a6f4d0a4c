import Mathlib.Data.List.Induction
import ImportResolution.PackageEntry
import ImportResolution.Proofs.Governing
import ImportResolution.Proofs.Shuffles

/-! The order of object members. What sees an object as a table does not see in which order its members
are written, at any depth; and the entries that a manifest declares are seen so. -/
namespace ImportResolution

theorem Text.nodup_distinct (xs : List String) : (distinct xs).Nodup := by
  cases xs with
  | nil => exact .nil
  | cons x rest =>
    have ih := nodup_distinct (rest.filter fun y => !y == x)
    rw [distinct] at ih ⊢
    rw [List.eraseDups_cons,List.nodup_cons]
    refine ⟨fun hm => ?_,ih⟩
    simpa using (List.mem_filter.mp (List.mem_eraseDups.mp hm)).2
termination_by xs.length
decreasing_by
  have h := List.length_filter_le (fun y => !y == x) rest
  simp only [List.length_cons]
  omega

namespace Table
variable {α : Type}

/-- Tables are equal where the same is found under each key. -/
theorem eq_of_find? {s t : Table α} (h : ∀ key, s.find? key = t.find? key) : s = t := by
  have hd : ∀ u : Table α, u.entries.Nodup := fun u =>
    List.Nodup.of_map Prod.fst (u.ordered.imp String.ne_of_lt)
  refine eq_of_perm ((List.perm_ext_iff_of_nodup (hd s) (hd t)).mpr ?_)
  rintro ⟨key,value⟩
  rw [← find?_eq_some_iff,h,find?_eq_some_iff]

theorem insert_comm (t : Table α) {a b : String} (hab : a ≠ b) (x y : α) :
    (t.insert a x).insert b y = (t.insert b y).insert a x := by
  refine eq_of_find? fun key => ?_
  by_cases ha : key = a
  · simp [ha,hab]
  · simp [ha]

theorem find?_ofList (xs : List (String × α)) (key : String) :
    (ofList xs).find? key = xs.reverse.lookup key := by
  induction xs using List.reverseRecOn with
  | nil => rfl
  | append_singleton xs x ih =>
    obtain ⟨name,value⟩ := x
    have hi : ofList (xs ++ [(name,value)]) = (ofList xs).insert name value := by simp [ofList]
    rw [hi,find?_insert,ih,List.reverse_append,List.reverse_singleton,List.singleton_append,
      List.lookup_cons]
    by_cases hk : key = name
    · simp [hk]
    · rw [if_neg hk,beq_false_of_ne hk]

end Table

namespace Json

/-- Values that differ in the order of object members alone, at any depth: neighbours of different keys
change places. Of members with one key the last counts, so that these keep their order. -/
inductive Reordered : Json → Json → Prop
  | refl (v : Json) : Reordered v v
  | trans {u v w : Json} (h : Reordered u v) (h' : Reordered v w) : Reordered u w
  | swap (front back : List (String × Json)) {m n : String × Json} (h : m.1 ≠ n.1) :
      Reordered (.obj (front ++ m :: n :: back)) (.obj (front ++ n :: m :: back))
  | element (front back : List Json) {v w : Json} (h : Reordered v w) :
      Reordered (.arr (front ++ v :: back)) (.arr (front ++ w :: back))
  | member (front back : List (String × Json)) (key : String) {v w : Json} (h : Reordered v w) :
      Reordered (.obj (front ++ (key,v) :: back)) (.obj (front ++ (key,w) :: back))

/-- Where no key is repeated, members may come in any order. -/
theorem Reordered.of_perm {ms ns : List (String × Json)} (h : ms.Perm ns)
    (hk : (ms.map Prod.fst).Nodup) : Reordered (.obj ms) (.obj ns) := by
  suffices hfront : ∀ front, Reordered (.obj (front ++ ms)) (.obj (front ++ ns)) from hfront []
  induction h with
  | nil => exact fun front => .refl _
  | cons m _ ih =>
    intro front
    simpa using ih (List.nodup_cons.mp hk).2 (front ++ [m])
  | swap m n ms =>
    refine fun front => .swap front ms fun he => (List.nodup_cons.mp hk).1 ?_
    rw [he]
    exact .head _
  | trans h _ ih ih' =>
    have hk' := (h.map Prod.fst).nodup_iff.mp hk
    exact fun front => .trans (ih hk front) (ih' hk' front)

section Views
variable {β : Type} {f : Json → β}

/-- What is seen under each key of an object. -/
def tableBy (f : Json → β) (ms : List (String × Json)) : Table β :=
  Table.ofList (ms.map fun m => (m.1,f m.2))

theorem find?_tableBy (f : Json → β) (ms : List (String × Json)) (key : String) :
    (tableBy f ms).find? key = ((obj ms).member? key).map f := by
  rw [tableBy,Table.find?_ofList,← List.map_reverse]
  show _ = (ms.reverse.lookup key).map f
  induction ms.reverse with
  | nil => rfl
  | cons m rest ih =>
    obtain ⟨name,v⟩ := m
    simp only [List.map_cons,List.lookup_cons]
    split
    · rfl
    · exact ih

theorem tableBy_swap (front back : List (String × Json)) {m n : String × Json} (h : m.1 ≠ n.1) :
    tableBy f (front ++ m :: n :: back) = tableBy f (front ++ n :: m :: back) := by
  simp only [tableBy,Table.ofList,List.map_append,List.map_cons,List.foldl_append,List.foldl_cons,
    Table.insert_comm _ h]

theorem tableBy_member (front back : List (String × Json)) (key : String) {v w : Json}
    (h : f v = f w) : tableBy f (front ++ (key,v) :: back) = tableBy f (front ++ (key,w) :: back) := by
  simp only [tableBy,List.map_append,List.map_cons,h]

/-- What sees a list by its elements, and an object as a table. -/
structure IsOrderless (f : Json → β) : Prop where
  arr : ∀ xs ys, xs.map f = ys.map f → f (.arr xs) = f (.arr ys)
  obj : ∀ ms ns, tableBy f ms = tableBy f ns → f (.obj ms) = f (.obj ns)

variable (hf : IsOrderless f) {v w : Json} (h : Reordered v w)
include hf h

theorem IsOrderless.eq : f v = f w := by
  induction h with
  | refl => rfl
  | trans _ _ ih ih' => exact ih.trans ih'
  | swap front back hk => exact hf.obj _ _ (tableBy_swap front back hk)
  | element front back _ ih => exact hf.arr _ _ (by simp only [List.map_append,List.map_cons,ih])
  | member front back key _ ih => exact hf.obj _ _ (tableBy_member front back key ih)

theorem IsOrderless.map_member? (key : String) : (v.member? key).map f = (w.member? key).map f := by
  induction h with
  | refl => rfl
  | trans _ _ ih ih' => exact ih.trans ih'
  | swap front back hk => rw [← find?_tableBy,← find?_tableBy,tableBy_swap front back hk]
  | element => rfl
  | member front back name h =>
    rw [← find?_tableBy,← find?_tableBy,tableBy_member front back name (hf.eq h)]

end Views

theorem mem_of_member? {ms : List (String × Json)} {key : String} {v : Json}
    (h : (obj ms).member? key = some v) : (key,v) ∈ ms :=
  List.mem_reverse.mp (TsConfig.Loader.mem_of_lookup h)

/-- The text stands in the value, in a list or under a key. -/
inductive Occurs (s : String) : Json → Prop
  | str : Occurs s (.str s)
  | element {v : Json} {xs : List Json} (hv : v ∈ xs) (h : Occurs s v) : Occurs s (.arr xs)
  | member {v w : Json} {key : String} (hw : v.member? key = some w) (h : Occurs s w) : Occurs s v

end Json

namespace PackageEntry
open Json (Reordered Occurs IsOrderless)

theorem exportTargetsAll_eq (xs : List Json) : exportTargetsAll xs = (xs.map exportTargets).flatten := by
  induction xs with
  | nil => rfl
  | cons x rest ih => rw [exportTargetsAll,ih,List.map_cons,List.flatten_cons]

theorem exportTargetsOf_eq (ms : List (String × Json)) :
    exportTargetsOf ms = ms.map fun m => (m.1,exportTargets m.2) := by
  induction ms with
  | nil => rfl
  | cons m rest ih => rw [exportTargetsOf,ih,List.map_cons]

theorem isOrderless_exportTargets : IsOrderless exportTargets where
  arr xs ys h := by rw [exportTargets,exportTargets,exportTargetsAll_eq,exportTargetsAll_eq,h]
  obj ms ns h := by
    simp only [exportTargets,exportTargetsOf_eq,select]
    rw [Json.tableBy,Json.tableBy] at h
    rw [h]

theorem isOrderless_str? : IsOrderless Json.str? := ⟨fun _ _ _ => rfl,fun _ _ _ => rfl⟩

/-- An object passes on what one of its keys stands for. -/
theorem exists_of_mem_select {members : List (String × List String)} {s : String}
    (h : s ∈ select members) :
    ∃ key targets, (Table.ofList members).find? key = some targets ∧ s ∈ targets := by
  unfold select at h
  generalize Table.ofList members = t at h
  simp only at h
  split at h
  · next targets hroot => exact ⟨".",targets,hroot,h⟩
  · split at h
    · cases h
    · split at h
      · obtain ⟨targets,ht,hs⟩ := List.mem_flatten.mp h
        obtain ⟨⟨key,value⟩,he,rfl⟩ := List.mem_map.mp ht
        exact ⟨key,value,Table.find?_eq_some_iff.mpr he,hs⟩
      · obtain ⟨targets,ht,hs⟩ := List.mem_flatten.mp h
        obtain ⟨key,-,hk⟩ := List.mem_filterMap.mp ht
        exact ⟨key,targets,hk,hs⟩

section Occurs
variable {s : String}

mutual

theorem occurs_of_mem_exportTargets : ∀ v : Json, s ∈ exportTargets v → Occurs s v
  | .str t, h => by
    obtain rfl : s = t := by simpa [exportTargets] using h
    exact .str
  | .arr xs, h => by
    rw [exportTargets,exportTargetsAll_eq] at h
    obtain ⟨targets,ht,hs⟩ := List.mem_flatten.mp h
    obtain ⟨v,hv,rfl⟩ := List.mem_map.mp ht
    exact .element hv (occurs_of_mem_elements xs v hv hs)
  | .obj ms, h => by
    rw [exportTargets,exportTargetsOf_eq] at h
    obtain ⟨key,targets,hk,hs⟩ := exists_of_mem_select h
    rw [← Json.tableBy,Json.find?_tableBy] at hk
    obtain ⟨w,hw,rfl⟩ := Option.map_eq_some_iff.mp hk
    exact .member hw (occurs_of_mem_members ms _ (Json.mem_of_member? hw) hs)
  | .null, h | .bool _, h | .int _, h | .decimal _ _, h => by simp [exportTargets] at h

theorem occurs_of_mem_elements : ∀ xs : List Json, ∀ v ∈ xs, s ∈ exportTargets v → Occurs s v
  | [] => List.forall_mem_nil _
  | v :: rest => List.forall_mem_cons.mpr ⟨occurs_of_mem_exportTargets v,occurs_of_mem_elements rest⟩

theorem occurs_of_mem_members :
    ∀ ms : List (String × Json), ∀ m ∈ ms, s ∈ exportTargets m.2 → Occurs s m.2
  | [] => List.forall_mem_nil _
  | (_,v) :: rest =>
    List.forall_mem_cons.mpr ⟨occurs_of_mem_exportTargets v,occurs_of_mem_members rest⟩

end

end Occurs

theorem mem_candidates {manifest : Json} {s : String} :
    s ∈ candidates manifest ↔ Text.isAllBlank s = false ∧
      ((∃ exports, manifest.member? "exports" = some exports ∧ s ∈ exportTargets exports) ∨
        ∃ field ∈ entryFields, manifest.member? field = some (.str s)) := by
  have hsingle : ∀ field, (manifest.member? field).bind Json.str? = some s ↔
      manifest.member? field = some (.str s) := by
    intro field
    rw [Option.bind_eq_some_iff]
    constructor
    · rintro ⟨v,hv,hs⟩
      cases v <;> cases hs
      exact hv
    · exact fun h => ⟨_,h,rfl⟩
  simp only [candidates,Text.distinct,List.mem_eraseDups,List.mem_filter,List.mem_append,
    List.mem_filterMap,hsingle,Bool.not_eq_true']
  cases manifest.member? "exports" <;> simp [and_comm]

theorem candidates_eq {manifest other : Json} (h : Reordered manifest other) :
    candidates other = candidates manifest := by
  have hexports := isOrderless_exportTargets.map_member? h "exports"
  have hsingle : ∀ field, (manifest.member? field).bind Json.str? =
      (other.member? field).bind Json.str? := fun field => by
    simpa [Option.bind_map] using
      congrArg (Option.bind · id) (isOrderless_str?.map_member? h field)
  simp only [candidates,hexports,hsingle]

/-- The entries that a manifest declares do not hang on the order of its keys. None is blank and none is
told twice; each stands under its exports or is one of its single fields, and no field is left out. -/
theorem candidates_of_reordered (manifest : Json) :
    (∀ other, Reordered manifest other → candidates other = candidates manifest) ∧
      (∀ s ∈ candidates manifest, Text.isAllBlank s = false) ∧ (candidates manifest).Nodup ∧
      (∀ s ∈ candidates manifest,
        (∃ exports, manifest.member? "exports" = some exports ∧ Occurs s exports) ∨
          ∃ field ∈ ["main","module","source"], manifest.member? field = some (.str s)) ∧
      ∀ field ∈ ["main","module","source"], ∀ s, manifest.member? field = some (.str s) →
        Text.isAllBlank s = false → s ∈ candidates manifest := by
  refine ⟨fun other h => candidates_eq h,fun s hs => (mem_candidates.mp hs).1,Text.nodup_distinct _,
    fun s hs => ?_,fun field hf s hs hb => ?_⟩
  · rcases (mem_candidates.mp hs).2 with ⟨exports,he,hm⟩ | hfield
    · exact .inl ⟨exports,he,occurs_of_mem_exportTargets exports hm⟩
    · exact .inr hfield
  · exact mem_candidates.mpr ⟨hb,.inr ⟨field,hf,hs⟩⟩

theorem candidates_of_reordered_conditions :
    let conditions := [("browser",Json.str "./b.js"),("require",.str "./r.cjs"),("import",.str "./i.mjs")]
    let manifest := Json.obj [("main",.str "./m.js"),("exports",.obj [(".",.obj conditions)])]
    let other := Json.obj [("exports",.obj [(".",.obj conditions.reverse)]),("main",.str "./m.js")]
    Reordered manifest other ∧ candidates other = candidates manifest ∧
      candidates manifest = ["./i.mjs","./r.cjs","./b.js","./m.js"] := by
  intro conditions manifest other
  have hc : Reordered (.obj conditions) (.obj conditions.reverse) :=
    .of_perm conditions.reverse_perm.symm (by decide)
  have hr : Reordered manifest other :=
    .trans (.swap [] [] (by decide)) (.member [] _ "exports" (.member [] [] "." hc))
  exact ⟨hr,(candidates_of_reordered manifest).1 other hr,by decide +kernel⟩

end PackageEntry
end ImportResolution
