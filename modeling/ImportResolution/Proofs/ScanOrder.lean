import Mathlib.Data.List.Sort
import ImportResolution.Proofs.Reuse

/-! The order of a scan. Files and specifiers are sorted before the first of them is looked at, and
one that was found twice is dropped; every later step sees the same sequence, so that caps, budgets
and caches cut off at the same place. -/
namespace ImportResolution

-- No text is computed here, and no unifier should try to.
attribute [local irreducible] String.toList

/-- Sorted lists without repetition are told by their members. -/
theorem Text.distinctSorted_congr {xs ys : List String} (h : ∀ s, s ∈ xs ↔ s ∈ ys) :
    distinctSorted xs = distinctSorted ys := by
  refine (pairwise_distinctSorted xs).eq_of_mem_iff (pairwise_distinctSorted ys) fun s => ?_
  rw [mem_distinctSorted,mem_distinctSorted]
  exact h s

theorem FileSet.ofEntries_congr (root : String) {xs ys : List Entry} (h : ∀ e, e ∈ xs ↔ e ∈ ys) :
    ofEntries root xs = ofEntries root ys := by
  refine ext (Text.distinctSorted_congr fun s => ?_)
  simp only [List.mem_filterMap,h]

namespace Run

theorem specifiersOf_congr {xs ys : List String} (h : ∀ raw, raw ∈ xs ↔ raw ∈ ys) :
    specifiersOf xs = specifiersOf ys := by
  refine Text.distinctSorted_congr fun raw => ?_
  simp only [List.mem_filter,h]

/-- An importer with its specifiers in the order in which they are resolved. -/
def inOrder (item : String × List String) : String × List String := (item.1,specifiersOf item.2)

theorem map_importersOf (imports : Table (List String)) :
    (importersOf imports).map inOrder = importersOf (imports.map specifiersOf) := by
  have hm : ∀ xs, (sortByKey Prod.fst xs).map inOrder = sortByKey Prod.fst (xs.map inOrder) :=
    map_sortByKey fun _ => rfl
  unfold importersOf
  rw [hm]
  simp [Table.map,List.filter_map,Function.comp_def,inOrder]

section Steps
variable (r : Rules) (hashes : Table String)

/-- An importer is entered with nothing but its path and its sorted specifiers. -/
theorem resolveFile_congr (p : Progress) {a b : String × List String} (h : inOrder a = inOrder b) :
    resolveFile r hashes p a = resolveFile r hashes p b := by
  obtain ⟨hrel,hraws⟩ := Prod.mk.inj h
  unfold resolveFile enterFile
  rw [hrel,hraws]

theorem foldl_resolveFile_congr (p : Progress) {xs ys : List (String × List String)}
    (h : xs.map inOrder = ys.map inOrder) :
    xs.foldl (resolveFile r hashes) p = ys.foldl (resolveFile r hashes) p := by
  induction xs generalizing ys p with
  | nil =>
    obtain rfl := List.map_eq_nil_iff.mp h.symm
    rfl
  | cons x xs ih =>
    obtain ⟨y,ys,rfl,hy,hys⟩ := List.map_eq_cons_iff.mp h.symm
    rw [List.foldl_cons,List.foldl_cons,resolveFile_congr r hashes p hy]
    exact ih _ hys.symm

end Steps

/-- A request whose files and specifiers were found in another order, some of them again. -/
structure Request.Rescans (t q : Request) : Prop where
  entries : ∀ e, e ∈ t.entries ↔ e ∈ q.entries
  imports : List.Forall₂ (fun a b => a.1 = b.1 ∧ ∀ raw, raw ∈ a.2 ↔ raw ∈ b.2)
    t.imports.entries q.imports.entries
  rest : t = { q with entries := t.entries, imports := t.imports }

namespace Request.Rescans
variable {t q : Request} (h : t.Rescans q)
include h

theorem fileSet : t.fileSet = q.fileSet := by
  rw [h.rest]
  exact FileSet.ofEntries_congr q.root h.entries

theorem ruled : t.ruled = q.ruled := by
  unfold Request.ruled
  rw [h.fileSet,h.rest]
  rfl

theorem opened : t.opened = q.opened := by
  unfold Request.opened
  rw [h.ruled,h.fileSet,h.rest]
  rfl

theorem map_inOrder : (importersOf t.imports).map inOrder = (importersOf q.imports).map inOrder := by
  rw [map_importersOf,map_importersOf]
  refine congrArg importersOf (Table.ext (List.forall₂_eq_eq_eq ▸ ?_))
  rw [Table.map,Table.map,List.forall₂_map_left_iff,List.forall₂_map_right_iff]
  refine h.imports.imp fun a b hab => ?_
  rw [hab.1,specifiersOf_congr hab.2]

theorem closed : t.closed = q.closed := by
  unfold Request.closed
  rw [h.ruled,h.opened,foldl_resolveFile_congr _ _ _ h.map_inOrder,h.rest]

end Request.Rescans

/-- The order in which files and specifiers were found, and how often, leaves no trace. -/
theorem execute_of_rescans {t q : Request} (h : t.Rescans q) : execute t = execute q := by
  have hs : t.imports.size = q.imports.size := h.imports.length_eq
  rw [t.execute_eq,q.execute_eq,h.ruled,h.closed]
  unfold finish
  rw [hs,h.rest]

/-- The page with its files and its specifiers found the other way round, one of each twice. -/
def rescannedPage : Request :=
  { plainPage with
    entries := [⟨"/r/part.txt",none⟩,⟨"/r/page",none⟩,⟨"/r/part.txt",none⟩]
    imports := Table.ofList [("page",["./gone.txt","library","./part.txt","library"])] }

theorem execute_of_rescans_page :
    rescannedPage.Rescans plainPage ∧ execute rescannedPage = execute plainPage := by
  have h : rescannedPage.Rescans plainPage := by
    refine ⟨?_,?_,rfl⟩
    · simp [rescannedPage,plainPage,page,or_comm]
    · refine List.Forall₂.cons ⟨rfl,fun raw => ?_⟩ List.Forall₂.nil
      simp only [List.mem_cons,List.not_mem_nil,or_false]
      tauto
  exact ⟨h,execute_of_rescans h⟩

end Run
end ImportResolution
