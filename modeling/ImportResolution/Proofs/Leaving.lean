import ImportResolution.Diagnosis
import ImportResolution.Proofs.Nearest

/-! Walks that leave the root. A path escapes when at some point of its walk more steps have led up than
down, whether or not it comes back afterwards: steps up that nothing takes back stay in front, and no
later name can reach them. -/
namespace ImportResolution

-- No text is computed here, and no unifier should try to.
attribute [local irreducible] String.toList

namespace Path

/-- A segment that leads down. -/
def IsDown (s : String) : Prop := s ≠ "" ∧ s ≠ "." ∧ s ≠ ".."

instance (s : String) : Decidable (IsDown s) :=
  inferInstanceAs (Decidable (s ≠ "" ∧ s ≠ "." ∧ s ≠ ".."))

/-- The steps down and the steps up of a walk. -/
def downs (xs : List String) : Nat := xs.countP fun s => IsDown s
def ups (xs : List String) : Nat := xs.count ".."

/-- A walk that at some point has taken more steps up than down. -/
def Leaves (xs : List String) : Prop := ∃ front, front <+: xs ∧ downs front < ups front

instance (xs : List String) : Decidable (Leaves xs) :=
  decidable_of_iff (∃ front ∈ xs.inits, downs front < ups front) (by simp [Leaves])

section Counts
variable {s : String} (r : List String)

@[simp] theorem downs_nil : downs [] = 0 := rfl
@[simp] theorem ups_nil : ups [] = 0 := rfl

theorem counts_void (h : s = "" ∨ s = ".") : downs (s :: r) = downs r ∧ ups (s :: r) = ups r := by
  rcases h with rfl | rfl <;> simp [downs,ups,IsDown]

theorem counts_up : downs (".." :: r) = downs r ∧ ups (".." :: r) = ups r + 1 := by
  simp [downs,ups,IsDown]

theorem counts_down (h : IsDown s) : downs (s :: r) = downs r + 1 ∧ ups (s :: r) = ups r := by
  simp [downs,ups,h,h.2.2]

end Counts

/-- A walk that starts `depth` names below its top comes above it at some point. -/
def Surfaces (depth : Nat) (xs : List String) : Prop :=
  ∃ front, front <+: xs ∧ depth + downs front < ups front

theorem surfaces_nil (depth : Nat) : ¬Surfaces depth [] := by
  rintro ⟨front,hf,hl⟩
  rw [List.prefix_nil.mp hf] at hl
  simp at hl

/-- The first step decides, or else the walk goes on from where it led. -/
theorem surfaces_cons (depth : Nat) (s : String) (r : List String) :
    Surfaces depth (s :: r) ↔ ∃ front, front <+: r ∧ depth + downs (s :: front) < ups (s :: front) := by
  constructor
  · rintro ⟨front,hf,hl⟩
    rcases List.prefix_cons_iff.mp hf with rfl | ⟨more,rfl,hm⟩
    · simp at hl
    · exact ⟨more,hm,hl⟩
  · rintro ⟨front,hf,hl⟩
    exact ⟨s :: front,List.cons_prefix_cons.mpr ⟨rfl,hf⟩,hl⟩

section Steps
variable (depth : Nat) {s : String} (r : List String)

theorem surfaces_void (h : s = "" ∨ s = ".") : Surfaces depth (s :: r) ↔ Surfaces depth r := by
  rw [surfaces_cons]
  simp only [(counts_void _ h).1,(counts_void _ h).2]
  rfl

theorem surfaces_down (h : IsDown s) : Surfaces depth (s :: r) ↔ Surfaces (depth + 1) r := by
  rw [surfaces_cons]
  simp only [(counts_down _ h).1,(counts_down _ h).2,Surfaces,Nat.add_assoc,Nat.add_comm 1]

theorem surfaces_up : Surfaces (depth + 1) (".." :: r) ↔ Surfaces depth r := by
  rw [surfaces_cons]
  simp only [(counts_up _).1,(counts_up _).2,Surfaces]
  constructor <;>
  · rintro ⟨front,hf,hl⟩
    exact ⟨front,hf,by omega⟩

theorem surfaces_zero_up : Surfaces 0 (".." :: r) := by
  rw [surfaces_cons]
  exact ⟨[],List.nil_prefix,by rw [(counts_up _).1,(counts_up _).2]; simp⟩

end Steps

/-- Steps up are left at the bottom of the stack just when they were there before or the walk comes
above the names on it. -/
theorem up_mem_foldl_walkStep (xs : List String) {names : List String} (h : ∀ s ∈ names, s ≠ "..")
    (k : Nat) : ".." ∈ xs.foldl (walkStep false) (names ++ List.replicate k "..") ↔
      0 < k ∨ Surfaces names.length xs := by
  induction xs generalizing names k with
  | nil =>
    have hn : ".." ∉ names := fun hm => h _ hm rfl
    simp [hn,surfaces_nil,Nat.pos_iff_ne_zero]
  | cons s r ih =>
    rw [List.foldl_cons]
    by_cases hv : s = "" ∨ s = "."
    · simp only [surfaces_void _ _ hv,walkStep,if_pos hv,ih h k]
    by_cases hu : s = ".."
    · subst hu
      cases names with
      | nil =>
        have hstep : walkStep false ([] ++ List.replicate k "..") ".." =
            [] ++ List.replicate (k + 1) ".." := by cases k <;> rfl
        rw [hstep,ih (by simp)]
        simp [surfaces_zero_up]
      | cons last rest =>
        have hl : last ≠ ".." := h last (.head _)
        have hstep : walkStep false ((last :: rest) ++ List.replicate k "..") ".." =
            rest ++ List.replicate k ".." := by simp [walkStep,hl]
        rw [hstep,ih (fun x hx => h x (.tail _ hx)),List.length_cons,surfaces_up]
    · rw [not_or] at hv
      have hd : IsDown s := ⟨hv.1,hv.2,hu⟩
      have hn : ∀ x ∈ s :: names, x ≠ ".." := List.forall_mem_cons.mpr ⟨hu,h⟩
      rw [walkStep_name _ _ hv.1 hv.2 hu,← List.cons_append,ih hn,List.length_cons,surfaces_down _ _ hd]

theorem up_mem_walk (xs : List String) : ".." ∈ walk false xs ↔ Leaves xs := by
  have h := up_mem_foldl_walkStep xs (List.forall_mem_nil (fun s => s ≠ "..")) 0
  rw [walk,List.mem_reverse]
  simpa [Surfaces,Leaves] using h

/-- What a walk leaves starts with a step up when it has any. -/
theorem head?_walk (xs : List String) : (walk false xs).head? = some ".." ↔ ".." ∈ walk false xs := by
  obtain ⟨names,k,hn,hw⟩ := walk_ups xs
  rw [hw]
  cases k with
  | zero =>
    rw [List.replicate_zero,List.nil_append]
    exact ⟨List.mem_of_head?,fun hm => absurd hm hn⟩
  | succ k => simp [List.replicate_succ]

/-- A relative path without blanks around its segments escapes when its walk leaves the root. -/
theorem escapesRoot_normalize_iff {s : String} (hr : isRooted s = false)
    (h : ∀ x ∈ segments s, IsTidy x) : escapesRoot (normalize s) = true ↔ Leaves (segments s) := by
  have ht : Text.trim s = s := trim_of_segments fun x hx => (h x hx).trimmed
  have hp : '\\' ∉ s.toList := by
    rw [← ofSegments_segments s,mem_toList_ofSegments (by decide)]
    rintro ⟨x,hx,hb⟩
    exact (h x hx).posix hb
  have hform : normalize s = ofSegments (walk false (segments s)) := by
    simp [normalize,ht,toPosix_eq_self hp,hr]
  rw [escapesRoot_iff,hform,← up_mem_walk,← head?_walk]
  by_cases hn : walk false (segments s) = []
  · rw [hn]
    decide +kernel
  · rw [segments_ofSegments (fun x hx => (isStep_of_mem_walk hx).2.2) hn]

/-- What leads nowhere changes no walk. -/
theorem leaves_void {xs : List String} (h : ∀ s ∈ xs, s = "" ∨ s = ".") (ys : List String) :
    Leaves (xs ++ ys) ↔ Leaves ys := by
  have hl : ∀ zs, Leaves zs ↔ Surfaces 0 zs := fun zs => by simp [Leaves,Surfaces]
  induction xs with
  | nil => rfl
  | cons s r ih =>
    rw [List.cons_append,hl,surfaces_void 0 _ (h s (.head _)),← hl]
    exact ih fun x hx => h x (.tail _ hx)

section Join
variable {dir spec : String} (hdir : isRooted dir = false) (hspec : isRooted spec = false)
  (hd : ∀ s ∈ segments dir, IsTidy s) (hs : ∀ s ∈ segments spec, IsTidy s)
include hdir hspec hd hs

/-- A relative specifier escapes from a directory when the walk through both leaves the root. -/
theorem escapesRoot_join : escapesRoot (join dir spec) = true ↔
    Leaves (segments dir ++ segments spec) := by
  by_cases he : dir = "" ∨ dir = "."
  · have hvoid : ∀ s ∈ segments dir, s = "" ∨ s = "." := by
      rcases he with rfl | rfl <;> decide +kernel
    rw [join,if_pos he,escapesRoot_normalize_iff hspec hs,leaves_void hvoid]
  · have hr : isRooted (dir ++ "/" ++ spec) = false := by
      rw [String.append_assoc,Location.isRooted_append (not_or.mp he).1]
      exact hdir
    have ht : ∀ x ∈ segments (dir ++ "/" ++ spec), IsTidy x := by
      intro x hx
      rw [segments_slash] at hx
      exact (List.mem_append.mp hx).elim (hd x) (hs x)
    rw [join,if_neg he,escapesRoot_normalize_iff hr ht,segments_slash]

end Join
end Path

namespace Diagnosis
open ImportResolution.Path (IsTidy Leaves)

/-- From a directory below the root, a specifier that starts with a dot is told to leave the repository
when the walk through both leaves it at any point, though it may come back. -/
theorem escapes_iff_leaves {dir spec : String} (hdir : Path.isRooted dir = false)
    (hspec : StartsBy '.' spec) (hd : ∀ s ∈ Path.segments dir, IsTidy s)
    (hs : ∀ s ∈ Path.segments spec, IsTidy s) :
    (Path.escapesRoot (Path.join dir spec) = true ↔
      Leaves (Path.segments dir ++ Path.segments spec)) ∧
    ∀ importer : Importer, importer.dir = dir →
      (escapes spec importer = true ↔ Leaves (Path.segments dir ++ Path.segments spec)) := by
  have hslash : StartsBy '/' "/" := ⟨[],by simp⟩
  have hrel : Path.isRooted spec = false := hspec.startsWith_eq_false hslash (by decide)
  have hkind : Specifier.kind spec = .relative := if_pos (startsBy_iff.mp hspec)
  have hjoin := Path.escapesRoot_join hdir hrel hd hs
  refine ⟨hjoin,fun importer hi => ?_⟩
  rw [escapes,hkind,hi,← hjoin]
  simp

/-- The walk comes back to the directory that it started from, but above the root it was lost. -/
theorem escapes_iff_leaves_detour :
    Path.isRooted "src/app" = false ∧ StartsBy '.' "./x/../../../../src/app/main" ∧
      (∀ s ∈ Path.segments "src/app", IsTidy s) ∧
      (∀ s ∈ Path.segments "./x/../../../../src/app/main", IsTidy s) ∧
      Leaves (Path.segments "src/app" ++ Path.segments "./x/../../../../src/app/main") ∧
      Path.escapesRoot (Path.join "src/app" "./x/../../../../src/app/main") = true ∧
      escapes "./x/../../../../src/app/main" (.of "src/app/page.ts") = true := by
  have hdir : Path.isRooted "src/app" = false := by decide +kernel
  have hspec : StartsBy '.' "./x/../../../../src/app/main" := startsBy_iff.mpr (by decide +kernel)
  have hd : ∀ s ∈ Path.segments "src/app", IsTidy s := by decide +kernel
  have hs : ∀ s ∈ Path.segments "./x/../../../../src/app/main", IsTidy s := by decide +kernel
  have hl : Leaves (Path.segments "src/app" ++ Path.segments "./x/../../../../src/app/main") := by
    decide +kernel
  obtain ⟨hjoin,hflag⟩ := escapes_iff_leaves hdir hspec hd hs
  exact ⟨hdir,hspec,hd,hs,hl,hjoin.mpr hl,(hflag _ (by decide +kernel)).mpr hl⟩

end Diagnosis
end ImportResolution
