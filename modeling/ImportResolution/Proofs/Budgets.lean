import ImportResolution.Proofs.Acceleration

/-! What a search spends. Its candidates and looks are paid from a purse of its own, and it ends at the
first hit, past the last candidate, or at the first thing that it is refused. -/
namespace ImportResolution

namespace Purse
variable (p : Purse) (kind : BudgetKind)

@[simp] theorem exhaust_candidates : (p.exhaust kind).candidates = p.candidates := rfl

@[simp] theorem exhaust_probes : (p.exhaust kind).probes = p.probes := rfl

/-- The first thing that is refused is noted alone. -/
theorem exhausted_exhaust {p : Purse} (h : p.exhausted = []) (kind : BudgetKind) :
    (p.exhaust kind).exhausted = [kind] := by
  rw [exhaust,h]
  cases kind <;> rfl

end Purse

-- No text is computed here, and no unifier should try to.
attribute [local irreducible] String.toList

namespace Probe
variable {site : ProbeSite} {s t u : ProbeState} {cs ds : List String}

theorem Examines.refl (site : ProbeSite) (s : ProbeState) : Examines site [] s s :=
  ⟨rfl,rfl,rfl,rfl⟩

theorem Examines.trans (h : Examines site cs s t) (hd : Examines site ds t u) :
    Examines site (cs ++ ds) s u where
  candidates := by
    rw [List.length_append,Nat.add_comm cs.length,← Nat.add_assoc,hd.candidates,h.candidates]
  probes := by
    rw [List.filterMap_append,List.length_append,Nat.add_comm (cs.filterMap _).length,
      ← Nat.add_assoc,hd.probes,h.probes]
  checked := by
    rw [List.filterMap_append,List.reverse_append,List.append_assoc,← h.checked,hd.checked]
  exhausted := hd.exhausted.trans h.exhausted

/-- The course of a search to its end, over the candidates that it took and those that it left. -/
inductive Course (site : ProbeSite) (s : ProbeState) :
    List String → List String → Option String × ProbeState → Prop
  | found {front rest : List String} {c path : String} {t : ProbeState}
      (misses : ∀ d ∈ front, hit? site d = none) (hit : hit? site c = some path)
      (examines : Examines site (front ++ [c]) s t) : Course site s (front ++ [c]) rest (some path,t)
  | through {taken : List String} {t : ProbeState} (misses : ∀ d ∈ taken, hit? site d = none)
      (examines : Examines site taken s t) : Course site s taken [] (none,t)
  | noCandidate {taken rest : List String} {c : String} {t : ProbeState}
      (misses : ∀ d ∈ taken, hit? site d = none) (examines : Examines site taken s t)
      (spent : t.purse.candidates = 0) :
      Course site s taken (c :: rest) (none,{ t with purse := t.purse.exhaust .fallbackCandidates })
  | noLook {front rest : List String} {c : String} {t u : ProbeState}
      (misses : ∀ d ∈ front, hit? site d = none) (examines : Examines site front s t)
      (asked : (lookPlace? site c).isSome = true) (spent : t.purse.probes = 0)
      (paid : u.purse.candidates + 1 = t.purse.candidates)
      (purse : u.purse = { t.purse with candidates := u.purse.candidates })
      (checked : u.checked = t.checked) :
      Course site s (front ++ [c]) rest (none,{ u with purse := u.purse.exhaust .filesystemProbe })

/-- A search that goes on after a candidate has the course of the rest. -/
theorem Course.cons {c : String} {taken rest : List String} {out : Option String × ProbeState}
    (hm : hit? site c = none) (hx : Examines site [c] s t) (h : Course site t taken rest out) :
    Course site s (c :: taken) rest out := by
  have hmisses : ∀ {front : List String}, (∀ d ∈ front, hit? site d = none) →
      ∀ d ∈ c :: front, hit? site d = none := by
    intro front hf d hd
    rcases List.mem_cons.mp hd with rfl | hd
    · exact hm
    · exact hf d hd
  cases h with
  | found misses hit examines =>
    exact .found (hmisses misses) hit (hx.trans examines)
  | through misses examines => exact .through (hmisses misses) (hx.trans examines)
  | noCandidate misses examines spent =>
    exact .noCandidate (hmisses misses) (hx.trans examines) spent
  | noLook misses examines asked spent paid purse checked =>
    exact .noLook (hmisses misses) (hx.trans examines) asked spent paid purse checked

/-- Every search takes its course. -/
theorem search_course (site : ProbeSite) (cs : List String) (s : ProbeState) :
    ∃ taken rest, cs = taken ++ rest ∧ Course site s taken rest (search site cs s) := by
  induction cs generalizing s with
  | nil => exact ⟨[],[],rfl,.through (by simp) (.refl site s)⟩
  | cons c rest ih =>
    cases search_cons site c rest s with
    | noCandidate hspent he =>
      rw [he]
      exact ⟨[],c :: rest,rfl,.noCandidate (by simp) (.refl site s) hspent⟩
    | noLook t hasked hspent hpaid hpurse hchecked he =>
      rw [he]
      have hc : Course site s ([] ++ [c]) rest _ :=
        .noLook (by simp) (.refl site s) hasked hspent hpaid hpurse hchecked
      exact ⟨[c],rest,rfl,hc⟩
    | examined t hx he =>
      rw [he]
      cases hh : hit? site c with
      | some path =>
        have hc : Course site s ([] ++ [c]) rest (some path,t) := .found (by simp) hh hx
        exact ⟨[c],rest,rfl,hc⟩
      | none =>
        obtain ⟨taken,left,rfl,hc⟩ := ih t
        exact ⟨c :: taken,left,rfl,hc.cons hh hx⟩

/-- What is spent is what is taken and what is looked at. -/
theorem Course.spends {taken rest : List String} {out : Option String × ProbeState}
    (h : Course site s taken rest out) :
    taken.length + out.2.purse.candidates = s.purse.candidates ∧
      out.2.checked.length + out.2.purse.probes = s.checked.length + s.purse.probes := by
  have hx : ∀ {cs : List String} {t : ProbeState}, Examines site cs s t →
      cs.length + t.purse.candidates = s.purse.candidates ∧
        t.checked.length + t.purse.probes = s.checked.length + s.purse.probes := by
    intro cs t h
    refine ⟨by rw [Nat.add_comm,h.candidates],?_⟩
    rw [h.checked,← h.probes,List.length_append,List.length_reverse]
    omega
  cases h with
  | found _ _ examines => exact hx examines
  | through _ examines => exact hx examines
  | noCandidate _ examines _ => exact (hx examines :)
  | noLook _ examines _ _ paid purse checked =>
    obtain ⟨hcandidates,hlooks⟩ := hx examines
    constructor
    · rw [List.length_append,List.length_singleton,Purse.exhaust_candidates,Nat.add_assoc,
        Nat.add_comm 1,paid,hcandidates]
    · rw [Purse.exhaust_probes,purse,checked,hlooks]

/-- A search with a purse of its own. -/
def findAfresh (site : ProbeSite) (policy : BudgetPolicy) (usage : IndexUsage) (spec : String)
    (importer : Importer) : Option String × ProbeState :=
  find site spec importer { purse := .of policy, usage }

/-- What a search was refused: to climb as high as its specifier, its next candidate when as many as
allowed had been taken in vain, or a look at the last that it took when as many as allowed had been made
in vain. -/
inductive Refusal (site : ProbeSite) (policy : BudgetPolicy) (spec : String)
    (taken rest checked : List String) : BudgetKind → Prop
  | depth (relative : Text.afterHead? "/" spec = none) (high : policy.maxFallbackDepth < climbs spec)
      (untaken : taken = []) (unlooked : checked = []) :
      Refusal site policy spec taken rest checked .fallbackDepth
  | candidate (more : rest ≠ []) (spent : taken.length = policy.maxFallbackCandidates)
      (misses : ∀ c ∈ taken, hit? site c = none)
      (looked : checked = (taken.filterMap (lookPlace? site)).reverse) :
      Refusal site policy spec taken rest checked .fallbackCandidates
  | look (front : List String) (last : String) (takes : taken = front ++ [last])
      (asked : (lookPlace? site last).isSome = true)
      (spent : checked.length = policy.maxFilesystemProbes)
      (misses : ∀ c ∈ front, hit? site c = none)
      (looked : checked = (front.filterMap (lookPlace? site)).reverse) :
      Refusal site policy spec taken rest checked .filesystemProbe

/-- How a search with a fresh purse has ended, over the candidates that it took and those that it left. -/
structure Ended (site : ProbeSite) (policy : BudgetPolicy) (spec : String) (taken rest : List String)
    (out : Option String × ProbeState) : Prop where
  candidates : taken.length + out.2.purse.candidates = policy.maxFallbackCandidates
  looks : out.2.checked.length + out.2.purse.probes = policy.maxFilesystemProbes
  found : ∀ path, out.1 = some path → out.2.purse.exhausted = [] ∧
    out.2.checked = (taken.filterMap (lookPlace? site)).reverse ∧
    ∃ front c, taken = front ++ [c] ∧ hit? site c = some path ∧ ∀ d ∈ front, hit? site d = none
  through : out.1 = none → out.2.purse.exhausted = [] → rest = [] ∧
    out.2.checked = (taken.filterMap (lookPlace? site)).reverse ∧ ∀ c ∈ taken, hit? site c = none
  refused : out.2.purse.exhausted ≠ [] → out.1 = none ∧ ∃ kind, out.2.purse.exhausted = [kind] ∧
    Refusal site policy spec taken rest out.2.checked kind

theorem Course.ended {policy : BudgetPolicy} {spec : String} {taken rest : List String}
    {out : Option String × ProbeState} (hp : s.purse = .of policy) (hs : s.checked = [])
    (h : Course site s taken rest out) : Ended site policy spec taken rest out := by
  obtain ⟨hcandidates,hlooks⟩ := h.spends
  have hfresh : s.purse.exhausted = [] := by rw [hp]; rfl
  have hchecked : ∀ {cs : List String} {t : ProbeState}, Examines site cs s t →
      t.checked = (cs.filterMap (lookPlace? site)).reverse := by
    intro cs t hx
    rw [hx.checked,hs,List.append_nil]
  have hunrefused : ∀ {cs : List String} {t : ProbeState}, Examines site cs s t →
      t.purse.exhausted = [] := fun hx => hx.exhausted.trans hfresh
  rw [hp] at hcandidates
  rw [hs,hp,List.length_nil,Nat.zero_add] at hlooks
  cases h with
  | found misses hit examines =>
    refine ⟨hcandidates,hlooks,fun path hpath => ?_,nofun,
      fun hspent => absurd (hunrefused examines) hspent⟩
    obtain rfl := Option.some.inj hpath
    exact ⟨hunrefused examines,hchecked examines,_,_,rfl,hit,misses⟩
  | through misses examines =>
    exact ⟨hcandidates,hlooks,nofun,fun _ _ => ⟨rfl,hchecked examines,misses⟩,
      fun hspent => absurd (hunrefused examines) hspent⟩
  | noCandidate misses examines spent =>
    have hkinds := Purse.exhausted_exhaust (hunrefused examines) .fallbackCandidates
    refine ⟨hcandidates,hlooks,nofun,fun _ hnone => ?_,fun _ => ⟨rfl,_,hkinds,?_⟩⟩
    · cases hkinds.symm.trans hnone
    · rw [Purse.exhaust_candidates,spent,Nat.add_zero] at hcandidates
      exact .candidate (by simp) hcandidates misses (hchecked examines :)
  | noLook misses examines asked spent paid purse checked =>
    have hu : _ = [] := (congrArg Purse.exhausted purse).trans (hunrefused examines)
    have hkinds := Purse.exhausted_exhaust hu .filesystemProbe
    refine ⟨hcandidates,hlooks,nofun,fun _ hnone => ?_,fun _ => ⟨rfl,_,hkinds,?_⟩⟩
    · cases hkinds.symm.trans hnone
    · rw [Purse.exhaust_probes,purse,spent,Nat.add_zero] at hlooks
      exact .look _ _ rfl asked hlooks misses (checked.trans (hchecked examines))

/-- A search finds the first hit of its candidates, or has examined them all, or was refused one thing,
and says which. -/
theorem findAfresh_ended (site : ProbeSite) (policy : BudgetPolicy) (usage : IndexUsage)
    (spec : String) (importer : Importer) :
    ∃ taken rest, candidates (allBases spec importer) = taken ++ rest ∧
      Ended site policy spec taken rest (findAfresh site policy usage spec importer) := by
  unfold findAfresh find
  rcases bases_cases spec importer (.of policy) with hb | ⟨hr,hd,hb⟩
  · rw [hb]
    obtain ⟨taken,rest,hcs,hc⟩ := search_course site (candidates (allBases spec importer))
      { purse := .of policy, usage }
    exact ⟨taken,rest,hcs,hc.ended rfl rfl⟩
  · rw [hb]
    exact ⟨[],_,rfl,Nat.zero_add _,Nat.zero_add _,nofun,nofun,fun _ =>
      ⟨rfl,_,Purse.exhausted_exhaust rfl _,.depth hr hd rfl rfl⟩⟩

/-- With one look allowed, the second candidate is taken and not looked for. -/
example : (findAfresh (plainSite "/r" ⟨sourceDisk,{}⟩) ⟨1,48,16,false,.disabled,1.0⟩ {} "./missing"
    (.of "main.ts")).2.purse = ⟨0,46,16,[.filesystemProbe]⟩ := by
  decide +kernel

end Probe
end ImportResolution
