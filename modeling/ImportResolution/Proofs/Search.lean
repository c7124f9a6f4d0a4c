import ImportResolution.Run.Resolve

/-! What a search for a specifier may change: the packages it has met, the use of the existence index,
and the counters of the stages between the first and the last. All else in the state of a run stays as
it was. -/
namespace ImportResolution

namespace StageTracker

/-- Every attempt of every stage ended as a hit or as a miss. -/
def IsBalanced (t : StageTracker) : Prop :=
  ∀ s, (t.get s).hits + (t.get s).misses = (t.get s).attempts

theorem isBalanced_empty : IsBalanced {} := by intro s; cases s <;> rfl

theorem get_attempted_self (t : StageTracker) (s : Stage) (hit : Bool) :
    (t.attempted s hit).get s =
      { t.get s with
        attempts := (t.get s).attempts + 1
        hits := (t.get s).hits + if hit then 1 else 0
        misses := (t.get s).misses + if hit then 0 else 1 } := by
  cases hit <;> simp [attempted,attempt,mark]

@[simp] theorem get_attempted_of_ne (t : StageTracker) {s u : Stage} (h : u ≠ s) (hit : Bool) :
    (t.attempted s hit).get u = t.get u := by
  simp [attempted,attempt,mark,h]

@[simp] theorem get_markExhausted_of_ne (t : StageTracker) {s u : Stage} (h : u ≠ s) :
    (t.markExhausted s).get u = t.get u := by
  simp [markExhausted,h]

theorem IsBalanced.attempted {t : StageTracker} (h : t.IsBalanced) (s : Stage) (hit : Bool) :
    (t.attempted s hit).IsBalanced := by
  intro u
  by_cases hu : u = s
  · subst hu
    have := h u
    rw [get_attempted_self]
    cases hit <;> simp <;> omega
  · rw [get_attempted_of_ne t hu]
    exact h u

theorem IsBalanced.markExhausted {t : StageTracker} (h : t.IsBalanced) (s : Stage) :
    (t.markExhausted s).IsBalanced := by
  intro u
  have := h u
  by_cases hu : u = s
  · subst hu; simpa [StageTracker.markExhausted] using this
  · rw [get_markExhausted_of_ne t hu]
    exact this

end StageTracker

namespace Run

/-- The step from `s` to `t` is that of a search. -/
structure Searched (s t : State) : Prop where
  configs : t.configs = s.configs
  memory : t.memory = s.memory
  graph : t.graph = s.graph
  cacheUsage : t.cacheUsage = s.cacheUsage
  tally : t.tally = s.tally
  normalize : t.stages.get .normalize = s.stages.get .normalize
  classify : t.stages.get .classify = s.stages.get .classify
  balanced : s.stages.IsBalanced → t.stages.IsBalanced

namespace Searched

theorem refl (s : State) : Searched s s := ⟨rfl,rfl,rfl,rfl,rfl,rfl,rfl,id⟩

theorem trans {s t u : State} (h : Searched s t) (k : Searched t u) : Searched s u where
  configs := k.configs.trans h.configs
  memory := k.memory.trans h.memory
  graph := k.graph.trans h.graph
  cacheUsage := k.cacheUsage.trans h.cacheUsage
  tally := k.tally.trans h.tally
  normalize := k.normalize.trans h.normalize
  classify := k.classify.trans h.classify
  balanced := fun hb => k.balanced (h.balanced hb)

theorem withMemory {s t : State} (h : Searched s t) (m : Cache.Memory) :
    Searched { s with memory := m } { t with memory := m } :=
  { h with memory := rfl }

theorem of_packages (s : State) (p : PackageEntries) : Searched s { s with packages := p } :=
  ⟨rfl,rfl,rfl,rfl,rfl,rfl,rfl,id⟩

theorem of_attempt (s : State) (u : IndexUsage) {stage : Stage} (hn : Stage.normalize ≠ stage)
    (hc : Stage.classify ≠ stage) (hit : Bool) :
    Searched s { s with usage := u, stages := s.stages.attempted stage hit } where
  configs := rfl
  memory := rfl
  graph := rfl
  cacheUsage := rfl
  tally := rfl
  normalize := StageTracker.get_attempted_of_ne s.stages hn hit
  classify := StageTracker.get_attempted_of_ne s.stages hc hit
  balanced := fun h => h.attempted stage hit

theorem of_language (s : State) (hit : Bool) :
    Searched s { s with stages := s.stages.attempted .languageResolver hit } :=
  of_attempt s s.usage (by decide) (by decide) hit

theorem of_build (s : State) (hit : Bool) :
    Searched s { s with stages := s.stages.attempted .buildSystemResolver hit } :=
  of_attempt s s.usage (by decide) (by decide) hit

theorem of_probe (s : State) (u : IndexUsage) (hit : Bool) :
    Searched s { s with usage := u, stages := s.stages.attempted .filesystemProbe hit } :=
  of_attempt s u (by decide) (by decide) hit

theorem of_exhausted (s : State) :
    Searched s { s with stages := s.stages.markExhausted .filesystemProbe } where
  configs := rfl
  memory := rfl
  graph := rfl
  cacheUsage := rfl
  tally := rfl
  normalize := StageTracker.get_markExhausted_of_ne s.stages (s := .filesystemProbe) (by decide)
  classify := StageTracker.get_markExhausted_of_ne s.stages (s := .filesystemProbe) (by decide)
  balanced := fun h => h.markExhausted .filesystemProbe

end Searched

variable (r : Rules) (q : Query) (e : Effort) (s : State)

theorem askBuild_searched : Searched s (askBuild r q e s).2.2 := by
  simp only [askBuild]
  split
  · exact .refl s
  · split
    · exact .of_build s _
    · exact .refl s

theorem askBuild_packages (e : Effort) (s : State) :
    (askBuild r q e s).2.2.packages = s.packages := by
  unfold askBuild
  split
  · rfl
  · split <;> rfl

theorem generatedMatch_packages (e : Effort) (s : State) :
    (generatedMatch r q e s).2.2.packages = s.packages :=
  askBuild_packages r q e s

theorem generatedMatch_searched : Searched s (generatedMatch r q e s).2.2 := askBuild_searched r q e s

theorem packageEntry_searched (dir : String) : Searched s (packageEntry r dir s).2 := by
  simp only [packageEntry]
  split
  · exact .refl s
  · exact .of_packages s _

theorem probe_searched : Searched s (probe r q e s).2.2 := by
  unfold probe
  split
  · exact .of_probe s s.usage false
  · exact .of_probe s _ _

theorem locate_searched : Searched s (locate r q s).2 := by
  have hl := Searched.of_language s
    (Relative.resolve? r.files q.spec (Relative.base q.spec q.importer) q.importer).isSome
  simp only [locate]
  split
  · exact hl
  · exact hl.trans (packageEntry_searched r _ _)

theorem seek_searched : Searched s (seek r q e s).2.2 := by
  have hg := generatedMatch_searched r q e s
  have hp := probe_searched r q (generatedMatch r q e s).2.1 (generatedMatch r q e s).2.2
  simp only [seek]
  split
  · exact hg
  · split
    · exact (hg.trans hp).trans (.of_exhausted _)
    · exact hg.trans hp

theorem computePath_searched : Searched s (computePath r q e s).2.2 := by
  have hl := locate_searched r q s
  simp only [computePath]
  split
  · next heq => rw [heq] at hl; exact hl
  · next heq => rw [heq] at hl; exact hl.trans (seek_searched r q e _)

theorem aliased_searched (target : String) : Searched s (aliased r target s).2 := by
  unfold aliased
  cases r.files.candidate? target with
  | some path => exact Searched.refl s
  | none => exact packageEntry_searched r s target

theorem firstAliased_searched (targets : List String) : Searched s (firstAliased r targets s).2 := by
  induction targets generalizing s with
  | nil => exact Searched.refl s
  | cons target rest ih =>
    have ha := aliased_searched r s target
    rw [firstAliased]
    split
    · exact ha
    · exact ha.trans (ih _)

theorem computeBare_searched : Searched s (computeBare r q s).2 := by
  simp only [computeBare]
  split
  · exact .refl s
  · have ha := firstAliased_searched r s (r.aliases.candidates q.spec)
    split
    · next heq => rw [heq] at ha; exact ha
    · next t heq =>
      rw [heq] at ha
      have hl := ha.trans
        (.of_language t (Bare.resolve? r.files q.spec q.importer r.names).isSome)
      split <;> exact hl

theorem compute_searched : Searched s (compute r q e s).2.2 := by
  simp only [compute]
  split
  · exact computePath_searched r q e s
  · exact computeBare_searched r q s

end Run
end ImportResolution
