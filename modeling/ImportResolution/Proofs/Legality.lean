import ImportResolution.Reason

/-! Decisions as free text. A written decision is accepted when it is legal and at no other time: one of a
resolved specifier says nothing, and one of an unresolved specifier has a known name in each field, where
some causes call for no action. Whatever is refused is refused with a complaint. -/
namespace ImportResolution

theorem FailureCause.forbidsActionable_iff {c : FailureCause} :
    c.forbidsActionable = true ↔ c ∈ [parserArtifact,resolverGap,generatedExpectedMissing] := by
  cases c <;> decide

theorem Disposition.name_inj {d e : Disposition} (h : d.name = e.name) : d = e :=
  Option.some.inj (by rw [← ofName?_name d,h,ofName?_name])

namespace DecisionFields

/-- A field that is absent or blank. -/
def IsVoid (value : Option String) : Prop := ∀ v ∈ value, ∀ c ∈ v.toList, Text.isBlank c = true

/-- What a written decision may say. -/
inductive IsLegal (f : DecisionFields) : Prop
  | resolved (hstate : f.state = some "resolved") (hcode : IsVoid f.reasonCode)
      (hcause : IsVoid f.failureCause) (hdisposition : IsVoid f.disposition)
      (hstage : IsVoid f.resolverStage)
  | unresolved {code : ReasonCode} {cause : FailureCause} {disposition : Disposition} {stage : Stage}
      (hstate : f.state = some "unresolved") (hcode : f.reasonCode = some code.name)
      (hcause : f.failureCause = some cause.name) (hdisposition : f.disposition = some disposition.name)
      (hstage : f.resolverStage = some stage.name)
      (h : ¬(disposition = .actionable ∧
        cause ∈ [.parserArtifact,.resolverGap,.generatedExpectedMissing]))

theorem hasText_eq_false_iff {value : Option String} : hasText value = false ↔ IsVoid value := by
  cases value <;> simp [hasText,IsVoid,Text.isAllBlank]

/-- A field without complaints has the name of something. -/
theorem named_iff {α : Type} (name : α → String) (all : List α) (hall : ∀ a, a ∈ all)
    (htext : ∀ a, hasText (some (name a)) = true) (field : String) (value : Option String) :
    (hasText value = true ∧
        unknownOf field value (fun v => (all.find? (name · == v)).isSome) = []) ↔
      ∃ a, value = some (name a) := by
  cases value with
  | none => simp [hasText]
  | some v =>
    have hfind : (all.find? (name · == v)).isSome = true ↔ ∃ a, v = name a := by
      rw [List.find?_isSome]
      exact ⟨fun ⟨a,_,h⟩ => ⟨a,(beq_iff_eq.mp h).symm⟩,fun ⟨a,h⟩ => ⟨a,hall a,beq_iff_eq.mpr h.symm⟩⟩
    simp only [unknownOf,Option.some.injEq,← hfind]
    cases hv : hasText (some v) with
    | true => simp
    | false =>
      -- A blank field is no name.
      have hn : (all.find? (name · == v)).isSome = false := by
        refine eq_false_of_ne_true fun hs => ?_
        obtain ⟨a,rfl⟩ := hfind.mp hs
        rw [htext a] at hv
        cases hv
      simp [hn]

variable {f : DecisionFields}

theorem errors_resolved_iff (hs : f.state = some "resolved") : f.errors = [] ↔ f.IsLegal := by
  simp only [errors,if_pos hs,List.map_eq_nil_iff,List.filter_eq_nil_iff,named,List.forall_mem_cons,
    Bool.not_eq_true,hasText_eq_false_iff]
  constructor
  · rintro ⟨hcode,hcause,hdisposition,hstage,-⟩
    exact .resolved hs hcode hcause hdisposition hstage
  · rintro (⟨-,hcode,hcause,hdisposition,hstage⟩ | ⟨hu,-⟩)
    · exact ⟨hcode,hcause,hdisposition,hstage,by simp⟩
    · exact absurd (hs.symm.trans hu) (by decide)

/-- Without complaints, each field of an unresolved specifier has a name, and no cause bars what is called
for. -/
theorem errors_named_iff (hs : f.state = some "unresolved") : f.errors = [] ↔
    (∃ c : ReasonCode, f.reasonCode = some c.name) ∧
    (∃ c : FailureCause, f.failureCause = some c.name) ∧
    (∃ d : Disposition, f.disposition = some d.name) ∧
    (∃ s : Stage, f.resolverStage = some s.name) ∧
    ¬(f.disposition = some Disposition.actionable.name ∧
      (f.failureCause.bind FailureCause.ofName?).any FailureCause.forbidsActionable = true) := by
  have hcode := named_iff ReasonCode.name ReasonCode.all (by rintro ⟨⟩ <;> decide)
    (by rintro ⟨⟩ <;> decide) "reasonCode" f.reasonCode
  have hcause := named_iff FailureCause.name FailureCause.all (by rintro ⟨⟩ <;> decide)
    (by rintro ⟨⟩ <;> decide) "failureCause" f.failureCause
  have hdisposition := named_iff Disposition.name Disposition.all (by rintro ⟨⟩ <;> decide)
    (by rintro ⟨⟩ <;> decide) "disposition" f.disposition
  have hstage := named_iff Stage.name Stage.all (by rintro ⟨⟩ <;> decide)
    (by rintro ⟨⟩ <;> decide) "resolverStage" f.resolverStage
  have hr : ¬f.state = some "resolved" := by
    rw [hs]
    decide
  rw [← hcode,← hcause,← hdisposition,← hstage]
  simp only [errors,if_neg hr,if_pos hs,List.append_eq_nil_iff,List.map_eq_nil_iff,
    List.filter_eq_nil_iff,named,List.forall_mem_cons,ite_eq_right_iff,List.cons_ne_nil,imp_false,
    Bool.not_eq_true',Bool.not_eq_false]
  constructor
  · rintro ⟨⟨⟨⟨⟨⟨tcode,tcause,tdisposition,tstage,-⟩,ncode⟩,ncause⟩,ndisposition⟩,nstage⟩,h⟩
    exact ⟨⟨tcode,ncode⟩,⟨tcause,ncause⟩,⟨tdisposition,ndisposition⟩,⟨tstage,nstage⟩,h⟩
  · rintro ⟨⟨tcode,ncode⟩,⟨tcause,ncause⟩,⟨tdisposition,ndisposition⟩,⟨tstage,nstage⟩,h⟩
    exact ⟨⟨⟨⟨⟨⟨tcode,tcause,tdisposition,tstage,by simp⟩,ncode⟩,ncause⟩,ndisposition⟩,nstage⟩,h⟩

theorem errors_unresolved_iff (hs : f.state = some "unresolved") : f.errors = [] ↔ f.IsLegal := by
  rw [errors_named_iff hs]
  constructor
  · rintro ⟨⟨code,hcode⟩,⟨cause,hcause⟩,⟨disposition,hdisposition⟩,⟨stage,hstage⟩,h⟩
    refine .unresolved hs hcode hcause hdisposition hstage fun ⟨hd,hc⟩ => h ⟨by rw [hdisposition,hd],?_⟩
    simpa [hcause] using FailureCause.forbidsActionable_iff.mpr hc
  · rintro (⟨hr,-⟩ | ⟨-,hcode,hcause,hdisposition,hstage,h⟩)
    · exact absurd (hs.symm.trans hr) (by decide)
    · refine ⟨⟨_,hcode⟩,⟨_,hcause⟩,⟨_,hdisposition⟩,⟨_,hstage⟩,fun ⟨hd,hc⟩ => h ⟨?_,?_⟩⟩
      · exact Disposition.name_inj (Option.some.inj (hdisposition.symm.trans hd))
      · exact FailureCause.forbidsActionable_iff.mp (by simpa [hcause] using hc)

theorem errors_eq_nil_iff : f.errors = [] ↔ f.IsLegal := by
  by_cases hr : f.state = some "resolved"
  · exact errors_resolved_iff hr
  by_cases hu : f.state = some "unresolved"
  · exact errors_unresolved_iff hu
  · have he : f.errors = [.invalidState f.state] := by rw [errors,if_neg hr,if_neg hu]
    rw [he]
    refine iff_of_false (List.cons_ne_nil _ _) ?_
    rintro (⟨hs,-⟩ | ⟨hs,-⟩)
    · exact hr hs
    · exact hu hs

theorem validate_of_isLegal (h : f.IsLegal) : f.validate = .ok () := if_pos (errors_eq_nil_iff.mpr h)

/-- Every row of the decision table may be written down. -/
theorem validate_row (c : ReasonCode) :
    validate ⟨some ResolutionState.unresolved.name,some c.name,some c.decision.cause.name,
      some c.decision.disposition.name,some c.decision.stage.name⟩ = .ok () :=
  validate_of_isLegal (.unresolved rfl rfl rfl rfl rfl (by cases c <;> decide))

/-- A written decision is accepted when it is legal, and refused with complaints if it is not. -/
theorem validate_eq_ok_iff (f : DecisionFields) :
    (f.validate = .ok () ↔ f.IsLegal) ∧
      (f.IsLegal ∨ ∃ e rest, f.validate = .error (e :: rest)) := by
  by_cases hl : f.IsLegal
  · exact ⟨iff_of_true (validate_of_isLegal hl) hl,.inl hl⟩
  · have hn : f.errors ≠ [] := fun h => hl (errors_eq_nil_iff.mp h)
    obtain ⟨e,rest,he⟩ := List.exists_cons_of_ne_nil hn
    have hv : f.validate = .error (e :: rest) := by rw [validate,if_neg hn,he]
    refine ⟨iff_of_false ?_ hl,.inr ⟨e,rest,hv⟩⟩
    rw [hv]
    exact fun h => by cases h

end DecisionFields
end ImportResolution
