import Infeasibility.Diagnosis.Method
import Infeasibility.Proofs.Diagnosis.Coverage
import Infeasibility.Proofs.FiniteDomain.Corrections
import Infeasibility.Proofs.FiniteDomain.Exactness

/-! # Variables of another model

The solver has no verdict on constraints about variables that its model does not have at the time
of the question. Therefore a method finds a diagnosis only if the model has all variables of the
problem. The exception are indicators: while they are in use they count as variables of the model,
and a variable of another model may have the number of one of them. -/

namespace Infeasibility.FiniteDomain

variable {solver : Solver} {problem : Problem Constraint} {verify : Bool}

/-! ## Verdicts -/

/-- All constraints on which there is a verdict are about variables of the model. -/
theorem declares_of_covered {α : Type} {x : Dialogue Constraint Assignment Var α}
    (hx : x.Asks Question.IsSolve) {c : Constraint}
    (h : Covered (x.transcript oracle solver) c) : solver.model.Declares c.vars := by
  obtain ⟨constraints, satisfiable, hanswered, hc⟩ := h
  obtain ⟨outcome, -, hverdict⟩ := solve_of_answered hx hanswered
  by_contra hforeign
  obtain ⟨cause, hfailure⟩ := Solver.solve_of_not_declares fun hall => hforeign (hall c hc)
  rw [hfailure] at hverdict
  cases hverdict

/-! ## Corrections of an optimum -/

/-- Whoever verifies a correction puts all constraints to the solver. -/
theorem declares_of_verified {terms : String} {optimum : Optimum Assignment}
    {correction : Diagnosis problem.soft}
    (h : (problem.correctionOfOptimum true terms optimum).result oracle solver =
      .ok (.ok correction)) :
    ∀ c ∈ problem.hard ++ problem.soft, solver.model.Declares c.vars := by
  have hP := problem.questionsSatisfy_isSolve (ι := Var)
  have hyields := Dialogue.yields_of_run h
  have hne := Problem.positions_ne_nil_of_correctionOfOptimum hyields
  obtain ⟨earlier, check, hsplit, hcertified⟩ :=
    Problem.certified_of_yields_correctionOfOptimum hyields
  intro c hc
  refine declares_of_covered (hP.asks_correctionOfOptimum true terms optimum) ?_
  rw [hsplit]
  exact (hcertified.covered hne hc).append_left

/-- While the indicators are in use their numbers count as variables of the model. -/
theorem lt_of_maximizeLinked {optimum : Optimum Assignment}
    (h : solver.maximizeLinked problem = .ok (.ok optimum)) :
    ∀ c ∈ problem.hard ++ problem.soft, ∀ v ∈ c.vars,
      v < solver.model.size + problem.soft.length := by
  rw [Solver.maximizeLinked_eq] at h
  obtain ⟨found, hfound, -⟩ := answerOf_eq_ok h
  have hdeclared := Solver.declares_of_ascent hfound
  have hsize : (solver.withIndicators problem.soft.length).model.size =
      solver.model.size + problem.soft.length :=
    Model.size_withIndicators
  rw [hsize.symm]
  intro c hc v hv
  rcases List.mem_append.mp hc with hhard | hsoft
  · exact hdeclared c (List.mem_append_left _ (List.mem_append_left _ hhard)) v hv
  · obtain ⟨position, hlt, rfl⟩ := List.mem_iff_getElem.mp hsoft
    have hlink : .implies (.literal (solver.model.size + position)) problem.soft[position] ∈
        links solver.model.size problem.soft :=
      mem_links_iff.mpr ⟨position, hlt, rfl⟩
    refine hdeclared _ (List.mem_append_left _ (List.mem_append_right _ hlink)) v ?_
    exact List.mem_cons_of_mem _ hv

/-! ## All methods -/

variable {diagnosis : Diagnosis problem.soft}

theorem declares_of_correctionByIndicators
    (h : (problem.correctionByIndicators true).result oracle solver = .ok (.ok diagnosis)) :
    ∀ c ∈ problem.hard ++ problem.soft, solver.model.Declares c.vars := by
  have hsoft : problem.soft ≠ [] := Problem.soft_ne_nil_of_yields_ok (Dialogue.yields_of_run h)
  rw [result_correctionByIndicators hsoft] at h
  obtain ⟨optimum, -, hresult⟩ := exists_optimum_of_resultOf h
  -- The indicators are released before the correction is verified.
  have hreleased : ∀ c ∈ problem.hard ++ problem.soft, (solver.withoutIndicators
      (List.range' solver.model.size problem.soft.length)).model.Declares c.vars :=
    declares_of_verified hresult
  exact hreleased

theorem declares_of_correctionBySoftTerms
    (h : (problem.correctionBySoftTerms verify).result oracle solver = .ok (.ok diagnosis)) :
    ∀ c ∈ problem.hard ++ problem.soft, solver.model.Declares c.vars := by
  have hsoft : problem.soft ≠ [] := Problem.soft_ne_nil_of_yields_ok (Dialogue.yields_of_run h)
  cases hsupported : solver.softConstraints with
  | false =>
      rw [result_correctionBySoftTerms_of_not hsoft hsupported] at h
      cases h
  | true =>
      rw [result_correctionBySoftTerms hsoft hsupported,
        Solver.maximize_constraints_eq hsupported] at h
      obtain ⟨optimum, hanswer, -⟩ := exists_optimum_of_resultOf h
      obtain ⟨found, hfound, -⟩ := answerOf_eq_ok hanswer
      exact Solver.declares_of_ascent hfound

/-- Only unverified indicators can lead to a diagnosis of a problem with variables of another
model, and only if these have the numbers of the indicators. -/
theorem foreign_variables_of_diagnose (solver : Solver) (problem : Problem Constraint)
    (method : Method) (verify : Bool) {diagnosis : Diagnosis problem.soft}
    (hforeign : ∃ c ∈ problem.hard ++ problem.soft, ∃ v ∈ c.vars, solver.model.size ≤ v)
    (h : (method.diagnose verify problem).result oracle solver = .ok (.ok diagnosis)) :
    method = .indicators ∧ verify = false ∧
      ∀ c ∈ problem.hard ++ problem.soft, ∀ v ∈ c.vars,
        v < solver.model.size + problem.soft.length := by
  have hP := problem.questionsSatisfy_isSolve (ι := Var)
  have hnot : ¬ ∀ c ∈ problem.hard ++ problem.soft, solver.model.Declares c.vars := by
    intro hall
    obtain ⟨c, hc, v, hv, hle⟩ := hforeign
    exact absurd (hall c hc v hv) (Nat.not_lt_of_le hle)
  have hyields := Dialogue.yields_of_run h
  cases method with
  | deletion =>
      refine absurd (fun c hc => ?_) hnot
      exact declares_of_covered (hP.asks_minimalCore verify)
        (Problem.covered_of_minimalCore hyields hc)
  | growth =>
      refine absurd (fun c hc => ?_) hnot
      exact declares_of_covered (hP.asks_correctionByGrowth verify)
        (Problem.covered_of_correctionByGrowth hyields hc)
  | softTerms => exact absurd (declares_of_correctionBySoftTerms h) hnot
  | indicators =>
      cases verify with
      | true => exact absurd (declares_of_correctionByIndicators h) hnot
      | false =>
          have hsoft : problem.soft ≠ [] := Problem.soft_ne_nil_of_yields_ok hyields
          change (problem.correctionByIndicators false).result oracle solver = _ at h
          rw [result_correctionByIndicators hsoft] at h
          obtain ⟨optimum, hanswer, -⟩ := exists_optimum_of_resultOf h
          exact ⟨rfl, rfl, lt_of_maximizeLinked hanswer⟩

/-- The second variable of another model has the number of the only indicator. -/
theorem foreign_variables_of_single_indicator :
    let solver : Solver := { model := ⟨#[⟨"x", 0, 2, by decide⟩]⟩, limit := 100 }
    let problem : Problem Constraint :=
      { soft := [.compare .eq (.var 0) (.const 1)], hard := [.not (.literal 1)] }
    let correction : Diagnosis problem.soft := ⟨[0], by decide, by decide⟩
    ((∃ c ∈ problem.hard ++ problem.soft, ∃ v ∈ c.vars, solver.model.size ≤ v) ∧
      (Method.indicators.diagnose false problem).result oracle solver = .ok (.ok correction)) ∧
    ∀ c ∈ problem.hard ++ problem.soft, ∀ v ∈ c.vars, v < 2 := by
  intro solver problem correction
  have hforeign : ∃ c ∈ problem.hard ++ problem.soft, ∃ v ∈ c.vars, solver.model.size ≤ v := by
    decide
  have hfound : (Method.indicators.diagnose false problem).result oracle solver =
      .ok (.ok correction) := by
    decide +kernel
  obtain ⟨-, -, hlt⟩ :=
    foreign_variables_of_diagnose solver problem .indicators false hforeign hfound
  exact ⟨⟨hforeign, hfound⟩, hlt⟩

/-- Indicators lead to a correction if it is not verified. All other methods report the variable of
another model, and so does the verification. -/
theorem indicators_mistake_foreign_variable :
    let solver : Solver := { model := ⟨#[⟨"x", 0, 2, by decide⟩]⟩, limit := 100 }
    let problem : Problem Constraint :=
      { soft := [.compare .eq (.var 0) (.const 1)], hard := [.not (.literal 1)] }
    let correction : Diagnosis problem.soft := ⟨[0], by decide, by decide⟩
    let failure : DiagnosisError :=
      .unavailable (.failure "variable 1 is not part of the model (1 variables)")
    solver.model.size = 1 ∧
    (Method.indicators.diagnose false problem).result oracle solver = .ok (.ok correction) ∧
    (Method.indicators.diagnose true problem).result oracle solver = .ok (.error failure) ∧
    (Method.deletion.diagnose false problem).result oracle solver = .ok (.error failure) ∧
    (Method.growth.diagnose false problem).result oracle solver = .ok (.error failure) ∧
    (Method.softTerms.diagnose false problem).result oracle solver = .ok (.error failure) := by
  decide +kernel

end Infeasibility.FiniteDomain
