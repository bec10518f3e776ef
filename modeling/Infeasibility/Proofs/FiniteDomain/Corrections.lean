import Infeasibility.Proofs.FiniteDomain.Linked

/-! # Corrections by the solver

Both methods that look for a smallest correction put a single question to the solver, and draw
their conclusion from the candidate that it finds. -/

namespace Infeasibility.FiniteDomain

variable {solver : Solver} {problem : Problem Constraint}

/-! ## Questions for an optimum -/

namespace Solver

theorem maximizeLinked_eq : solver.maximizeLinked problem =
    answerOf ((solver.withIndicators problem.soft.length).ascent
      (problem.hard ++ links solver.model.size problem.soft)
      (literals solver.model.size problem.soft.length)) := by
  have hterms : ((List.range' solver.model.size problem.soft.length).map
      (SoftTerm.indicator (C := Constraint))).map constraintOf =
      literals solver.model.size problem.soft.length := by
    rw [List.map_map]
    rfl
  have hindicators : ((List.range' solver.model.size problem.soft.length).map
      (SoftTerm.indicator (C := Constraint))).any isConstraint = false := by
    rw [List.any_map]
    exact List.any_eq_false.mpr fun v _ => by simp [isConstraint]
  rw [maximizeLinked, maximize, optimize_eq, hindicators, hterms, Bool.and_false]
  rfl

theorem maximize_constraints_eq (hsupported : solver.softConstraints = true) :
    solver.maximize problem.hard (problem.soft.map .constraint) =
      answerOf (solver.ascent problem.hard problem.soft) := by
  have hterms : (problem.soft.map (SoftTerm.constraint (ι := Var))).map constraintOf =
      problem.soft := by
    rw [List.map_map]
    exact List.map_id _
  rw [maximize, optimize_eq, hsupported, hterms]
  rfl

end Solver

/-! ## Results -/

section

variable {verify : Bool}

/-- What a method concludes from the answer to its question. -/
def resultOf (problem : Problem Constraint) (verify : Bool) (terms : String) (solver : Solver) :
    Except Misuse (Except OracleError (Optimum Assignment)) →
      Except Misuse (Except DiagnosisError (Diagnosis problem.soft))
  | .ok (.ok optimum) =>
    (problem.correctionOfOptimum verify terms optimum).result oracle solver
  | .ok (.error cause) => .ok (.error (.unavailable cause))
  | .error misuse => .error misuse

/-- There is a result only if there is an optimum to conclude it from. -/
theorem exists_optimum_of_resultOf {terms : String} {state : Solver}
    {answer : Except Misuse (Except OracleError (Optimum Assignment))}
    {correction : Diagnosis problem.soft}
    (h : resultOf problem verify terms state answer = .ok (.ok correction)) :
    ∃ optimum, answer = .ok (.ok optimum) ∧
      (problem.correctionOfOptimum verify terms optimum).result oracle state =
        .ok (.ok correction) := by
  rcases answer with misuse | cause | optimum
  · cases h
  · cases h
  · exact ⟨optimum, rfl, h⟩

theorem result_correctionByIndicators (hsoft : problem.soft ≠ []) :
    (problem.correctionByIndicators verify).result oracle solver =
      resultOf problem verify "indicators"
        (solver.withoutIndicators (List.range' solver.model.size problem.soft.length))
        (solver.maximizeLinked problem) := by
  rw [Problem.result_correctionByIndicators hsoft, run_maximizeIndicators]
  rcases solver.maximizeLinked problem with misuse | cause | optimum <;> rfl

theorem result_correctionBySoftTerms (hsoft : problem.soft ≠ [])
    (hsupported : solver.softConstraints = true) :
    (problem.correctionBySoftTerms verify).result oracle solver =
      resultOf problem verify "soft constraints" solver
        (solver.maximize problem.hard (problem.soft.map .constraint)) := by
  rw [Problem.result_correctionBySoftTerms hsoft hsupported]
  change problem.afterOptimum oracle verify "soft constraints"
    (solver.maximize problem.hard (problem.soft.map .constraint), solver) = _
  rcases solver.maximize problem.hard (problem.soft.map .constraint) with
    misuse | cause | optimum <;> rfl

theorem result_correctionBySoftTerms_of_not (hsoft : problem.soft ≠ [])
    (hsupported : solver.softConstraints = false) :
    (problem.correctionBySoftTerms verify).result oracle solver =
      .ok (.error .softTermsUnsupported) :=
  Problem.result_correctionBySoftTerms_of_not hsoft hsupported

end

end Infeasibility.FiniteDomain
