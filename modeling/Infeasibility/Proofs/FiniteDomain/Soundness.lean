import Infeasibility.Proofs.Diagnosis.Soundness
import Infeasibility.Proofs.FiniteDomain.Corrections
import Infeasibility.Proofs.FiniteDomain.Satisfiability

/-! # Soundness of all methods

Whatever the solver is asked, its verdicts and its optima are right, or else it has none. Therefore
each method is sound with the solver as its oracle, also where constraints may be errors. -/

namespace Infeasibility.FiniteDomain

variable {solver : Solver} {problem : Problem Constraint} {verify : Bool}
  {result : Except DiagnosisError (Diagnosis problem.soft)}

/-! ## Optima and corrections -/

/-- Constraints that an assignment makes true are not rejected by an optimum. -/
theorem length_complement_le {a : Assignment} {correction : Diagnosis problem.soft}
    (h : ∀ c ∈ problem.select correction.complement, a.eval c = .ok true) :
    correction.complement.length ≤ problem.soft.countP a.makesTrue := by
  have hsublist : (correction.complement.filterMap (problem.soft[·]?)).Sublist problem.soft := by
    have hkept : correction.complement.Sublist (List.range problem.soft.length) :=
      List.filter_sublist
    have hselected := hkept.filterMap (problem.soft[·]?)
    rwa [Problem.filterMap_getElem?_range] at hselected
  have hlength : (correction.complement.filterMap (problem.soft[·]?)).length =
      correction.complement.length := by
    rw [List.length_filterMap_eq_countP, List.countP_eq_length]
    intro position hmem
    simpa using (Diagnosis.mem_complement.mp hmem).1
  have htrue : (correction.complement.filterMap (problem.soft[·]?)).countP a.makesTrue =
      (correction.complement.filterMap (problem.soft[·]?)).length := by
    rw [List.countP_eq_length]
    intro c hc
    exact Assignment.makesTrue_iff.mpr (h c (List.mem_append_right _ hc))
  rw [← hlength, ← htrue]
  exact hsublist.countP_le

theorem isOptimum_of_optimal {best : Solver.Candidate}
    (h : Solver.Optimal solver.model problem.hard problem.soft best) :
    problem.IsOptimum solver.model.Solvable best.satisfied := by
  have hlength := h.truths.length_eq
  constructor
  · intro correction hpositions
    refine ⟨best.assignment, h.admits, fun c hc => ?_⟩
    rcases Problem.mem_select_iff.mp hc with hhard | ⟨position, hposition, hget⟩
    · exact h.meets c hhard
    · obtain ⟨hlt, rfl⟩ := List.getElem?_eq_some_iff.mp hget
      have hlt' : position < best.satisfied.length := hlength ▸ hlt
      have htruth := h.truths.get hlt hlt'
      have htrue : best.satisfied[position] = true := by
        by_contra hfalse
        refine (Diagnosis.mem_complement.mp hposition).2 ?_
        rw [hpositions, Problem.mem_falsePositions_iff, List.getElem?_eq_getElem hlt',
          eq_false_of_ne_true hfalse]
      simpa [htrue] using htruth
  · rintro correction ⟨a, ha, htrue⟩
    have hcount := h.countP_le a ha fun c hc => htrue c (List.mem_append_left _ hc)
    have hkept := length_complement_le htrue
    have hfalse := Problem.length_falsePositions best.satisfied
    have hsize := correction.size_add_length_complement
    rw [Solver.Candidate.count] at hcount
    omega

theorem isRight_of_ascent {found : Option Solver.Candidate}
    (h : solver.ascent problem.hard problem.soft = .ok found) :
    problem.IsRight solver.model.Solvable (optimumOf found) := by
  have hfound := Solver.ascent_eq_ok h
  cases found with
  | none => exact hfound
  | some best => exact isOptimum_of_optimal hfound

/-- The optimum of a search with indicators is right, as the search without them would find one
that leaves the same constraints unsatisfied. -/
theorem isRight_of_linked
    (hdeclared : ∀ c ∈ problem.hard ++ problem.soft, solver.model.Declares c.vars)
    {optimum : Optimum Assignment} (h : solver.maximizeLinked problem = .ok (.ok optimum)) :
    problem.IsRight solver.model.Solvable optimum := by
  rw [Solver.maximizeLinked_eq] at h
  obtain ⟨found, hfound, rfl⟩ := answerOf_eq_ok h
  obtain ⟨ended, hrun, -⟩ := map_eq_ok_iff.mp hfound
  have hinterrupted : (solver.withIndicators problem.soft.length).enumeration.interrupted = false :=
    Enumeration.interrupted_of_run hrun
  have hconcurs := ascent_concurs hdeclared hinterrupted
  rw [hfound] at hconcurs
  generalize hdirect : solver.ascent problem.hard problem.soft = direct at hconcurs
  cases hconcurs with
  | unsatisfiable => exact isRight_of_ascent hdirect
  | optimal hsame =>
      have hright := isRight_of_ascent hdirect
      rw [optimumOf, Problem.IsRight] at hright ⊢
      rwa [hsame]

theorem sound_resultOf {terms : String} {state : Solver}
    {answer : Except Misuse (Except OracleError (Optimum Assignment))}
    (hright : ∀ optimum, answer = .ok (.ok optimum) →
      problem.IsRight solver.model.Solvable optimum)
    (h : resultOf problem verify terms state answer = .ok result) :
    problem.Sound solver.model.Solvable
      (problem.IsSmallestCorrection solver.model.Solvable) result := by
  rcases answer with misuse | cause | optimum
  · cases h
  · cases h
    trivial
  · exact Problem.sound_correctionOfOptimum (hright optimum rfl) (Dialogue.yields_of_run h)

theorem sound_correctionByIndicators
    (hdeclared : ∀ c ∈ problem.hard ++ problem.soft, solver.model.Declares c.vars)
    (h : (problem.correctionByIndicators verify).result oracle solver = .ok result) :
    problem.Sound solver.model.Solvable
      (problem.IsSmallestCorrection solver.model.Solvable) result := by
  by_cases hsoft : problem.soft = []
  · rw [Problem.result_of_eq_nil hsoft (Dialogue.yields_of_run h)]
    trivial
  rw [result_correctionByIndicators hsoft] at h
  exact sound_resultOf (fun optimum hanswer => isRight_of_linked hdeclared hanswer) h

theorem sound_correctionBySoftTerms
    (h : (problem.correctionBySoftTerms verify).result oracle solver = .ok result) :
    problem.Sound solver.model.Solvable
      (problem.IsSmallestCorrection solver.model.Solvable) result := by
  by_cases hsoft : problem.soft = []
  · rw [Problem.result_of_eq_nil hsoft (Dialogue.yields_of_run h)]
    trivial
  cases hsupported : solver.softConstraints with
  | false =>
      rw [result_correctionBySoftTerms_of_not hsoft hsupported] at h
      cases h
      trivial
  | true =>
      rw [result_correctionBySoftTerms hsoft hsupported,
        Solver.maximize_constraints_eq hsupported] at h
      refine sound_resultOf (fun optimum hanswer => ?_) h
      obtain ⟨found, hfound, rfl⟩ := answerOf_eq_ok hanswer
      exact isRight_of_ascent hfound

/-! ## Deletion and growth -/

theorem sound_minimalCore (h : (problem.minimalCore verify).result oracle solver = .ok result) :
    problem.Sound solver.model.Solvable (Minimal (problem.IsCore solver.model.Solvable))
      result := by
  have hasks := (problem.questionsSatisfy_isSolve (ι := Var)).asks_minimalCore (A := Assignment)
    verify
  exact Problem.sound_minimalCore solver.model.hereditary_solvable
    (truthful_transcript hasks solver) (Dialogue.yields_of_run h)

theorem sound_correctionByGrowth
    (h : (problem.correctionByGrowth verify).result oracle solver = .ok result) :
    problem.Sound solver.model.Solvable (Minimal (problem.IsCorrection solver.model.Solvable))
      result := by
  have hasks := (problem.questionsSatisfy_isSolve (ι := Var)).asks_correctionByGrowth
    (A := Assignment) verify
  exact Problem.sound_correctionByGrowth solver.model.hereditary_solvable
    solver.model.solvable_nil (truthful_transcript hasks solver) (Dialogue.yields_of_run h)

/-! ## All methods -/

/-- With the solver as its oracle every method is sound, provided that the constraints are about
variables of the model. -/
theorem sound_diagnose (solver : Solver) (problem : Problem Constraint)
    (hdeclared : ∀ c ∈ problem.hard ++ problem.soft, solver.model.Declares c.vars)
    (method : Method) (verify : Bool) {result : Except DiagnosisError (Diagnosis problem.soft)}
    (h : (method.diagnose verify problem).result oracle solver = .ok result) :
    problem.Sound solver.model.Solvable (method.Finds problem solver.model.Solvable) result := by
  cases method with
  | deletion => exact sound_minimalCore h
  | growth => exact sound_correctionByGrowth h
  | indicators => exact sound_correctionByIndicators hdeclared h
  | softTerms => exact sound_correctionBySoftTerms h

/-- Division by a variable that the hard constraints keep from zero. -/
theorem sound_diagnose_of_division :
    let solver : Solver := { model := ⟨#[⟨"x", 0, 2, by decide⟩]⟩, limit := 100 }
    let problem : Problem Constraint :=
      { hard := [.compare .ne (.var 0) (.const 0)]
        soft := [.compare .eq (.var 0) (.const 0),
          .compare .eq (.binary .div (.const 6) (.var 0)) (.const 3),
          .compare .eq (.var 0) (.const 1)] }
    let core : Diagnosis problem.soft := ⟨[1, 2], by decide, by decide⟩
    let correction : Diagnosis problem.soft := ⟨[0, 1], by decide, by decide⟩
    (∀ c ∈ problem.hard ++ problem.soft, solver.model.Declares c.vars) ∧
      ((Method.deletion.diagnose true problem).result oracle solver = .ok (.ok core) ∧
        Minimal (problem.IsCore solver.model.Solvable) core) ∧
      (Method.indicators.diagnose true problem).result oracle solver = .ok (.ok correction) ∧
        problem.IsSmallestCorrection solver.model.Solvable correction := by
  intro solver problem core correction
  have hdeclared : ∀ c ∈ problem.hard ++ problem.soft, solver.model.Declares c.vars := by decide
  have hcore : (Method.deletion.diagnose true problem).result oracle solver = .ok (.ok core) := by
    decide +kernel
  have hcorrection : (Method.indicators.diagnose true problem).result oracle solver =
      .ok (.ok correction) := by
    decide +kernel
  exact ⟨hdeclared, ⟨hcore, sound_diagnose solver problem hdeclared .deletion true hcore⟩,
    hcorrection, sound_diagnose solver problem hdeclared .indicators true hcorrection⟩

end Infeasibility.FiniteDomain
