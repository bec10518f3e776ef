import Infeasibility.Proofs.Diagnosis.Irreducibility
import Infeasibility.Proofs.Diagnosis.Propagation
import Infeasibility.Proofs.FiniteDomain.Soundness
import Infeasibility.Proofs.FiniteDomain.Totality

/-! # The solver does not contradict itself

A method blames its oracle for an optimum that does not speak of each soft constraint, and for a
verification that denies what was found. The solver gives it no reason to: an optimum speaks of all
soft terms, and a diagnosis that was found is minimal, so that a check of it either confirms it or
has an error to report. -/

namespace Infeasibility.FiniteDomain

variable {α : Type} {solver : Solver} {problem : Problem Constraint} {method : Method}
  {verify : Bool} {kind : Kind} {diagnosis : Diagnosis problem.soft}

/-! ## What a run leaves behind -/

/-- The question leaves every solver as it is. -/
def IsQuiet (question : Question Constraint Var) : Prop :=
  ∀ solver, (oracle.answer question solver).2 = solver

theorem snd_run_of_asks_isQuiet {x : Dialogue Constraint Assignment Var α} (hx : x.Asks IsQuiet)
    (solver : Solver) : (x.run oracle solver).2 = solver := by
  refine Dialogue.snd_run_of_asks (I := fun state => state = solver) hx ?_ rfl
  intro question state hquiet hstate
  rw [hquiet, hstate]

theorem questionsSatisfy_isQuiet (problem : Problem Constraint) :
    problem.QuestionsSatisfy IsQuiet :=
  fun _ _ _ _ => rfl

/-- The indicators of a run are released, and the model is as it was. -/
theorem snd_run_correctionByIndicators (solver : Solver) (problem : Problem Constraint)
    (verify : Bool) :
    ((problem.correctionByIndicators verify).run.run oracle solver).2 =
      solver.withoutIndicators (List.range' solver.model.size problem.soft.length) := by
  by_cases hsoft : problem.soft = []
  · have hnone : List.range' solver.model.size problem.soft.length = [] := by simp [hsoft]
    rw [Problem.correctionByIndicators, Problem.requireSoft_of_eq_nil hsoft, hnone]
    exact solver.withoutIndicators_nil.symm
  obtain ⟨answer, hanswer⟩ := Solver.exists_answer_maximize
    (solver.withIndicators problem.soft.length)
    (problem.hard ++ links solver.model.size problem.soft)
    ((List.range' solver.model.size problem.soft.length).map .indicator)
  rw [← Solver.maximizeLinked] at hanswer
  rw [Problem.run_correctionByIndicators hsoft, run_maximizeIndicators, hanswer]
  cases answer with
  | error cause => rfl
  | ok optimum =>
      have hquiet := (questionsSatisfy_isQuiet problem).asks_correctionOfOptimum verify
        "indicators" optimum
      exact snd_run_of_asks_isQuiet hquiet
        (solver.withoutIndicators (List.range' solver.model.size problem.soft.length))

/-- A method may release indicators, but otherwise it leaves the solver as it is. -/
theorem snd_run_diagnose (solver : Solver) (problem : Problem Constraint) (method : Method)
    (verify : Bool) :
    ((method.diagnose verify problem).run.run oracle solver).2 = solver ∨
      ((method.diagnose verify problem).run.run oracle solver).2 =
        solver.withoutIndicators (List.range' solver.model.size problem.soft.length) := by
  have hP := questionsSatisfy_isQuiet problem
  cases method with
  | indicators => exact .inr (snd_run_correctionByIndicators solver problem verify)
  | deletion => exact .inl (snd_run_of_asks_isQuiet (hP.asks_minimalCore verify) solver)
  | growth => exact .inl (snd_run_of_asks_isQuiet (hP.asks_correctionByGrowth verify) solver)
  | softTerms =>
      have hquiet := hP.asks_correctionBySoftTerms (A := Assignment) verify (fun _ => rfl)
        fun _ _ _ _ => rfl
      exact .inl (snd_run_of_asks_isQuiet hquiet solver)

theorem model_after_diagnose (solver : Solver) (problem : Problem Constraint) (method : Method)
    (verify : Bool) :
    ((method.diagnose verify problem).run.run oracle solver).2.model = solver.model := by
  rcases snd_run_diagnose solver problem method verify with h | h
  · rw [h]
  · rw [h, Solver.withoutIndicators]

/-! ## Errors -/

/-- What the solver answers to a call is a verdict, an optimum or an ordinary error. -/
theorem isOrdinary_of_failure? {x : Dialogue Constraint Assignment Var α}
    (hx : x.Asks fun _ => True) {call : Exchange Constraint Assignment Var}
    (hcall : call ∈ x.transcript oracle solver) {error : OracleError}
    (herror : call.failure? = some error) : IsOrdinary error := by
  obtain ⟨-, state, -, hanswer⟩ := Dialogue.answer_of_mem_transcript (I := fun _ => True) hx
    (fun _ _ _ _ => trivial) trivial call hcall
  rcases call with ⟨question, misuse | answer⟩
  · cases question <;> cases herror
  cases question with
  | solve constraints =>
      obtain ⟨given, hgiven, hordinary⟩ := state.exists_ordinary_answer_solve constraints
      obtain rfl : given = answer := Except.ok.inj (hgiven.symm.trans hanswer)
      exact hordinary error (error?_eq_some_iff.mp herror)
  | maximize hard soft =>
      obtain ⟨given, hgiven, hordinary⟩ := state.exists_ordinary_answer_maximize hard soft
      obtain rfl : given = answer := Except.ok.inj (hgiven.symm.trans hanswer)
      exact hordinary error (error?_eq_some_iff.mp herror)
  | newIndicator => cases herror
  | implication indicator constraint => cases herror
  | release indicators => cases herror
  | supportsSoft => cases herror

/-- An inquiry that passes failures on has ordinary errors and those of its own. -/
theorem isOrdinary_or_own {ε : Type} {x : Inquiry Constraint Assignment Var ε α}
    {wrap : OracleError → ε} {Own : List (Exchange Constraint Assignment Var) → ε → Prop}
    (hx : x.PassesOn wrap Own) (hasks : x.run.Asks fun _ => True) {error : ε}
    (h : x.result oracle solver = .ok (.error error)) :
    (∃ cause, IsOrdinary cause ∧ error = wrap cause) ∨
      Own (x.run.transcript oracle solver) error := by
  rcases hx.failed_or_own (Dialogue.yields_of_run h) with ⟨call, hmem, cause, hcause, rfl⟩ | hown
  · exact .inl ⟨cause, isOrdinary_of_failure? hasks hmem hcause, rfl⟩
  · exact .inr hown

theorem asks_isMinimal (kind : Kind) (diagnosis : Diagnosis problem.soft) :
    (problem.isMinimal kind diagnosis :
      Inquiry Constraint Assignment Var OracleError Bool).run.Asks Question.IsSolve :=
  problem.questionsSatisfy_isSolve.asks_isMinimal le_rfl kind diagnosis

theorem isOrdinary_of_isMinimal {error : OracleError}
    (h : (problem.isMinimal kind diagnosis).result oracle solver = .ok (.error error)) :
    IsOrdinary error := by
  have hasks := (asks_isMinimal kind diagnosis).imp fun _ _ => trivial
  rcases isOrdinary_or_own (problem.isTransparent_isMinimal kind diagnosis) hasks h with
    ⟨cause, hordinary, rfl⟩ | hown
  · exact hordinary
  · exact hown.elim

/-! ## Optima -/

theorem Solver.length_of_maximize {hard : List Constraint} {soft : List (SoftTerm Constraint Var)}
    {satisfied : List Bool} {a : Assignment}
    (h : solver.maximize hard soft = .ok (.ok (.optimal satisfied a))) :
    satisfied.length = soft.length := by
  obtain ⟨found, hfound, hoptimum⟩ := exists_ascent_of_maximize h
  cases found with
  | none => cases hoptimum
  | some best =>
      cases hoptimum
      simpa using (ascent_eq_ok hfound).truths.length_eq.symm

/-- Each optimum of a run speaks of all soft constraints. -/
theorem length_of_mem_transcript {hard : List Constraint} {soft : List (SoftTerm Constraint Var)}
    {satisfied : List Bool} {a : Assignment}
    (h : ⟨.maximize hard soft, .ok (.ok (.optimal satisfied a))⟩ ∈
      (method.diagnose verify problem).run.transcript oracle solver) :
    satisfied.length = problem.soft.length := by
  have hasks : (method.diagnose verify problem :
      Inquiry Constraint Assignment Var DiagnosisError _).run.Asks problem.Weighs := by
    refine Problem.QuestionsSatisfy.asks_diagnose_of_weighs ?_ (fun _ _ h => h) method verify
    intro positions _ _ hard soft hquestion
    cases hquestion
  obtain ⟨hweighs, state, -, hanswer⟩ := Dialogue.answer_of_mem_transcript
    (I := fun _ => True) hasks (fun _ _ _ _ => trivial) trivial _ h
  rw [← hweighs hard soft rfl]
  exact Solver.length_of_maximize hanswer

/-! ## Checks -/

theorem minimal_of_diagnose
    (hdeclared : ∀ c ∈ problem.hard ++ problem.soft, solver.model.Declares c.vars)
    (h : (method.diagnose verify problem).result oracle solver = .ok (.ok diagnosis)) :
    Minimal (problem.Is solver.model.Solvable method.kind) diagnosis := by
  cases method with
  | deletion => exact sound_minimalCore h
  | growth => exact sound_correctionByGrowth h
  | indicators => exact (sound_correctionByIndicators hdeclared h).1
  | softTerms => exact (sound_correctionBySoftTerms h).1

/-- The solver does not deny that a diagnosis is minimal if it is. -/
theorem isMinimal_ne_false (h : Minimal (problem.Is solver.model.Solvable kind) diagnosis) :
    (problem.isMinimal kind diagnosis).result oracle solver ≠ .ok (.ok false) := by
  intro hfalse
  have htrue := truthful_transcript (asks_isMinimal kind diagnosis) solver
  have hiff := Problem.yields_isMinimal_iff solver.model.hereditary_solvable htrue
    (Dialogue.yields_of_run hfalse)
  cases hiff.mpr h

/-- The model does not change between a run and a check of what was found. -/
theorem isMinimal_after_diagnose_ne_false
    (hdeclared : ∀ c ∈ problem.hard ++ problem.soft, solver.model.Declares c.vars) {after : Solver}
    (h : (method.diagnose verify problem).run.run oracle solver = (.ok (.ok diagnosis), after)) :
    (problem.isMinimal method.kind diagnosis).result oracle after ≠ .ok (.ok false) := by
  have hmodel := model_after_diagnose solver problem method verify
  rw [h] at hmodel
  refine isMinimal_ne_false ?_
  rw [hmodel]
  exact minimal_of_diagnose hdeclared (congrArg Prod.fst h)

/-- A verification that does not deny the diagnosis has ordinary errors only. -/
theorem isOrdinary_of_verified
    (h : (problem.isMinimal kind diagnosis).result oracle solver ≠ .ok (.ok false))
    {cause : OracleError}
    (hcause : (problem.verified kind diagnosis).result oracle solver =
      .ok (.error (.unavailable cause))) : IsOrdinary cause := by
  have hrun := Inquiry.run_orUnavailable_apply oracle (problem.isMinimal kind diagnosis) solver
  rw [Problem.verified] at hcause
  rcases hcheck : (problem.isMinimal kind diagnosis).run.run oracle solver with
    ⟨misuse | error | minimal, after⟩ <;> rw [hcheck] at hrun
  · rw [Inquiry.result_bind_of_misuse hrun] at hcause
    cases hcause
  · rw [Inquiry.result_bind_of_error hrun] at hcause
    cases hcause
    exact isOrdinary_of_isMinimal (congrArg Prod.fst hcheck)
  · rw [Inquiry.result_bind_of_ok hrun] at hcause
    cases minimal with
    | true => cases hcause
    | false => exact absurd (congrArg Prod.fst hcheck) h

/-! ## All methods -/

/-- Without verification the solver can only be blamed for an optimum. -/
theorem isOrdinary_of_diagnose_false {cause : OracleError}
    (h : (method.diagnose false problem).result oracle solver =
      .ok (.error (.unavailable cause))) : IsOrdinary cause := by
  have hasks : (method.diagnose false problem :
      Inquiry Constraint Assignment Var DiagnosisError _).run.Asks fun _ => True :=
    Problem.QuestionsSatisfy.asks_diagnose (fun _ _ _ => trivial) (fun _ _ => trivial) method false
  rcases isOrdinary_or_own (problem.passesOn_diagnose method false) hasks h with
    ⟨error, hordinary, herror⟩ | hblames
  · cases herror
    exact hordinary
  · cases hblames cause rfl with
    | count _ hmem hlength => exact absurd (length_of_mem_transcript hmem) hlength
    | verification hverify => cases hverify

theorem isOrdinary_of_diagnose
    (hdeclared : ∀ c ∈ problem.hard ++ problem.soft, solver.model.Declares c.vars)
    {cause : OracleError}
    (h : (method.diagnose verify problem).result oracle solver =
      .ok (.error (.unavailable cause))) : IsOrdinary cause := by
  cases verify with
  | false => exact isOrdinary_of_diagnose_false h
  | true =>
      rw [Problem.diagnose_true] at h
      rcases hsearch : (method.diagnose false problem).run.run oracle solver with
        ⟨misuse | error | diagnosis, after⟩
      · rw [Inquiry.result_bind_of_misuse hsearch] at h
        cases h
      · rw [Inquiry.result_bind_of_error hsearch] at h
        cases h
        exact isOrdinary_of_diagnose_false (congrArg Prod.fst hsearch)
      · rw [Inquiry.result_bind_of_ok hsearch] at h
        exact isOrdinary_of_verified (isMinimal_after_diagnose_ne_false hdeclared hsearch) h

/-- The solver is never found to contradict itself. No method reports inconsistent answers: the
check of a diagnosis that has just been found does not deny it, and each optimum of the run has a
truth value for each soft constraint. -/
theorem diagnose_coherent (solver : Solver) (problem : Problem Constraint)
    (hdeclared : ∀ c ∈ problem.hard ++ problem.soft, solver.model.Declares c.vars)
    (method : Method) (verify : Bool) :
    (∀ contradiction, (method.diagnose verify problem).result oracle solver ≠
      .ok (.error (.unavailable (.inconsistent contradiction)))) ∧
    (∀ diagnosis after,
      (method.diagnose verify problem).run.run oracle solver = (.ok (.ok diagnosis), after) →
        (problem.isMinimal method.kind diagnosis).result oracle after ≠ .ok (.ok false)) ∧
    ∀ hard soft satisfied assignment,
      ⟨.maximize hard soft, .ok (.ok (.optimal satisfied assignment))⟩ ∈
        (method.diagnose verify problem).run.transcript oracle solver →
          satisfied.length = problem.soft.length := by
  refine ⟨fun contradiction hresult => ?_, fun diagnosis after hrun => ?_, ?_⟩
  · exact isOrdinary_of_diagnose hdeclared hresult
  · exact isMinimal_after_diagnose_ne_false hdeclared hrun
  · intro hard soft satisfied assignment hmem
    exact length_of_mem_transcript hmem

/-- The second constraint keeps the third one from a division by zero, but it is not in the core.
The check of the core therefore ends in an error, and it still does not deny the core. -/
theorem diagnose_coherent_of_division :
    let solver : Solver := { model := ⟨#[⟨"x", 0, 2, by decide⟩]⟩, limit := 100 }
    let problem : Problem Constraint :=
      { soft := [.compare .eq (.var 0) (.const 1), .compare .ne (.var 0) (.const 0),
          .compare .eq (.binary .div (.const 6) (.var 0)) (.const 3)] }
    let core : Diagnosis problem.soft := ⟨[0, 2], by decide, by decide⟩
    ((∀ c ∈ problem.hard ++ problem.soft, solver.model.Declares c.vars) ∧
      (Method.deletion.diagnose false problem).run.run oracle solver = (.ok (.ok core), solver) ∧
      (Method.deletion.diagnose true problem).result oracle solver = .ok (.error
        (.unavailable (.failure "division by zero in `6 / x == 3`")))) ∧
    (problem.isMinimal .core core).result oracle solver ≠ .ok (.ok false) ∧
    ∀ contradiction, (Method.deletion.diagnose true problem).result oracle solver ≠
      .ok (.error (.unavailable (.inconsistent contradiction))) := by
  intro solver problem core
  have hdeclared : ∀ c ∈ problem.hard ++ problem.soft, solver.model.Declares c.vars := by decide
  have hcore : (Method.deletion.diagnose false problem).result oracle solver = .ok (.ok core) := by
    decide +kernel
  have hquiet := (questionsSatisfy_isQuiet problem).asks_minimalCore (A := Assignment) false
  have hrun : (Method.deletion.diagnose false problem).run.run oracle solver =
      (.ok (.ok core), solver) :=
    Prod.ext hcore (snd_run_of_asks_isQuiet hquiet solver)
  have hresult : (Method.deletion.diagnose true problem).result oracle solver = .ok (.error
      (.unavailable (.failure "division by zero in `6 / x == 3`"))) := by
    decide +kernel
  obtain ⟨-, hconfirmed, -⟩ := diagnose_coherent solver problem hdeclared .deletion false
  obtain ⟨hconsistent, -, -⟩ := diagnose_coherent solver problem hdeclared .deletion true
  exact ⟨⟨hdeclared, hrun, hresult⟩, hconfirmed core solver hrun, hconsistent⟩

end Infeasibility.FiniteDomain
