import Infeasibility.Diagnosis.Method
import Infeasibility.Oracle.Script
import Infeasibility.Proofs.Diagnosis.Deletion
import Infeasibility.Proofs.Diagnosis.Growth
import Infeasibility.Proofs.Diagnosis.Optimization

/-! # Safety with any oracle

Nothing is assumed of the answers here: they may be wrong, contradict each other or be errors. The
methods then draw wrong conclusions, but no method asks about positions that the problem does not
have, or returns anything that is not a diagnosis. -/

namespace Infeasibility

variable {σ C A ι : Type} {problem : Problem C}

/-! ## What is asked -/

/-- A question for a verdict is about strictly increasing positions of the problem. -/
def Problem.Poses (problem : Problem C) (question : Question C ι) : Prop :=
  ∀ constraints, question = .solve constraints →
    ∃ positions : List Nat, positions.Pairwise (· < ·) ∧
      (∀ position ∈ positions, position < problem.soft.length) ∧
      constraints = problem.select positions

theorem Problem.questionsSatisfy_poses : problem.QuestionsSatisfy (problem.Poses (ι := ι)) := by
  intro positions hincreasing hlt constraints hquestion
  cases hquestion
  exact ⟨positions, hincreasing, hlt, rfl⟩

/-- A question for an optimum is about one term for each soft constraint. -/
def Problem.Weighs (problem : Problem C) (question : Question C ι) : Prop :=
  ∀ hard soft, question = .maximize hard soft → soft.length = problem.soft.length

/-- Apart from questions for a verdict, a method may ask anything, but it weighs all soft
constraints. -/
theorem Problem.QuestionsSatisfy.asks_diagnose_of_weighs {P : Question C ι → Prop}
    (hP : problem.QuestionsSatisfy P)
    (hother : ∀ question : Question C ι, ¬ question.IsSolve → problem.Weighs question → P question)
    (method : Method) (verify : Bool) :
    (method.diagnose verify problem :
      Inquiry C A ι DiagnosisError (Diagnosis problem.soft)).run.Asks P := by
  have hnew : P .newIndicator :=
    hother _ (by simp [Question.IsSolve]) (by simp [Problem.Weighs])
  have hlink : ∀ indicator constraint, P (.implication indicator constraint) :=
    fun _ _ => hother _ (by simp [Question.IsSolve]) (by simp [Problem.Weighs])
  have hrelease : ∀ indicators, P (.release indicators) :=
    fun _ => hother _ (by simp [Question.IsSolve]) (by simp [Problem.Weighs])
  have hsupports : P .supportsSoft :=
    hother _ (by simp [Question.IsSolve]) (by simp [Problem.Weighs])
  have hmaximize : ∀ hard soft, soft.length = problem.soft.length → P (.maximize hard soft) :=
    fun _ _ hlength =>
      hother _ (by simp [Question.IsSolve]) (by simpa [Problem.Weighs] using hlength)
  cases method with
  | deletion => exact hP.asks_minimalCore verify
  | growth => exact hP.asks_correctionByGrowth verify
  | indicators => exact hP.asks_correctionByIndicators verify hnew hlink hmaximize hrelease
  | softTerms => exact hP.asks_correctionBySoftTerms verify hsupports hmaximize

theorem Problem.QuestionsSatisfy.asks_diagnose {P : Question C ι → Prop}
    (hP : problem.QuestionsSatisfy P)
    (hother : ∀ question : Question C ι, ¬ question.IsSolve → P question) (method : Method)
    (verify : Bool) :
    (method.diagnose verify problem :
      Inquiry C A ι DiagnosisError (Diagnosis problem.soft)).run.Asks P :=
  hP.asks_diagnose_of_weighs (fun question hquestion _ => hother question hquestion) method verify

/-! ## What is concluded -/

/-- No method returns an empty diagnosis, whatever it was told. -/
theorem Method.positions_ne_nil_of_diagnose {method : Method} {verify : Bool}
    {exchanges : List (Exchange C A ι)} {diagnosis : Diagnosis problem.soft}
    (h : (method.diagnose verify problem).run.Yields exchanges (.ok diagnosis)) :
    diagnosis.positions ≠ [] := by
  cases method with
  | deletion =>
      rcases Problem.yields_minimalCore (Problem.soft_ne_nil_of_yields_ok h) h with
        ⟨_, herror, -⟩ | ⟨-, herror⟩ | ⟨-, herror⟩ | ⟨core, hne, -, hsame⟩
      · cases herror
      · cases herror
      · cases herror
      · cases hsame
        exact hne
  | growth =>
      rcases Problem.yields_correctionByGrowth (Problem.soft_ne_nil_of_yields_ok h) h with
        ⟨_, herror, -⟩ | ⟨-, herror⟩ | ⟨-, correction, -, ⟨-, herror⟩ | ⟨hne, hsame⟩⟩
      · cases herror
      · cases herror
      · cases herror
      · cases hsame
        exact hne
  | indicators =>
      obtain ⟨_, _, _, -, -, h⟩ := Inquiry.yields_bind_ok_iff.mp h
      obtain ⟨_, _, optimum, -, -, h⟩ := Inquiry.yields_bind_ok_iff.mp h
      exact Problem.positions_ne_nil_of_correctionOfOptimum h
  | softTerms =>
      obtain ⟨_, _, _, -, -, h⟩ := Inquiry.yields_bind_ok_iff.mp h
      obtain ⟨_, _, _, -, -, h⟩ := Inquiry.yields_bind_ok_iff.mp h
      obtain ⟨_, _, optimum, -, -, h⟩ := Inquiry.yields_bind_ok_iff.mp h
      exact Problem.positions_ne_nil_of_correctionOfOptimum h

/-- With any oracle, a method comes to a result unless the oracle itself gives up for a misuse. A
diagnosis consists of strictly increasing positions of the problem, at least one, and whatever is
put to the oracle for a verdict are the hard constraints, followed by the soft ones at strictly
increasing positions. -/
theorem diagnose_safe (oracle : Oracle σ C A ι) (problem : Problem C) (method : Method)
    (verify : Bool) (state : σ) :
    let inquiry := method.diagnose verify problem
    ((∀ exchange ∈ inquiry.run.transcript oracle state, ∃ answer, exchange.answer = .ok answer) →
      ∃ result, inquiry.result oracle state = .ok result) ∧
    (∀ diagnosis, inquiry.result oracle state = .ok (.ok diagnosis) →
      diagnosis.positions ≠ [] ∧ diagnosis.positions.Pairwise (· < ·) ∧
        ∀ position ∈ diagnosis.positions, position < problem.soft.length) ∧
    ∀ exchange ∈ inquiry.run.transcript oracle state, problem.Poses exchange.question := by
  intro inquiry
  have hasks : inquiry.run.Asks problem.Poses := by
    refine Problem.questionsSatisfy_poses.asks_diagnose ?_ method verify
    intro question hquestion constraints h
    exact absurd ⟨constraints, h⟩ hquestion
  refine ⟨fun hanswered => ?_, fun diagnosis hdiagnosis => ?_, fun exchange hexchange => ?_⟩
  · obtain ⟨result, _, hrun⟩ := Dialogue.exists_run_eq_ok_of_transcript hasks hanswered
    exact ⟨result, congrArg Prod.fst hrun⟩
  · have hne := Method.positions_ne_nil_of_diagnose (Dialogue.yields_of_run hdiagnosis)
    exact ⟨hne, diagnosis.increasing, diagnosis.lt_length⟩
  · exact (Dialogue.answer_of_mem_transcript (I := fun _ => True) hasks
      (fun _ _ _ _ => trivial) trivial exchange hexchange).1

/-- The scripted oracle never gives up. -/
theorem Script.exists_answer (question : Question Nat Nat) (state : Script.State) :
    ∃ answer state', Script.oracle.answer question state = (.ok answer, state') := by
  cases question <;> exact ⟨_, _, rfl⟩

/-- An oracle that accepts a constraint when it is stated once, but not when it is stated twice. -/
theorem diagnose_safe_of_contradiction :
    let problem : Problem Nat := { soft := [1, 1], hard := [1] }
    let state : Script.State :=
      { verdicts := [.ok true, .ok false, .ok false, .ok true]
        otherwise := .ok false
        optima := [] }
    let inquiry := Method.growth.diagnose true problem
    let correction : Diagnosis problem.soft := ⟨[0, 1], by decide, by decide⟩
    (∀ exchange ∈ inquiry.run.transcript Script.oracle state,
      ∃ answer, exchange.answer = .ok answer) ∧
    (∃ result, inquiry.result Script.oracle state = .ok result) ∧
    (inquiry.result Script.oracle state = .ok (.ok correction) ∧ correction.positions ≠ []) ∧
    ∀ exchange ∈ inquiry.run.transcript Script.oracle state,
      problem.Poses exchange.question := by
  intro problem state inquiry correction
  obtain ⟨hends, hdiagnosis, hposes⟩ := diagnose_safe Script.oracle problem .growth true state
  have hanswered := Dialogue.answered_of_mem_transcript Script.exists_answer inquiry.run state
  have hcorrection : inquiry.result Script.oracle state = .ok (.ok correction) := by
    decide +kernel
  exact ⟨hanswered, hends hanswered, ⟨hcorrection, (hdiagnosis correction hcorrection).1⟩, hposes⟩

end Infeasibility
