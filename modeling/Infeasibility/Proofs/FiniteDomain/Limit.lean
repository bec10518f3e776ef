import Infeasibility.Proofs.Diagnosis.Propagation
import Infeasibility.Proofs.FiniteDomain.Optimization
import Infeasibility.Proofs.FiniteDomain.Totality

/-! # Higher limits

A search that the limit does not cut short does not notice the limit. What it visits, and where it
ends, is the same with any higher one. A diagnosis therefore takes the same course with a higher
limit, question by question, unless the lower one is the reason why there is no diagnosis. -/

namespace Infeasibility.FiniteDomain

/-! ## Enumerations -/

section Sweep

variable {β : Type}

/-- A longer series begins with the shorter one, and goes on only if nothing has ended it. -/
theorem sweep_add (visit : Nat → β → Except Halt (ForInStep β)) (first second number : Nat)
    (state : β) :
    sweep visit (first + second) number state =
      match sweep visit first number state with
      | .ok ⟨false, next, state⟩ => sweep visit second next state
      | ended => ended := by
  induction first generalizing number state with
  | zero => rw [Nat.zero_add, sweep]
  | succ first ih =>
      rw [Nat.succ_add, sweep, sweep]
      rcases visit number state with halt | result | next
      · rfl
      · rfl
      · exact ih (number + 1) next

end Sweep

namespace Enumeration

variable {β : Type} {enumeration : Enumeration} {scope : List Var} {start : β}
  {visit : Assignment → β → Except Halt (ForInStep β)}

def withLimit (enumeration : Enumeration) (limit : Nat) : Enumeration :=
  { enumeration with limit }

theorem axes_withLimit {limit : Nat} :
    (enumeration.withLimit limit).axes scope = enumeration.axes scope := by
  induction scope with
  | nil => rfl
  | cons v scope ih =>
      rw [axes, axes, ih]
      rfl

/-- An enumeration that is not cut short ends in the same way with any higher limit. -/
theorem run_withLimit {limit : Nat} (hle : enumeration.limit ≤ limit)
    (h : ∀ text, enumeration.run scope start visit ≠ .error (.error (.resourceLimit text))) :
    (enumeration.withLimit limit).run scope start visit = enumeration.run scope start visit := by
  rcases haxes : enumeration.axes scope with halt | axes
  · rw [run, run, axes_withLimit, haxes]
    rfl
  cases hinterrupted : enumeration.interrupted with
  | true =>
      have hraised : (enumeration.withLimit limit).interrupted = true := hinterrupted
      rw [run, run, axes_withLimit, haxes, hinterrupted, hraised]
      rfl
  | false =>
      have haxes' : (enumeration.withLimit limit).axes scope = .ok axes :=
        axes_withLimit.trans haxes
      rw [run_of_axes haxes hinterrupted] at h ⊢
      rw [run_of_axes haxes' hinterrupted]
      change sweep (fun number => visit (enumeration.model.assignment axes number))
        (min (volume axes) limit) 0 start >>= (enumeration.withLimit limit).close _ = _
      rcases Nat.lt_or_ge enumeration.limit (volume axes) with hlt | hall
      · -- not all assignments may be visited, so a visit has put an end to the search
        obtain ⟨more, hmore⟩ : ∃ more, min (volume axes) limit = enumeration.limit + more :=
          ⟨min (volume axes) limit - enumeration.limit, by omega⟩
        rw [Nat.min_eq_right hlt.le] at h ⊢
        rw [hmore, sweep_add]
        generalize sweep (fun number => visit (enumeration.model.assignment axes number))
          enumeration.limit 0 start = outcome at h ⊢
        rcases outcome with halt | ⟨_ | _, visited, result⟩
        · rfl
        · exact absurd (close_of_lt hlt) (h _)
        · rfl
      · rw [Nat.min_eq_left hall, Nat.min_eq_left (hall.trans hle)]
        refine congrArg (_ >>= ·) (funext fun progress => ?_)
        have hall' : volume axes ≤ (enumeration.withLimit limit).limit := hall.trans hle
        rw [close_of_le hall, close_of_le hall']

theorem snd_run_withLimit {limit : Nat} (hle : enumeration.limit ≤ limit)
    (h : ∀ text, Prod.snd <$> enumeration.run scope start visit ≠
      .error (.error (.resourceLimit text))) :
    Prod.snd <$> (enumeration.withLimit limit).run scope start visit =
      Prod.snd <$> enumeration.run scope start visit := by
  rw [run_withLimit hle fun text hrun => h text ?_]
  rw [hrun]
  rfl

end Enumeration

/-! ## Answers -/

namespace Solver

variable {solver : Solver} {limit : Nat} {constraints hard terms : List Constraint}
  {a : Assignment} {c : Constraint}

def withLimit (solver : Solver) (limit : Nat) : Solver :=
  { solver with limit }

theorem holds_withLimit : (solver.withLimit limit).holds a c = solver.holds a c :=
  rfl

theorem allHold_withLimit :
    (solver.withLimit limit).allHold a constraints = solver.allHold a constraints := by
  induction constraints with
  | nil => rfl
  | cons c constraints ih => rw [allHold, allHold, ih, holds_withLimit]

theorem probe_withLimit :
    (solver.withLimit limit).probe constraints = solver.probe constraints := by
  funext a
  rw [probe, probe, allHold_withLimit]

theorem look_withLimit : (solver.withLimit limit).look hard terms = solver.look hard terms := by
  funext a
  rw [look, look, allHold_withLimit]
  rfl

theorem search_withLimit (hle : solver.limit ≤ limit)
    (h : ∀ text, solver.search constraints ≠ .error (.error (.resourceLimit text))) :
    (solver.withLimit limit).search constraints = solver.search constraints := by
  rw [search_eq] at h ⊢
  rw [search_eq, probe_withLimit]
  exact Enumeration.snd_run_withLimit hle h

theorem ascent_withLimit (hle : solver.limit ≤ limit)
    (h : ∀ text, solver.ascent hard terms ≠ .error (.error (.resourceLimit text))) :
    (solver.withLimit limit).ascent hard terms = solver.ascent hard terms := by
  rw [ascent] at h ⊢
  rw [ascent, look_withLimit]
  exact Enumeration.snd_run_withLimit hle h

theorem optimize_withLimit {soft : List (SoftTerm Constraint Var)} (hle : solver.limit ≤ limit)
    (h : ∀ text, solver.optimize hard soft ≠ .error (.error (.resourceLimit text))) :
    (solver.withLimit limit).optimize hard soft = solver.optimize hard soft := by
  rw [optimize_eq] at h ⊢
  rw [optimize_eq]
  change (if (!solver.softConstraints && soft.any isConstraint) = true then _ else _) = _
  split
  · rfl
  · rename_i haccepted
    rw [if_neg haccepted] at h
    exact ascent_withLimit hle h

theorem solve_withLimit (hle : solver.limit ≤ limit)
    (h : ∀ text, solver.solve constraints ≠ .ok (.error (.resourceLimit text))) :
    (solver.withLimit limit).solve constraints = solver.solve constraints := by
  rw [solve, solve, search_withLimit hle fun text hsearch => h text ?_]
  rw [solve, hsearch]
  rfl

theorem maximize_withLimit {soft : List (SoftTerm Constraint Var)} (hle : solver.limit ≤ limit)
    (h : ∀ text, solver.maximize hard soft ≠ .ok (.error (.resourceLimit text))) :
    (solver.withLimit limit).maximize hard soft = solver.maximize hard soft := by
  rw [maximize, maximize, optimize_withLimit hle fun text hoptimize => h text ?_]
  rw [maximize, hoptimize]
  rfl

end Solver

/-! ## Dialogues -/

/-- The exchange did not fail for the limit. -/
def WithinLimit (exchange : Exchange Constraint Assignment Var) : Prop :=
  ∀ text, exchange.failure? ≠ some (.resourceLimit text)

/-- A question that does not fail for the limit has the same answer with any higher one. -/
theorem answer_withLimit {solver : Solver} {limit : Nat} (hle : solver.limit ≤ limit)
    (question : Question Constraint Var)
    (h : WithinLimit ⟨question, (oracle.answer question solver).1⟩) :
    (oracle.answer question (solver.withLimit limit)).1 = (oracle.answer question solver).1 ∧
      (oracle.answer question (solver.withLimit limit)).2 =
        (oracle.answer question solver).2.withLimit limit ∧
      (oracle.answer question solver).2.limit = solver.limit := by
  cases question with
  | solve constraints =>
      refine ⟨Solver.solve_withLimit hle fun text hsolve => h text ?_, rfl, rfl⟩
      change Exchange.failure? ⟨.solve constraints, solver.solve constraints⟩ = _
      rw [hsolve]
      rfl
  | maximize hard soft =>
      refine ⟨Solver.maximize_withLimit hle fun text hmaximize => h text ?_, rfl, rfl⟩
      change Exchange.failure? ⟨.maximize hard soft, solver.maximize hard soft⟩ = _
      rw [hmaximize]
      rfl
  | newIndicator => exact ⟨rfl, rfl, rfl⟩
  | implication indicator constraint => exact ⟨rfl, rfl, rfl⟩
  | release released => exact ⟨rfl, rfl, rfl⟩
  | supportsSoft => exact ⟨rfl, rfl, rfl⟩

/-- A dialogue without failures for the limit takes the same course with any higher one. -/
theorem run_withLimit {α : Type} {x : Dialogue Constraint Assignment Var α} {solver : Solver}
    {limit : Nat} (hle : solver.limit ≤ limit)
    (h : ∀ exchange ∈ x.transcript oracle solver, WithinLimit exchange) :
    (x.run oracle (solver.withLimit limit)).1 = (x.run oracle solver).1 := by
  refine Dialogue.run_fst_eq_of_transcript (R := fun first second =>
    first.limit ≤ limit ∧ second = first.withLimit limit) ?_ ⟨hle, rfl⟩ h
  rintro question first _ ⟨hfirst, rfl⟩ hwithin
  obtain ⟨hanswer, hnext, hlimit⟩ := answer_withLimit hfirst question hwithin
  exact ⟨hanswer, hlimit.trans_le hfirst, hnext⟩

/-! ## Diagnoses -/

/-- A method passes a failure for the limit on, so there is none if its result is another one. -/
theorem withinLimit_of_diagnose {problem : Problem Constraint} {method : Method} {verify : Bool}
    {solver : Solver}
    (h : ∀ text, (method.diagnose verify problem).result oracle solver ≠
      .ok (.error (.unavailable (.resourceLimit text)))) :
    ∀ exchange ∈ (method.diagnose verify problem).run.transcript oracle solver,
      WithinLimit exchange := by
  intro exchange hmem text hfailure
  have hasks : (method.diagnose verify problem :
      Inquiry Constraint Assignment Var DiagnosisError _).run.Asks fun _ => True :=
    Problem.QuestionsSatisfy.asks_diagnose (fun _ _ _ => trivial) (fun _ _ => trivial) method
      verify
  obtain ⟨result, _, hrun⟩ := Dialogue.exists_run_eq_ok_of_transcript hasks
    (Dialogue.answered_of_mem_transcript exists_answer _ solver)
  have hresult : (method.diagnose verify problem).result oracle solver = .ok result :=
    congrArg Prod.fst hrun
  obtain rfl := (problem.passesOn_diagnose method verify).eq_of_failure
    (Dialogue.yields_of_run hresult) hmem hfailure
  exact h text hresult

/-- With a higher limit the solver gives the same answers, to questions for a verdict as for an
optimum, unless the lower limit is exceeded. So does every method of diagnosis: whatever its result
is, a diagnosis or an error with its text, it is the same unless that result is that the lower
limit is exceeded. -/
theorem higher_limit_changes_nothing (solver : Solver) (limit : Nat)
    (hle : solver.limit ≤ limit) :
    (∀ constraints, (∀ text, solver.solve constraints ≠ .ok (.error (.resourceLimit text))) →
      (solver.withLimit limit).solve constraints = solver.solve constraints) ∧
    (∀ hard soft, (∀ text, solver.maximize hard soft ≠ .ok (.error (.resourceLimit text))) →
      (solver.withLimit limit).maximize hard soft = solver.maximize hard soft) ∧
    ∀ (method : Method) (verify : Bool) (problem : Problem Constraint),
      (∀ text, (method.diagnose verify problem).result oracle solver ≠
        .ok (.error (.unavailable (.resourceLimit text)))) →
      (method.diagnose verify problem).result oracle (solver.withLimit limit) =
        (method.diagnose verify problem).result oracle solver := by
  refine ⟨fun constraints => Solver.solve_withLimit hle,
    fun hard soft => Solver.maximize_withLimit hle, fun method verify problem hresult => ?_⟩
  exact run_withLimit hle (withinLimit_of_diagnose hresult)

/-- The lower limit is exactly the number of assignments. The core is found with both limits, and
its check ends in the same error, as it divides by zero. -/
theorem higher_limit_changes_nothing_at_volume :
    let solver : Solver := { model := ⟨#[⟨"x", 0, 2, by decide⟩]⟩, limit := 3 }
    let problem : Problem Constraint :=
      { soft := [.compare .eq (.var 0) (.const 1), .compare .ne (.var 0) (.const 0),
          .compare .eq (.binary .div (.const 6) (.var 0)) (.const 3)] }
    let core : Diagnosis problem.soft := ⟨[0, 2], by decide, by decide⟩
    let failure : OracleError := .failure "division by zero in `6 / x == 3`"
    (solver.limit ≤ 1000 ∧
      (Method.deletion.diagnose false problem).result oracle solver = .ok (.ok core) ∧
      (Method.deletion.diagnose true problem).result oracle solver =
        .ok (.error (.unavailable failure))) ∧
    (Method.deletion.diagnose false problem).result oracle (solver.withLimit 1000) =
      .ok (.ok core) ∧
    (Method.deletion.diagnose true problem).result oracle (solver.withLimit 1000) =
      .ok (.error (.unavailable failure)) := by
  intro solver problem core failure
  have hle : solver.limit ≤ 1000 := by decide
  have hfound : (Method.deletion.diagnose false problem).result oracle solver =
      .ok (.ok core) := by
    decide +kernel
  have hfailed : (Method.deletion.diagnose true problem).result oracle solver =
      .ok (.error (.unavailable failure)) := by
    decide +kernel
  obtain ⟨-, -, hsame⟩ := higher_limit_changes_nothing solver 1000 hle
  refine ⟨⟨hle, hfound, hfailed⟩, ?_, ?_⟩
  · rw [hsame .deletion false problem (by simp [hfound]), hfound]
  · rw [hsame .deletion true problem (by simp [hfailed, failure]), hfailed]

end Infeasibility.FiniteDomain
