import Infeasibility.Proofs.FiniteDomain.Optimization
import Infeasibility.Proofs.FiniteDomain.Satisfiability

/-! # Answers of the solver

Whatever the solver is asked, it gives a verdict or has an error to report: it fails at a
constraint, it is interrupted, or its limit is exceeded. A variable without a value would be a
misuse of an assignment, but the assignments that are visited give a value to each variable of the
model, and variables of another model are found before anything is visited. -/

namespace Infeasibility.FiniteDomain

/-! ## Ordinary errors -/

/-- The error is one that a search through assignments may have to report. -/
def IsOrdinary : OracleError → Prop
  | .interrupted | .resourceLimit _ | .failure _ => True
  | .timeout | .inconsistent _ => False

namespace Halt

variable {α β : Type} {x : Except Halt α}

/-- The search has been given up for an ordinary error. -/
def IsOrdinary : Halt → Prop
  | .misuse _ => False
  | .error cause => FiniteDomain.IsOrdinary cause

theorem IsFailure.isOrdinary {halt : Halt} (h : halt.IsFailure) : halt.IsOrdinary := by
  obtain ⟨text, rfl⟩ := h
  trivial

/-- The answer that a search leads to, if it is given up for ordinary errors only. -/
theorem exists_separate_map_eq_ok {f : α → β} (h : ∀ halt, x = .error halt → halt.IsOrdinary) :
    ∃ answer, separate (x.map f) = .ok answer ∧
      ∀ error, answer = .error error → FiniteDomain.IsOrdinary error := by
  rcases x with (misuse | cause) | value
  · exact (h _ rfl).elim
  · refine ⟨.error cause, rfl, ?_⟩
    rintro _ ⟨⟩
    exact h _ rfl
  · exact ⟨.ok (f value), rfl, by simp⟩

end Halt

/-! ## Enumerations -/

/-- An enumeration of variables of the model is given up from outside, or by a visit. -/
theorem Enumeration.halt_of_run {β : Type} {enumeration : Enumeration} {scope : List Var}
    {start : β} {visit : Assignment → β → Except Halt (ForInStep β)}
    (hdeclares : enumeration.model.Declares scope) {halt : Halt}
    (h : enumeration.run scope start visit = .error halt) :
    halt = .error .interrupted ∨ (∃ text, halt = .error (.resourceLimit text)) ∨
      ∃ a state, enumeration.model.Admits a ∧ visit a state = .error halt := by
  obtain ⟨axes, haxes⟩ := Model.exists_spans hdeclares
  have hends := run_ends haxes start visit (fun _ _ => True) trivial fun _ _ _ _ _ => trivial
  rw [h] at hends
  cases hends with
  | interrupted => exact .inl rfl
  | limited => exact .inr (.inl ⟨_, rfl⟩)
  | halted _ _ _ _ herror => exact .inr (.inr ⟨_, _, haxes.admits _, herror⟩)

/-- Errors that are not ordinary are those of a visit. -/
theorem Enumeration.isOrdinary_of_run {β : Type} {enumeration : Enumeration} {scope : List Var}
    {start : β} {visit : Assignment → β → Except Halt (ForInStep β)}
    (hvisit : enumeration.model.Declares scope → ∀ a state halt, enumeration.model.Admits a →
      visit a state = .error halt → halt.IsOrdinary) {halt : Halt}
    (h : enumeration.run scope start visit = .error halt) : halt.IsOrdinary := by
  by_cases hdeclares : enumeration.model.Declares scope
  · rcases halt_of_run hdeclares h with rfl | ⟨text, rfl⟩ | ⟨a, state, ha, herror⟩
    · trivial
    · trivial
    · exact hvisit hdeclares a state halt ha herror
  · obtain ⟨text, hfailure⟩ := run_of_not_declares hdeclares start
    rw [hfailure] at h
    cases h
    trivial

namespace Solver

variable {solver : Solver} {hard terms constraints : List Constraint} {a : Assignment}

/-! ## Searches -/

theorem isOrdinary_of_search {halt : Halt} (h : solver.search constraints = .error halt) :
    halt.IsOrdinary := by
  rw [search_eq] at h
  refine Enumeration.isOrdinary_of_run (fun hscope a _ halt ha hvisit => ?_) (map_eq_error_iff.mp h)
  have hdeclared := Constraint.declares_scope_iff.mp hscope
  exact (allHold_isFailure ha hdeclared (probe_eq_error hvisit)).isOrdinary

/-- A view is an error if one of the constraints or terms is. -/
theorem look_eq_error {halt : Halt} (h : solver.look hard terms a = .error halt) :
    ∃ c ∈ hard ++ terms, solver.holds a c = .error halt := by
  rw [look] at h
  split at h
  · rename_i halt' herror
    cases h
    obtain ⟨c, hc, hholds⟩ := allHold_eq_error herror
    exact ⟨c, List.mem_append_left terms hc, hholds⟩
  · cases h
  · split at h
    · rename_i halt' herror
      cases h
      obtain ⟨t, ht, hholds⟩ := exists_of_mapM_eq_error herror
      exact ⟨t, List.mem_append_right hard ht, hholds⟩
    · cases h

theorem look_isFailure (ha : solver.model.Admits a)
    (hdeclared : ∀ c ∈ hard ++ terms, solver.model.Declares c.vars) {halt : Halt}
    (h : solver.look hard terms a = .error halt) : halt.IsFailure := by
  obtain ⟨c, hc, hholds⟩ := look_eq_error h
  exact holds_isFailure ha (hdeclared c hc) hholds

theorem isOrdinary_of_optimize {soft : List (SoftTerm Constraint Var)} {halt : Halt}
    (h : solver.optimize hard soft = .error halt) : halt.IsOrdinary := by
  rw [optimize_eq] at h
  split at h
  · cases h
    trivial
  refine Enumeration.isOrdinary_of_run (fun hscope a best halt ha hvisit => ?_)
    (map_eq_error_iff.mp h)
  have hdeclared := Constraint.declares_scope_iff.mp hscope
  exact (look_isFailure ha hdeclared (climb_eq_error hvisit)).isOrdinary

/-! ## Answers -/

theorem exists_ordinary_answer_solve (solver : Solver) (constraints : List Constraint) :
    ∃ answer, solver.solve constraints = .ok answer ∧
      ∀ error, answer = .error error → IsOrdinary error :=
  Halt.exists_separate_map_eq_ok fun _ => isOrdinary_of_search

theorem exists_ordinary_answer_maximize (solver : Solver) (hard : List Constraint)
    (soft : List (SoftTerm Constraint Var)) :
    ∃ answer, solver.maximize hard soft = .ok answer ∧
      ∀ error, answer = .error error → IsOrdinary error :=
  Halt.exists_separate_map_eq_ok fun _ => isOrdinary_of_optimize

theorem exists_answer_solve (solver : Solver) (constraints : List Constraint) :
    ∃ answer, solver.solve constraints = .ok answer := by
  obtain ⟨answer, hanswer, -⟩ := solver.exists_ordinary_answer_solve constraints
  exact ⟨answer, hanswer⟩

theorem exists_answer_maximize (solver : Solver) (hard : List Constraint)
    (soft : List (SoftTerm Constraint Var)) :
    ∃ answer, solver.maximize hard soft = .ok answer := by
  obtain ⟨answer, hanswer, -⟩ := solver.exists_ordinary_answer_maximize hard soft
  exact ⟨answer, hanswer⟩

end Solver

/-- No question is a misuse. -/
theorem exists_answer (question : Question Constraint Var) (solver : Solver) :
    ∃ answer solver', oracle.answer question solver = (.ok answer, solver') := by
  cases question with
  | solve constraints =>
      obtain ⟨answer, hanswer⟩ := solver.exists_answer_solve constraints
      exact ⟨answer, solver, congrArg (·, solver) hanswer⟩
  | maximize hard soft =>
      obtain ⟨answer, hanswer⟩ := solver.exists_answer_maximize hard soft
      exact ⟨answer, solver, congrArg (·, solver) hanswer⟩
  | newIndicator => exact ⟨_, _, rfl⟩
  | implication indicator constraint => exact ⟨_, _, rfl⟩
  | release released => exact ⟨_, _, rfl⟩
  | supportsSoft => exact ⟨_, _, rfl⟩

/-- Evaluation reads the variables of a constraint and no others: assignments of any lengths that
cover these variables and agree on them give it the same truth value or the same error, and only one
of these variables is ever found without a value. So the solver comes to an answer, whatever it is
asked: all variables of a constraint at fault have labels, and so do those of the part of it that is
to blame. -/
theorem evaluation_stays_in_bounds :
    (∀ (c : Constraint) (a b : Assignment),
      (∀ v ∈ c.vars, v < a.values.size ∧ v < b.values.size ∧ a.value? v = b.value? v) →
        a.eval c = b.eval c ∧ ∀ v, a.eval c ≠ .error (.unassigned v)) ∧
    (∀ (c : Constraint) (a : Assignment) (v : Var), a.eval c = .error (.unassigned v) →
      v ∈ c.vars ∧ a.values.size ≤ v) ∧
    ∀ solver : Solver,
      (∀ c, solver.model.Declares c.vars →
        ∃ text, solver.model.describe (solver.culprit c) = .ok text) ∧
      (∀ constraints, ∃ answer, solver.solve constraints = .ok answer ∧
        ∀ error, answer = .error error → IsOrdinary error) ∧
      ∀ hard soft, ∃ answer, solver.maximize hard soft = .ok answer ∧
        ∀ error, answer = .error error → IsOrdinary error := by
  refine ⟨fun c a b h => ⟨?_, ?_⟩, fun c a v h => ?_, fun solver => ⟨fun c hc => ?_, ?_, ?_⟩⟩
  · exact Assignment.eval_congr fun v hv => (h v hv).2.2
  · refine Assignment.noneMissing_eval fun v hv => ?_
    simpa [Assignment.value?] using (h v hv).1
  · obtain ⟨hmem, hnone⟩ := a.missesOnly_eval c v h
    exact ⟨hmem, Array.getElem?_eq_none_iff.mp hnone⟩
  · exact ⟨_, Model.describe_of_declares (Solver.declares_culprit hc)⟩
  · exact solver.exists_ordinary_answer_solve
  · exact solver.exists_ordinary_answer_maximize

/-- The longer of two assignments has a value for a variable that does not occur. An integer
variable stands as a literal, the failure of an implication is put down to its conclusion, and no
model has the last variable. -/
theorem evaluation_stays_in_bounds_of_division :
    let division : Constraint := .compare .gt (.binary .rem (.const 5) (.var 0)) (.const 2)
    let c : Constraint := .implies (.literal 1) (.all [.not (.literal 0), division])
    let a : Assignment := ⟨#[0, 1]⟩
    let b : Assignment := ⟨#[0, 1, 7]⟩
    let solver : Solver :=
      { model := ⟨#[⟨"x", 0, 2, by decide⟩, ⟨"_ind1", 0, 1, by decide⟩]⟩, limit := 6
        indicators := [1] }
    ((∀ v ∈ c.vars, v < a.values.size ∧ v < b.values.size ∧ a.value? v = b.value? v) ∧
      a.eval c = b.eval c ∧ a.eval c = .error .divisionByZero) ∧
      solver.solve [.literal 1, c] =
        .ok (.error (.failure "division by zero in `!x & 5 % x > 2`")) ∧
      ∃ answer, solver.maximize [c] [.constraint (.literal 2)] = .ok answer := by
  intro division c a b solver
  have hcovered : ∀ v ∈ c.vars,
      v < a.values.size ∧ v < b.values.size ∧ a.value? v = b.value? v := by
    decide
  obtain ⟨hlocal, -, hsolver⟩ := evaluation_stays_in_bounds
  obtain ⟨-, -, hmaximize⟩ := hsolver solver
  obtain ⟨answer, hanswer, -⟩ := hmaximize [c] [.constraint (.literal 2)]
  exact ⟨⟨hcovered, (hlocal c a b hcovered).1, by decide⟩, by decide +kernel, answer, hanswer⟩

end Infeasibility.FiniteDomain
