import Infeasibility.Proofs.Diagnosis.Optimization
import Infeasibility.Proofs.FiniteDomain.Truth

/-! # Indicators of the solver

Indicators are the last variables of the model while they are in use. They are consecutive, so
that their release leaves the model as it was before. -/

namespace Infeasibility.FiniteDomain

/-! ## Models with indicators -/

/-- The variable of an indicator. -/
def indicatorVariable (v : Var) : Variable :=
  ⟨s!"_ind{v}", .boolean⟩

namespace Model

/-- The model with some more indicators. -/
def withIndicators (model : Model) (count : Nat) : Model :=
  ⟨model.declarations ++ ((List.range' model.size count).map indicatorVariable).toArray⟩

variable {model : Model} {count : Nat} {v : Var}

@[simp] theorem size_withIndicators : (model.withIndicators count).size = model.size + count := by
  simp [withIndicators, size]

theorem declared?_withIndicators_of_lt (h : v < model.size) :
    (model.withIndicators count).declared? v = model.declared? v :=
  Array.getElem?_append_left h

theorem declared?_withIndicators_of_mem (h : v ∈ List.range' model.size count) :
    (model.withIndicators count).declared? v = some (indicatorVariable v) := by
  obtain ⟨hle, hlt⟩ := List.mem_range'_1.mp h
  rw [declared?, withIndicators, Array.getElem?_append_right hle]
  simp only [List.getElem?_toArray, List.getElem?_map]
  rw [List.getElem?_range' (by rw [size] at hle hlt; omega)]
  simp only [Option.map_some, Nat.one_mul]
  congr
  exact Nat.add_sub_of_le hle

end Model

namespace Solver

/-- The solver with some more indicators. -/
def withIndicators (solver : Solver) (count : Nat) : Solver :=
  { solver with
    model := solver.model.withIndicators count
    indicators := solver.indicators ++ List.range' solver.model.size count }

variable {solver : Solver} {count : Nat}

theorem withIndicators_zero : solver.withIndicators 0 = solver := by
  simp [withIndicators, Model.withIndicators]

theorem withIndicators_addIndicator :
    solver.addIndicator.withIndicators count = solver.withIndicators (count + 1) := by
  have hsize : (solver.model.addBoolean s!"_ind{solver.model.size}").size =
      solver.model.size + 1 := by
    simp [Model.addBoolean, Model.push, Model.size]
  rw [withIndicators, withIndicators, addIndicator]
  simp only [hsize, Model.withIndicators]
  simp [Model.addBoolean, Model.push, List.range'_succ, indicatorVariable]

/-- What remains once the indicators are released. -/
def withoutIndicators (solver : Solver) (released : List Var) : Solver :=
  { solver with
    indicators := solver.indicators.filter fun indicator => !released.contains indicator }

theorem withoutIndicators_nil (solver : Solver) : solver.withoutIndicators [] = solver := by
  simp [withoutIndicators]

theorem withoutIndicators_of_eq_nil (h : solver.indicators = []) (released : List Var) :
    solver.withoutIndicators released = solver := by
  rw [withoutIndicators, h, List.filter_nil, ← h]

theorem release_withIndicators :
    (solver.withIndicators count).release (List.range' solver.model.size count) =
      solver.withoutIndicators (List.range' solver.model.size count) := by
  have hfilter : (solver.indicators ++ List.range' solver.model.size count).filter
      (fun indicator => !(List.range' solver.model.size count).contains indicator) =
      solver.indicators.filter
        (fun indicator => !(List.range' solver.model.size count).contains indicator) := by
    simp
  have hmodel : ((solver.withIndicators count).release
      (List.range' solver.model.size count)).model = solver.model := by
    rw [release]
    cases count with
    | zero => simp [withIndicators_zero]
    | succ count =>
        have hmin : (List.range' solver.model.size (count + 1)).min? = some solver.model.size := by
          refine List.min?_eq_some_iff.mpr ⟨by simp, fun v hv => ?_⟩
          exact (List.mem_range'_1.mp hv).1
        have hlast : areLast (solver.withIndicators (count + 1)).model solver.model.size
            (List.range' solver.model.size (count + 1)) = true := by
          simp [areLast, withIndicators, List.nodup_range']
        simp only [hmin, hlast, if_true]
        simp [withIndicators, Model.withIndicators, Model.truncate, Model.size]
  rw [release] at hmodel ⊢
  rw [withoutIndicators]
  simp only [withIndicators] at hmodel ⊢
  rw [hmodel, hfilter]

end Solver

/-! ## Conversations about indicators -/

/-- Implications of constraints from consecutive indicators. -/
def links (first : Var) (constraints : List Constraint) : List Constraint :=
  ((List.range' first constraints.length).zip constraints).map
    fun (indicator, constraint) => .implies (.literal indicator) constraint

theorem mem_links_iff {first : Var} {constraints : List Constraint} {link : Constraint} :
    link ∈ links first constraints ↔ ∃ position, ∃ h : position < constraints.length,
      link = .implies (.literal (first + position)) constraints[position] := by
  rw [links, List.mem_map]
  constructor
  · rintro ⟨⟨v, c⟩, hmem, rfl⟩
    obtain ⟨position, hposition, heq⟩ := List.mem_iff_getElem.mp hmem
    have hlt : position < constraints.length := by simpa using hposition
    rw [List.getElem_zip, List.getElem_range', Nat.one_mul] at heq
    cases heq
    exact ⟨position, hlt, rfl⟩
  · rintro ⟨position, hlt, rfl⟩
    have hposition : position <
        ((List.range' first constraints.length).zip constraints).length := by
      simpa using hlt
    refine ⟨(first + position, constraints[position]), ?_, rfl⟩
    refine List.mem_iff_getElem.mpr ⟨position, hposition, ?_⟩
    rw [List.getElem_zip, List.getElem_range', Nat.one_mul]

/-- As many indicators as there are constraints, one after the other. -/
theorem run_newIndicators {ε : Type} (constraints : List Constraint) (solver : Solver) :
    (constraints.mapM fun _ => (ExceptT.lift Dialogue.newIndicator :
      Inquiry Constraint Assignment Var ε Var)).run.run oracle solver =
      (.ok (.ok (List.range' solver.model.size constraints.length)),
        solver.withIndicators constraints.length) := by
  induction constraints generalizing solver with
  | nil =>
      rw [List.mapM_nil, List.length_nil, Solver.withIndicators_zero]
      rfl
  | cons c constraints ih =>
      have hnew : (ExceptT.lift Dialogue.newIndicator :
          Inquiry Constraint Assignment Var ε Var).run.run oracle solver =
          (.ok (.ok solver.model.size), solver.addIndicator) := rfl
      have hsize : solver.addIndicator.model.size = solver.model.size + 1 := by
        simp [Solver.addIndicator, Model.addBoolean, Model.push, Model.size]
      rw [List.mapM_cons, Inquiry.run_bind_of_ok hnew, Inquiry.run_bind_of_ok (ih _),
        Solver.withIndicators_addIndicator, hsize, List.length_cons, List.range'_succ]
      rfl

theorem run_implications {ε : Type} (pairs : List (Var × Constraint)) (solver : Solver) :
    (pairs.mapM fun (indicator, constraint) =>
      (ExceptT.lift (Dialogue.implication indicator constraint) :
        Inquiry Constraint Assignment Var ε Constraint)).run.run oracle solver =
      (.ok (.ok (pairs.map fun (indicator, constraint) =>
        .implies (.literal indicator) constraint)), solver) := by
  induction pairs with
  | nil => rfl
  | cons pair pairs ih =>
      obtain ⟨indicator, constraint⟩ := pair
      have hlink : (ExceptT.lift (Dialogue.implication indicator constraint) :
          Inquiry Constraint Assignment Var ε Constraint).run.run oracle solver =
          (.ok (.ok (.implies (.literal indicator) constraint)), solver) := rfl
      rw [List.mapM_cons, Inquiry.run_bind_of_ok hlink, Inquiry.run_bind_of_ok ih]
      rfl

variable {solver : Solver} {problem : Problem Constraint}

/-- The optimum that the solver finds for a problem through indicators. -/
def Solver.maximizeLinked (solver : Solver) (problem : Problem Constraint) :
    Except Misuse (Except OracleError (Optimum Assignment)) :=
  (solver.withIndicators problem.soft.length).maximize
    (problem.hard ++ links solver.model.size problem.soft)
    ((List.range' solver.model.size problem.soft.length).map .indicator)

/-- The indicators are released whatever comes of the question, unless it was a misuse. -/
theorem run_maximizeIndicators : problem.maximizeIndicators.run.run oracle solver =
    match solver.maximizeLinked problem with
    | .ok result => (.ok result,
        solver.withoutIndicators (List.range' solver.model.size problem.soft.length))
    | .error misuse => (.error misuse, solver.withIndicators problem.soft.length) := by
  rcases hresult : solver.maximizeLinked problem with misuse | result
  · have hasked : (Dialogue.maximize (problem.hard ++ links solver.model.size problem.soft)
        ((List.range' solver.model.size problem.soft.length).map .indicator) :
        Dialogue Constraint Assignment Var _).run oracle
          (solver.withIndicators problem.soft.length) =
        (.error misuse, solver.withIndicators problem.soft.length) :=
      Dialogue.run_ask_of_error (congrArg (·, _) hresult)
    rw [Problem.maximizeIndicators, Inquiry.run_bind_of_ok (run_newIndicators _ _),
      Inquiry.run_bind_of_ok (run_implications _ _), ← links, Inquiry.run_bind_apply,
      Inquiry.run_lift_of_error hasked]
  · exact Problem.run_maximizeIndicators (run_newIndicators _ _) (run_implications _ _)
      (congrArg (·, _) hresult) (congrArg (Except.ok (), ·) Solver.release_withIndicators)

end Infeasibility.FiniteDomain
