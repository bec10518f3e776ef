import Infeasibility.Proofs.FiniteDomain.Optimization
import Infeasibility.Proofs.FiniteDomain.Satisfiability

/-! # Exact answers

Which answer the solver gives is determined by the assignments of the variables that occur, in
lexicographic order: it depends on the first one that settles the question, and on whether that one
is within the limit. -/

namespace Infeasibility.FiniteDomain

variable {solver : Solver} {constraints : List Constraint}

/-- Under the assignment the constraints are true, or an error that no false constraint hides. -/
def Assignment.settles (a : Assignment) (constraints : List Constraint) : Bool :=
  decide (a.evalAll constraints ≠ .ok false)

/-- The answer that is due to a question about some constraints, if no more than `limit` of the
assignments may be tried. -/
def IsDue (constraints : List Constraint) (limit : Nat) (assignments : List Assignment)
    (answer : Except OracleError (Outcome Assignment)) : Prop :=
  match assignments.findIdx? (·.settles constraints) with
  | some k =>
    if k < limit then
      ∃ a, assignments[k]? = some a ∧
        if a.evalAll constraints = .ok true then
          answer = .ok (.satisfiable a)
        else
          ∃ cause, answer = .error (.failure cause)
    else
      ∃ text, answer = .error (.resourceLimit text)
  | none =>
    if assignments.length ≤ limit then
      answer = .ok .unsatisfiable
    else
      ∃ text, answer = .error (.resourceLimit text)

/-! ## The first assignment that settles the question -/

namespace Solver

section Numbered

variable {model : Model} {axes : List Axis} {k : Nat}

theorem findIdx?_eq_some_of_allFalse (hk : k < volume axes)
    (hearlier : AllFalse model constraints axes k)
    (hsettled : (model.assignment axes k).evalAll constraints ≠ .ok false) :
    (model.assignments axes).findIdx? (·.settles constraints) = some k := by
  rw [List.findIdx?_eq_some_iff_getElem]
  refine ⟨by simpa using hk, ?_, fun j hj => ?_⟩
  · simpa [Assignment.settles] using hsettled
  · simpa [Assignment.settles] using hearlier j hj

theorem findIdx?_eq_none_of_allFalse (hall : AllFalse model constraints axes (volume axes)) :
    (model.assignments axes).findIdx? (·.settles constraints) = none := by
  rw [List.findIdx?_eq_none_iff]
  intro a ha
  obtain ⟨number, hnumber, rfl⟩ := List.mem_map.mp ha
  simpa [Assignment.settles] using hall number (List.mem_range.mp hnumber)

theorem le_of_findIdx?_eq_some {bound : Nat} (hbelow : AllFalse model constraints axes bound)
    (h : (model.assignments axes).findIdx? (·.settles constraints) = some k) : bound ≤ k := by
  obtain ⟨hk, hsettled, -⟩ := List.findIdx?_eq_some_iff_getElem.mp h
  by_contra hlt
  have hfalse := hbelow k (Nat.lt_of_not_le hlt)
  simp [Assignment.settles, hfalse] at hsettled

end Numbered

/-- The answer that the end of a search amounts to. -/
def answerOfSearch (result : Except Halt (Option Assignment)) :
    Except Misuse (Except OracleError (Outcome Assignment)) :=
  Halt.separate <| result.map fun
    | none => .unsatisfiable
    | some assignment => .satisfiable assignment

/-- The end of a search amounts to the answer that is due. -/
theorem SearchEnds.exists_isDue {axes : List Axis} {result : Except Halt (Option Assignment)}
    (haxes : solver.model.Spans (Constraint.scope constraints) axes)
    (h : SearchEnds solver constraints axes result) :
    ∃ answer, answerOfSearch result = .ok answer ∧
      IsDue constraints solver.limit (solver.model.assignments axes) answer := by
  have hget : ∀ k < volume axes,
      (solver.model.assignments axes)[k]? = some (solver.model.assignment axes k) := by
    intro k hk
    rw [List.getElem?_eq_getElem (by simpa using hk), Model.getElem_assignments]
  cases h with
  | @halted k halt hk hlimit hearlier hhalt =>
      have hdeclared := Constraint.declares_scope_iff.mp haxes.declares
      obtain ⟨cause, rfl⟩ := allHold_isFailure (haxes.admits k) hdeclared hhalt
      -- No truth value settles the question: there is none.
      have hne : ∀ truth, (solver.model.assignment axes k).evalAll constraints ≠ .ok truth := by
        intro truth htruth
        rw [allHold_eq_ok_iff.mpr htruth] at hhalt
        cases hhalt
      refine ⟨_, rfl, ?_⟩
      rw [IsDue, findIdx?_eq_some_of_allFalse hk hearlier (hne false)]
      simp [hlimit, hget k hk, hne true]
  | @found k hk hlimit hearlier htrue =>
      have hne : (solver.model.assignment axes k).evalAll constraints ≠ .ok false := by
        simp [htrue]
      refine ⟨_, rfl, ?_⟩
      rw [IsDue, findIdx?_eq_some_of_allFalse hk hearlier hne]
      simp [hlimit, hget k hk, htrue]
  | exhausted hle hall =>
      refine ⟨_, rfl, ?_⟩
      rw [IsDue, findIdx?_eq_none_of_allFalse hall]
      simp [hle]
  | limited hlt hbelow =>
      refine ⟨_, rfl, ?_⟩
      rw [IsDue]
      split
      · rename_i k hk
        have hle : solver.limit ≤ k := le_of_findIdx?_eq_some hbelow hk
        simp [hle]
      · simp [hlt]

/-! ## The answer to a question -/

theorem solve_eq : solver.solve constraints = answerOfSearch (solver.search constraints) :=
  rfl

/-- A question about variables of another model is a failure. -/
theorem solve_of_not_declares (h : ¬ ∀ c ∈ constraints, solver.model.Declares c.vars) :
    ∃ cause, solver.solve constraints = .ok (.error (.failure cause)) := by
  have hscope : ¬ solver.enumeration.model.Declares (Constraint.scope constraints) :=
    fun hscope => h (Constraint.declares_scope_iff.mp hscope)
  obtain ⟨cause, hcause⟩ := Enumeration.run_of_not_declares hscope (none : Option Assignment)
  exact ⟨cause, by rw [solve_eq, search_eq, hcause]; rfl⟩

/-- An assignment that is found comes before all other solutions. -/
theorem isLeast_of_solve {a : Assignment}
    (h : solver.solve constraints = .ok (.ok (.satisfiable a))) :
    IsLeast {b | solver.model.Admits b ∧ ∀ c ∈ constraints, b.eval c = .ok true} a := by
  have hsearch := solve_eq_satisfiable_iff.mp h
  refine ⟨search_eq_ok hsearch, ?_⟩
  rintro b ⟨hb, htrue⟩
  obtain ⟨axes, haxes, hends⟩ := search_ends_of_eq_ok hsearch
  obtain ⟨number, hnumber, hle, hall⟩ := exists_number_of_solution haxes hb htrue
  cases hends with
  | @found k _ _ hearlier _ =>
      have hfirst : k ≤ number := by
        by_contra hlt
        have hfalse := hearlier number (Nat.lt_of_not_le hlt)
        rw [hall] at hfalse
        cases hfalse
      exact (haxes.assignment_le (Constraint.scope_pairwise _) hfirst hnumber).trans hle

/-- The solver answers a question as it is due. What satisfies the constraints is the least of all
assignments that do, and there is none if they are found unsatisfiable. -/
theorem solve_exact (solver : Solver) (hinterrupt : solver.interrupt ≠ some true)
    (constraints : List Constraint) :
    ((¬ ∀ c ∈ constraints, solver.model.Declares c.vars) →
      ∃ cause, solver.solve constraints = .ok (.error (.failure cause))) ∧
    ((∀ c ∈ constraints, solver.model.Declares c.vars) →
      ∃ assignments answer,
        solver.model.InOrder (Constraint.scope constraints) assignments ∧
        solver.solve constraints = .ok answer ∧
        IsDue constraints solver.limit assignments answer) ∧
    (∀ a, solver.solve constraints = .ok (.ok (.satisfiable a)) →
      IsLeast {b | solver.model.Admits b ∧ ∀ c ∈ constraints, b.eval c = .ok true} a) ∧
    (solver.solve constraints = .ok (.ok .unsatisfiable) →
      ¬ ∃ b, solver.model.Admits b ∧ ∀ c ∈ constraints, b.eval c = .ok true) := by
  refine ⟨solve_of_not_declares, fun hdeclared => ?_, fun a => isLeast_of_solve, fun h => ?_⟩
  · obtain ⟨axes, haxes⟩ := Model.exists_spans (Constraint.declares_scope_iff.mpr hdeclared)
    obtain ⟨answer, hanswer, hdue⟩ :=
      (search_ends haxes (interrupted_eq_false hinterrupt)).exists_isDue haxes
    exact ⟨_, answer, haxes.inOrder (Constraint.scope_pairwise _), hanswer, hdue⟩
  · have hsolvable : ¬ solver.model.Solvable constraints := by
      simp [← solve_isSat_iff h, Outcome.isSat]
    exact hsolvable

/-- Six divided by a variable: under the first assignment the quotient is negative, under the second
one the divisor is zero, and two visits are too few to come to the third. -/
theorem solve_exact_of_division :
    let solver : Nat → Solver := fun limit =>
      { model := ⟨#[⟨"x", -1, 1, by decide⟩, ⟨"y", -2, 5, by decide⟩]⟩, limit := limit }
    let quotient : Constraint := .compare .gt (.binary .div (.const 6) (.var 0)) (.const 0)
    let guarded : List Constraint := [.compare .ne (.var 0) (.const 0), quotient]
    ((solver 3).solve guarded = .ok (.ok (.satisfiable ⟨#[1, -2]⟩)) ∧
      IsLeast {b | (solver 3).model.Admits b ∧ ∀ c ∈ guarded, b.eval c = .ok true} ⟨#[1, -2]⟩) ∧
    (∃ assignments answer,
      (solver 2).model.InOrder (Constraint.scope guarded) assignments ∧
      (solver 2).solve guarded = .ok answer ∧ IsDue guarded 2 assignments answer) ∧
    (solver 2).solve guarded =
      .ok (.error (.resourceLimit "more than 2 assignments to enumerate")) ∧
    (solver 2).solve [quotient] = .ok (.error (.failure "division by zero in `6 / x > 0`")) ∧
    ∃ cause, (solver 2).solve [.literal 2] = .ok (.error (.failure cause)) := by
  intro solver quotient guarded
  have hfound : (solver 3).solve guarded = .ok (.ok (.satisfiable ⟨#[1, -2]⟩)) := by
    decide +kernel
  obtain ⟨-, -, hleast, -⟩ := solve_exact (solver 3) nofun guarded
  obtain ⟨-, hdue, -⟩ := solve_exact (solver 2) nofun guarded
  obtain ⟨hforeign, -⟩ := solve_exact (solver 2) nofun [.literal 2]
  refine ⟨⟨hfound, hleast _ hfound⟩, hdue (by decide), ?_, ?_, hforeign (by decide)⟩
  · decide +kernel
  · decide +kernel

/-! ## Optima -/

/-- An optimum has the truth values of the soft terms, no other assignment that meets the hard
constraints makes more of them true, and it is the least of those that make as many true. If there
is none the hard constraints are not solvable. -/
theorem maximize_exact (solver : Solver) (hard : List Constraint)
    (soft : List (SoftTerm Constraint Var)) :
    (∀ satisfied a, solver.maximize hard soft = .ok (.ok (.optimal satisfied a)) →
      List.Forall₂ (fun term truth => a.eval (constraintOf term) = .ok truth) soft satisfied ∧
      (∀ b, solver.model.Admits b → (∀ c ∈ hard, b.eval c = .ok true) →
        (soft.map constraintOf).countP b.makesTrue ≤ satisfied.count true) ∧
      IsLeast {b | solver.model.Admits b ∧ (∀ c ∈ hard, b.eval c = .ok true) ∧
        (soft.map constraintOf).countP b.makesTrue = satisfied.count true} a) ∧
    (solver.maximize hard soft = .ok (.ok .unsatisfiable) →
      ¬ ∃ b, solver.model.Admits b ∧ ∀ c ∈ hard, b.eval c = .ok true) := by
  constructor
  · intro satisfied a h
    obtain ⟨_ | best, hfound, hbest⟩ := exists_ascent_of_maximize h
    · exact nomatch hbest
    · cases hbest
      have hoptimal : Optimal solver.model hard (soft.map constraintOf) best := ascent_eq_ok hfound
      refine ⟨?_, hoptimal.countP_le, isLeast_of_ascent hfound⟩
      exact List.forall₂_map_left_iff.mp hoptimal.truths
  · intro h
    obtain ⟨_ | best, hfound, hbest⟩ := exists_ascent_of_maximize h
    · exact ascent_eq_ok hfound
    · exact nomatch hbest

/-- The soft terms cannot all be true, and the hard constraint keeps the divisor from zero. -/
theorem maximize_exact_of_division :
    let solver : Solver :=
      { model := ⟨#[⟨"x", -1, 2, by decide⟩, ⟨"b", 0, 1, by decide⟩, ⟨"y", -4, 4, by decide⟩]⟩
        limit := 8 }
    let nonzero : Constraint := .compare .ne (.var 0) (.const 0)
    let soft : List (SoftTerm Constraint Var) :=
      [.constraint (.compare .eq (.var 0) (.const 1)),
        .constraint (.compare .eq (.binary .div (.const 6) (.var 0)) (.const 3)), .indicator 1]
    (solver.maximize [nonzero] soft = .ok (.ok (.optimal [true, false, true] ⟨#[1, 1, -4]⟩)) ∧
      (∀ b, solver.model.Admits b → (∀ c ∈ [nonzero], b.eval c = .ok true) →
        (soft.map constraintOf).countP b.makesTrue ≤ 2) ∧
      IsLeast {b | solver.model.Admits b ∧ (∀ c ∈ [nonzero], b.eval c = .ok true) ∧
        (soft.map constraintOf).countP b.makesTrue = 2} ⟨#[1, 1, -4]⟩) ∧
    solver.maximize [nonzero, .not nonzero] soft = .ok (.ok .unsatisfiable) ∧
      ¬ ∃ b, solver.model.Admits b ∧ ∀ c ∈ [nonzero, .not nonzero], b.eval c = .ok true := by
  intro solver nonzero soft
  have hoptimal : solver.maximize [nonzero] soft =
      .ok (.ok (.optimal [true, false, true] ⟨#[1, 1, -4]⟩)) := by
    decide +kernel
  have hunsatisfiable : solver.maximize [nonzero, .not nonzero] soft =
      .ok (.ok .unsatisfiable) := by
    decide +kernel
  obtain ⟨hbest, -⟩ := maximize_exact solver [nonzero] soft
  obtain ⟨-, hnone⟩ := maximize_exact solver [nonzero, .not nonzero] soft
  obtain ⟨-, hmost, hleast⟩ := hbest _ _ hoptimal
  exact ⟨⟨hoptimal, hmost, hleast⟩, hunsatisfiable, hnone hunsatisfiable⟩

end Solver

end Infeasibility.FiniteDomain
