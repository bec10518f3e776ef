import Infeasibility.Diagnosis.Fault
import Infeasibility.Proofs.Dialogue.Inquiry
import Infeasibility.Proofs.FiniteDomain.Totality

/-! # Isolated faults

The search for a fault asks the solver about one constraint at a time. It ends at the first one
that the solver has no verdict on. -/

namespace Infeasibility.FiniteDomain

variable {solver : Solver} {constraints : List Constraint}

/-- What becomes of a search for the first constraint without a verdict. -/
inductive Isolates (solver : Solver) (constraints : List Constraint) : Option Fault → Prop where
  | nothing : (∀ c ∈ constraints, ∃ outcome, solver.solve [c] = .ok (.ok outcome)) →
      Isolates solver constraints none
  | fault (before after : List Constraint) {c : Constraint} {error : OracleError} :
      constraints = before ++ c :: after →
      (∀ b ∈ before, ∃ outcome, solver.solve [b] = .ok (.ok outcome)) →
      solver.solve [c] = .ok (.error error) →
      Isolates solver constraints (some ⟨before.length, error⟩)

/-- The constraint at fault is among those that were searched. -/
theorem Isolates.exists_constraint {fault : Fault} (h : Isolates solver constraints (some fault)) :
    ∃ c, constraints[fault.position]? = some c ∧
      solver.solve [c] = .ok (.error fault.error) := by
  cases h with
  | fault before after hsplit _ herror =>
      subst hsplit
      exact ⟨_, by simp, herror⟩

theorem Isolates.cons {c : Constraint} {outcome : Outcome Assignment}
    (hc : solver.solve [c] = .ok (.ok outcome)) {found : Option Fault}
    (h : Isolates solver constraints found) :
    Isolates solver (c :: constraints)
      (found.map fun fault => ⟨fault.position + 1, fault.error⟩) := by
  cases h with
  | nothing hrest =>
      exact .nothing (List.forall_mem_cons.mpr ⟨⟨outcome, hc⟩, hrest⟩)
  | fault before after hsplit hbefore herror =>
      subst hsplit
      exact .fault (c :: before) after rfl
        (List.forall_mem_cons.mpr ⟨⟨outcome, hc⟩, hbefore⟩) herror

theorem run_search (position : Nat) (constraints : List Constraint) (solver : Solver) :
    ∃ found, Isolates solver constraints found ∧
      (Fault.search position constraints).run oracle solver =
        (.ok (found.map fun fault => ⟨position + fault.position, fault.error⟩), solver) := by
  induction constraints generalizing position with
  | nil => exact ⟨none, .nothing (by simp), rfl⟩
  | cons c constraints ih =>
      obtain ⟨answer, hanswer⟩ := solver.exists_answer_solve [c]
      have hask : oracle.answer (.solve [c]) solver = (.ok answer, solver) :=
        congrArg (·, solver) hanswer
      cases answer with
      | error error =>
          refine ⟨some ⟨0, error⟩, .fault [] constraints rfl (by simp) hanswer, ?_⟩
          exact Dialogue.run_ask_of_ok hask
      | ok outcome =>
          obtain ⟨found, hfound, hrun⟩ := ih (position + 1)
          have hnext : (Fault.search position (c :: constraints)).run oracle solver =
              (Fault.search (position + 1) constraints).run oracle solver :=
            Dialogue.run_ask_of_ok hask
          refine ⟨_, hfound.cons hanswer, ?_⟩
          rw [hnext, hrun, Option.map_map]
          simp [Function.comp_def, Nat.add_assoc, Nat.add_comm 1]

/-- The search for the first fault comes to an end, and leaves the solver as it was. -/
theorem run_first? (h : constraints ≠ []) (solver : Solver) :
    ∃ found, Isolates solver constraints found ∧
      (Fault.first? constraints).run.run oracle solver = (.ok (.ok found), solver) := by
  obtain ⟨found, hfound, hrun⟩ := run_search 0 constraints solver
  have hempty : constraints.isEmpty = false := by simpa using h
  refine ⟨found, hfound, ?_⟩
  rw [Fault.first?, hempty]
  refine Inquiry.run_lift_of_ok (hrun.trans ?_)
  cases found <;> simp

end Infeasibility.FiniteDomain
