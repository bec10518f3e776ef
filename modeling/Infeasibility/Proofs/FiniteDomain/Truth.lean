import Infeasibility.FiniteDomain.Solver
import Infeasibility.Proofs.FiniteDomain.Admissible
import Infeasibility.Proofs.Results

/-! # Truth under an assignment

The solver finds constraints true exactly if they evaluate to true one by one. Where the evaluation
of constraints over the model comes to an error, the solver fails: nothing is missing for which the
question itself could be blamed. -/

namespace Infeasibility.FiniteDomain

/-- The search failed, and not for a misuse or for want of time or space. -/
def Halt.IsFailure (halt : Halt) : Prop :=
  ∃ cause, halt = .error (.failure cause)

/-- There is a text for each constraint over the model. -/
theorem Model.describe_of_declares {model : Model} {c : Constraint} (hc : model.Declares c.vars) :
    model.describe c = .ok (c.text model.label) := by
  have hnone : c.vars.find? (model.size ≤ ·) = none := by
    rw [List.find?_eq_none]
    intro v hv
    simpa using hc v hv
  rw [describe, hnone]

theorem Assignment.evalAll_eq_true_iff {a : Assignment} {cs : List Constraint} :
    a.evalAll cs = .ok true ↔ ∀ c ∈ cs, a.eval c = .ok true := by
  induction cs with
  | nil => simp [evalAll, pure, Except.pure]
  | cons c cs ih =>
      rw [evalAll, List.forall_mem_cons, ← ih]
      rcases a.eval c with error | _ | _ <;> simp [bind, Except.bind, pure, Except.pure]

namespace Solver

variable {solver : Solver} {a : Assignment} {c : Constraint} {cs : List Constraint}

/-! ## Truth -/

theorem holds_eq_ok_iff {truth : Bool} :
    solver.holds a c = .ok truth ↔ a.eval c = .ok truth := by
  rw [holds]
  cases a.eval c <;> simp [Except.mapError]

theorem allHold_eq_ok_iff {truth : Bool} :
    solver.allHold a cs = .ok truth ↔ a.evalAll cs = .ok truth := by
  induction cs with
  | nil => simp [allHold, Assignment.evalAll, pure, Except.pure]
  | cons c cs ih =>
      rw [allHold, holds, Assignment.evalAll]
      rcases a.eval c with error | _ | _
      · simp [Except.mapError, bind, Except.bind]
      · simp [Except.mapError, bind, Except.bind, pure, Except.pure]
      · exact ih

theorem allHold_eq_true_iff :
    solver.allHold a cs = .ok true ↔ ∀ c ∈ cs, a.eval c = .ok true :=
  allHold_eq_ok_iff.trans Assignment.evalAll_eq_true_iff

theorem allHold_eq_false (h : solver.allHold a cs = .ok false) :
    ∃ c ∈ cs, a.eval c = .ok false := by
  induction cs with
  | nil => cases h
  | cons c cs ih =>
      rw [allHold] at h
      split at h
      · cases h
      · rename_i hc
        exact ⟨c, List.mem_cons_self, holds_eq_ok_iff.mp hc⟩
      · obtain ⟨other, hmem, hother⟩ := ih h
        exact ⟨other, List.mem_cons_of_mem c hmem, hother⟩

/-- Two solvers agree where constraints evaluate to the same. -/
theorem allHold_eq_ok_congr {other : Solver} {b : Assignment}
    (heval : ∀ c ∈ cs, b.eval c = a.eval c) {truth : Bool} :
    other.allHold b cs = .ok truth ↔ solver.allHold a cs = .ok truth := by
  induction cs with
  | nil => rfl
  | cons c cs ih =>
      obtain ⟨hc, hcs⟩ := List.forall_mem_cons.mp heval
      rw [allHold, allHold, holds, holds, hc]
      rcases a.eval c with error | _ | _
      · simp [Except.mapError]
      · simp [Except.mapError]
      · exact ih hcs

/-- The constraints of a second list matter if those of the first one hold. -/
theorem allHold_append (cs ds : List Constraint) :
    solver.allHold a (cs ++ ds) =
      solver.allHold a cs >>= fun truth => if truth then solver.allHold a ds else pure false := by
  induction cs with
  | nil => rfl
  | cons c cs ih =>
      rw [List.cons_append, allHold, allHold, ih]
      rcases solver.holds a c with halt | _ | _ <;> rfl

/-! ## Errors -/

theorem holds_eq_error {halt : Halt} (h : solver.holds a c = .error halt) :
    ∃ error, a.eval c = .error error ∧ halt = solver.blame c error := by
  rw [holds] at h
  rcases heval : a.eval c with error | truth
  · rw [heval] at h
    exact ⟨error, rfl, (Except.error.inj h).symm⟩
  · rw [heval] at h
    cases h

theorem allHold_eq_error {halt : Halt} (h : solver.allHold a cs = .error halt) :
    ∃ c ∈ cs, solver.holds a c = .error halt := by
  induction cs with
  | nil => cases h
  | cons c cs ih =>
      rw [allHold] at h
      split at h
      · cases h
        exact ⟨c, List.mem_cons_self, ‹_›⟩
      · cases h
      · obtain ⟨other, hmem, hother⟩ := ih h
        exact ⟨other, List.mem_cons_of_mem c hmem, hother⟩

/-- The blame is passed on to a constraint with no other variables. -/
theorem declares_culprit {model : Model} (hc : model.Declares c.vars) :
    model.Declares (solver.culprit c).vars := by
  intro v hv
  unfold culprit at hv
  split at hv
  · split at hv
    · exact hc v (List.mem_append_right _ hv)
    · exact hc v hv
  · exact hc v hv

theorem blame_eq (hc : solver.model.Declares c.vars) {error : EvalError}
    (herror : ∀ v, error ≠ .unassigned v) :
    solver.blame c error = .error (.failure (error.message ++ " in `" ++
      (solver.culprit c).text solver.model.label ++ "`")) := by
  rw [blame]
  · rw [Model.describe_of_declares (declares_culprit hc)]
  · exact herror

theorem blame_isFailure (hc : solver.model.Declares c.vars) {error : EvalError}
    (herror : ∀ v, error ≠ .unassigned v) : (solver.blame c error).IsFailure :=
  ⟨_, blame_eq hc herror⟩

/-- An error in a constraint over the model is a failure. -/
theorem holds_isFailure (ha : solver.model.Admits a) (hc : solver.model.Declares c.vars)
    {halt : Halt} (h : solver.holds a c = .error halt) : halt.IsFailure := by
  obtain ⟨error, heval, rfl⟩ := holds_eq_error h
  have hmissing := Assignment.noneMissing_eval fun v hv => ha.isSome_value? (hc v hv)
  refine blame_isFailure hc fun v hv => ?_
  exact hmissing v (hv ▸ heval)

theorem allHold_isFailure (ha : solver.model.Admits a)
    (hcs : ∀ c ∈ cs, solver.model.Declares c.vars) {halt : Halt}
    (h : solver.allHold a cs = .error halt) : halt.IsFailure := by
  obtain ⟨c, hmem, hc⟩ := allHold_eq_error h
  exact holds_isFailure ha (hcs c hmem) hc

end Solver

end Infeasibility.FiniteDomain
