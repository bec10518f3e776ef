import Infeasibility.Proofs.Dialogue.Inquiry
import Infeasibility.Proofs.FiniteDomain.Enumeration
import Infeasibility.Proofs.FiniteDomain.Lexicographic
import Infeasibility.Proofs.FiniteDomain.Truth

/-! # Verdicts of the solver

Whenever the solver has a verdict it is the right one: what it tries are the assignments of the
variables that occur, and those stand for all others. Errors that occur under assignments it does
not come to, or in constraints it does not come to, make no difference. -/

namespace Infeasibility.FiniteDomain

variable {solver : Solver} {constraints : List Constraint}

namespace Solver

/-- What a visit finds: the assignment itself, if the constraints hold under it. -/
def probe (solver : Solver) (constraints : List Constraint) (a : Assignment) :
    Except Halt (ForInStep (Option Assignment)) :=
  match solver.allHold a constraints with
  | .error halt => .error halt
  | .ok false => .ok (.yield none)
  | .ok true => .ok (.done (some a))

theorem search_eq : solver.search constraints =
    Prod.snd <$> solver.enumeration.run (Constraint.scope constraints) none
      fun a _ => solver.probe constraints a :=
  rfl

theorem interrupted_eq_false (h : solver.interrupt ≠ some true) :
    solver.enumeration.interrupted = false := by
  rw [enumeration]
  rcases hflag : solver.interrupt with _ | _ | _
  · rfl
  · rfl
  · exact absurd hflag h

theorem probe_eq_error {a : Assignment} {halt : Halt}
    (h : solver.probe constraints a = .error halt) :
    solver.allHold a constraints = .error halt := by
  rw [probe] at h
  split at h
  · cases h
    assumption
  · cases h
  · cases h

theorem probe_eq_yield {a : Assignment} {next : Option Assignment}
    (h : solver.probe constraints a = .ok (.yield next)) :
    solver.allHold a constraints = .ok false ∧ next = none := by
  rw [probe] at h
  split at h
  · cases h
  · cases h
    exact ⟨‹_›, rfl⟩
  · cases h

theorem probe_eq_done {a : Assignment} {result : Option Assignment}
    (h : solver.probe constraints a = .ok (.done result)) :
    solver.allHold a constraints = .ok true ∧ result = some a := by
  rw [probe] at h
  split at h
  · cases h
  · cases h
  · cases h
    exact ⟨‹_›, rfl⟩

/-- The constraints are false under the first numbered assignments of some axes. -/
def AllFalse (model : Model) (constraints : List Constraint) (axes : List Axis) (bound : Nat) :
    Prop :=
  ∀ number < bound, (model.assignment axes number).evalAll constraints = .ok false

/-- How a search through the assignments of some axes can end. -/
inductive SearchEnds (solver : Solver) (constraints : List Constraint) (axes : List Axis) :
    Except Halt (Option Assignment) → Prop where
  | halted {number halt} : number < volume axes → number < solver.limit →
      AllFalse solver.model constraints axes number →
      solver.allHold (solver.model.assignment axes number) constraints = .error halt →
      SearchEnds solver constraints axes (.error halt)
  | found {number} : number < volume axes → number < solver.limit →
      AllFalse solver.model constraints axes number →
      (solver.model.assignment axes number).evalAll constraints = .ok true →
      SearchEnds solver constraints axes (.ok (some (solver.model.assignment axes number)))
  | exhausted : volume axes ≤ solver.limit →
      AllFalse solver.model constraints axes (volume axes) →
      SearchEnds solver constraints axes (.ok none)
  | limited {text} : solver.limit < volume axes →
      AllFalse solver.model constraints axes solver.limit →
      SearchEnds solver constraints axes (.error (.error (.resourceLimit text)))

theorem search_ends {axes : List Axis}
    (haxes : solver.model.Spans (Constraint.scope constraints) axes)
    (hinterrupted : solver.enumeration.interrupted = false) :
    SearchEnds solver constraints axes (solver.search constraints) := by
  rw [search_eq]
  -- Until the search ends nothing is found, and the constraints were false each time.
  have hspans : solver.enumeration.model.Spans (Constraint.scope constraints) axes := haxes
  have hends := Enumeration.run_ends hspans none (fun a _ => solver.probe constraints a)
    (fun number state => state = none ∧ AllFalse solver.model constraints axes number)
    ⟨rfl, by simp [AllFalse]⟩ (by
      rintro number state next ⟨-, hearlier⟩ hvisit
      obtain ⟨hfalse, rfl⟩ := probe_eq_yield hvisit
      exact ⟨rfl, Nat.forall_lt_succ_right.mpr ⟨hearlier, allHold_eq_ok_iff.mp hfalse⟩⟩)
  generalize solver.enumeration.run (Constraint.scope constraints) none
    (fun a _ => solver.probe constraints a) = result at hends ⊢
  cases hends with
  | interrupted hraised => exact absurd hraised (by simp [hinterrupted])
  | halted _ hvolume hlimit hstate hvisit =>
      exact .halted hvolume hlimit hstate.2 (probe_eq_error hvisit)
  | stopped _ hvolume hlimit hstate hvisit =>
      obtain ⟨htrue, rfl⟩ := probe_eq_done hvisit
      exact .found hvolume hlimit hstate.2 (allHold_eq_ok_iff.mp htrue)
  | exhausted _ hle hstate =>
      obtain ⟨rfl, hfalse⟩ := hstate
      exact .exhausted hle hfalse
  | limited _ hlt hstate => exact .limited hlt hstate.2

/-- A search that comes to a result has gone through the assignments of a scope. -/
theorem search_ends_of_eq_ok {found : Option Assignment}
    (h : solver.search constraints = .ok found) :
    ∃ axes, solver.model.Spans (Constraint.scope constraints) axes ∧
      SearchEnds solver constraints axes (.ok found) := by
  obtain ⟨result, hrun, -⟩ := map_eq_ok_iff.mp h
  obtain ⟨axes, haxes⟩ := Enumeration.exists_spans_of_run hrun
  exact ⟨axes, haxes, h ▸ search_ends haxes (Enumeration.interrupted_of_run hrun)⟩

/-- What is true under an admissible assignment is true under one with a number. -/
theorem exists_number_of_solution {axes : List Axis}
    (haxes : solver.model.Spans (Constraint.scope constraints) axes) {a : Assignment}
    (ha : solver.model.Admits a) (htrue : ∀ c ∈ constraints, a.eval c = .ok true) :
    ∃ number < volume axes, solver.model.assignment axes number ≤ a ∧
      (solver.model.assignment axes number).evalAll constraints = .ok true := by
  obtain ⟨number, hnumber, hagree, hle⟩ :=
    haxes.exists_number_le (Constraint.scope_nodup constraints) ha
  refine ⟨number, hnumber, hle, Assignment.evalAll_eq_true_iff.mpr fun c hc => ?_⟩
  rw [Assignment.eval_congr fun v hv => hagree v (Constraint.mem_scope_iff.mpr ⟨c, hc, hv⟩)]
  exact htrue c hc

theorem search_eq_ok {found : Option Assignment} (h : solver.search constraints = .ok found) :
    match found with
    | some a => solver.model.Admits a ∧ ∀ c ∈ constraints, a.eval c = .ok true
    | none => ¬ solver.model.Solvable constraints := by
  obtain ⟨axes, haxes, hends⟩ := search_ends_of_eq_ok h
  cases hends with
  | found _ _ _ htrue => exact ⟨haxes.admits _, Assignment.evalAll_eq_true_iff.mp htrue⟩
  | exhausted _ hfalse =>
      rintro ⟨a, ha, htrue⟩
      obtain ⟨number, hnumber, -, hall⟩ := exists_number_of_solution haxes ha htrue
      cases (hfalse number hnumber).symm.trans hall

theorem solve_eq_satisfiable_iff {a : Assignment} :
    solver.solve constraints = .ok (.ok (.satisfiable a)) ↔
      solver.search constraints = .ok (some a) := by
  rw [solve, Halt.separate_eq_ok_ok_iff]
  rcases solver.search constraints with halt | _ | found <;> simp [Except.map]

theorem solve_eq_unsatisfiable_iff :
    solver.solve constraints = .ok (.ok .unsatisfiable) ↔
      solver.search constraints = .ok none := by
  rw [solve, Halt.separate_eq_ok_ok_iff]
  rcases solver.search constraints with halt | _ | found <;> simp [Except.map]

/-- A verdict tells whether the constraints are solvable. -/
theorem solve_isSat_iff {outcome : Outcome Assignment}
    (h : solver.solve constraints = .ok (.ok outcome)) :
    outcome.isSat ↔ solver.model.Solvable constraints := by
  cases outcome with
  | unsatisfiable =>
      exact iff_of_false (by simp [Outcome.isSat]) (search_eq_ok (solve_eq_unsatisfiable_iff.mp h))
  | satisfiable a => exact iff_of_true rfl ⟨a, search_eq_ok (solve_eq_satisfiable_iff.mp h)⟩

end Solver

/-! ## Conversations about verdicts -/

/-- Every verdict in a conversation about verdicts is an answer of the solver. -/
theorem solve_of_answered {α : Type} {x : Dialogue Constraint Assignment Var α}
    (hx : x.Asks Question.IsSolve) {satisfiable : Bool}
    (h : Answered (x.transcript oracle solver) constraints satisfiable) :
    ∃ outcome, outcome.isSat = satisfiable ∧ solver.solve constraints = .ok (.ok outcome) := by
  obtain ⟨outcome, hsat, hmem⟩ := h
  obtain ⟨-, state, rfl, hsolve⟩ := Dialogue.answer_of_mem_transcript (I := (· = solver)) hx
    (by rintro _ _ ⟨constraints, rfl⟩ rfl; rfl) rfl _ hmem
  exact ⟨outcome, hsat, hsolve⟩

/-- In a conversation about verdicts the solver tells the truth about its model. -/
theorem truthful_transcript {α : Type} {x : Dialogue Constraint Assignment Var α}
    (hx : x.Asks Question.IsSolve) (solver : Solver) :
    Truthful solver.model.Solvable (x.transcript oracle solver) := by
  intro constraints satisfiable h
  obtain ⟨outcome, rfl, hsolve⟩ := solve_of_answered hx h
  exact Solver.solve_isSat_iff hsolve

end Infeasibility.FiniteDomain
