import Infeasibility.Proofs.FiniteDomain.Ascent
import Infeasibility.Proofs.FiniteDomain.Lexicographic
import Infeasibility.Proofs.FiniteDomain.Truth

/-! # Optima of the solver

The views of the solver are the candidates that assignments make. The optimum that it finds is an
admissible assignment which meets the hard constraints, and none of these makes more soft terms
true, even if it was not visited or if it makes some soft terms an error. -/

namespace Infeasibility.FiniteDomain

/-- Whether a constraint is true under an assignment, and no error. -/
def Assignment.makesTrue (a : Assignment) (c : Constraint) : Bool :=
  match a.eval c with
  | .ok truth => truth
  | .error _ => false

theorem Assignment.makesTrue_iff {a : Assignment} {c : Constraint} :
    a.makesTrue c = true ↔ a.eval c = .ok true := by
  rw [makesTrue]
  rcases a.eval c with error | truth <;> simp

/-- Truth values of constraints count as many of them as are true. -/
theorem count_eq_countP {a : Assignment} {terms : List Constraint} {satisfied : List Bool}
    (h : List.Forall₂ (fun c truth => a.eval c = .ok truth) terms satisfied) :
    satisfied.count true = terms.countP a.makesTrue := by
  induction h with
  | nil => rfl
  | @cons c truth terms satisfied hc _ ih =>
      have hmakes : a.makesTrue c = truth := by rw [Assignment.makesTrue, hc]
      rw [List.count_cons, List.countP_cons, ih, hmakes]
      simp

namespace Solver

variable {solver : Solver} {hard terms : List Constraint}

/-! ## Candidates -/

/-- The view of an assignment. -/
def look (solver : Solver) (hard terms : List Constraint) (a : Assignment) : View :=
  match solver.allHold a hard with
  | .error halt => .error halt
  | .ok false => .ok none
  | .ok true =>
    match terms.mapM (solver.holds a) with
    | .error halt => .error halt
    | .ok satisfied => .ok (some ⟨satisfied, a⟩)

/-- The search through the views of the solver. -/
def ascent (solver : Solver) (hard terms : List Constraint) : View :=
  Prod.snd <$> solver.enumeration.run (Constraint.scope (hard ++ terms)) none
    fun a best => climb terms.length best (solver.look hard terms a)

theorem optimize_eq (hard : List Constraint) (soft : List (SoftTerm Constraint Var)) :
    solver.optimize hard soft =
      if !solver.softConstraints && soft.any isConstraint then
        .error (.error (.failure "soft constraints are disabled"))
      else
        solver.ascent hard (soft.map constraintOf) := by
  rw [optimize, ascent]
  refine if_congr Iff.rfl rfl (congrArg (Prod.snd <$> solver.enumeration.run _ none ·) ?_)
  funext a best
  rw [look]
  rcases solver.allHold a hard with halt | _ | _
  · rfl
  · rfl
  · rcases (soft.map constraintOf).mapM (solver.holds a) with halt | satisfied <;> rfl

theorem look_eq_some {a : Assignment} {c : Candidate}
    (h : solver.look hard terms a = .ok (some c)) :
    c.assignment = a ∧ (∀ h ∈ hard, c.assignment.eval h = .ok true) ∧
      List.Forall₂ (fun t truth => c.assignment.eval t = .ok truth) terms c.satisfied := by
  rw [look] at h
  split at h
  · cases h
  · cases h
  · rename_i hhard
    split at h
    · cases h
    · rename_i satisfied hsatisfied
      cases h
      refine ⟨rfl, allHold_eq_true_iff.mp hhard, ?_⟩
      exact (mapM_eq_ok_iff.mp hsatisfied).imp fun _ _ => holds_eq_ok_iff.mp

theorem look_append_of_error {more : List Constraint} {a : Assignment} {halt : Halt}
    (h : solver.allHold a hard = .error halt) :
    solver.look (hard ++ more) terms a = .error halt := by
  rw [look, allHold_append, h]
  rfl

theorem look_append_of_false {more : List Constraint} {a : Assignment}
    (h : solver.allHold a hard = .ok false) : solver.look (hard ++ more) terms a = .ok none := by
  rw [look, allHold_append, h]
  rfl

/-- Hard constraints that hold make no difference to a view. -/
theorem look_append {more : List Constraint} {a : Assignment}
    (h : ∀ c ∈ hard, a.eval c = .ok true) :
    solver.look (hard ++ more) terms a = solver.look more terms a := by
  rw [look, look, allHold_append, allHold_eq_true_iff.mpr h]
  rfl

theorem look_ne_none {a : Assignment} (h : ∀ c ∈ hard, a.eval c = .ok true) :
    solver.look hard terms a ≠ .ok none := by
  rw [look, allHold_eq_true_iff.mpr h]
  rcases terms.mapM (solver.holds a) with halt | satisfied <;> simp

theorem count_eq_of_look {a : Assignment} {c : Candidate}
    (h : solver.look hard terms a = .ok (some c)) : c.count = terms.countP a.makesTrue := by
  obtain ⟨rfl, -, htruths⟩ := look_eq_some h
  exact count_eq_countP htruths

theorem count_le_of_look {a : Assignment} {c : Candidate}
    (h : solver.look hard terms a = .ok (some c)) : c.count ≤ terms.length := by
  rw [count_eq_of_look h]
  exact List.countP_le_length

/-! ## The optimum -/

/-- The candidate is an assignment that the model admits and that meets the hard constraints. No
other one of these makes more terms true. -/
structure Optimal (model : Model) (hard terms : List Constraint) (best : Candidate) : Prop where
  admits : model.Admits best.assignment
  meets : ∀ c ∈ hard, best.assignment.eval c = .ok true
  truths : List.Forall₂ (fun c truth => best.assignment.eval c = .ok truth) terms best.satisfied
  countP_le : ∀ a, model.Admits a → (∀ c ∈ hard, a.eval c = .ok true) →
    terms.countP a.makesTrue ≤ best.count

/-- The end of a search through the views of the solver. -/
theorem ascent_ends (solver : Solver) {axes : List Axis}
    (haxes : solver.model.Spans (Constraint.scope (hard ++ terms)) axes)
    (hinterrupted : solver.enumeration.interrupted = false) :
    AscentEnds terms.length
      (fun number => solver.look hard terms (solver.model.assignment axes number))
      (volume axes) solver.limit (solver.ascent hard terms) :=
  ascentEnds_of_run haxes hinterrupted fun _ _ => count_le_of_look

/-- A search that comes to a result has gone through the views of a scope. -/
theorem ascent_ends_of_eq_ok {found : Option Candidate} (h : solver.ascent hard terms = .ok found) :
    ∃ axes, solver.model.Spans (Constraint.scope (hard ++ terms)) axes ∧
      AscentEnds terms.length
        (fun number => solver.look hard terms (solver.model.assignment axes number))
        (volume axes) solver.limit (.ok found) := by
  obtain ⟨result, hrun, -⟩ := map_eq_ok_iff.mp h
  obtain ⟨axes, haxes⟩ := Enumeration.exists_spans_of_run hrun
  exact ⟨axes, haxes, h ▸ solver.ascent_ends haxes (Enumeration.interrupted_of_run hrun)⟩

/-- All constraints and terms are about variables of the model if there is an optimum. -/
theorem declares_of_ascent {found : Option Candidate} (h : solver.ascent hard terms = .ok found) :
    ∀ c ∈ hard ++ terms, solver.model.Declares c.vars := by
  obtain ⟨axes, haxes, -⟩ := ascent_ends_of_eq_ok h
  exact Constraint.declares_scope_iff.mp haxes.declares

/-- For each admissible assignment that meets the hard constraints there is the view of one that
does not come after it. The view is not empty, and not worse if it is a candidate. -/
theorem exists_view {axes : List Axis}
    (haxes : solver.model.Spans (Constraint.scope (hard ++ terms)) axes) {a : Assignment}
    (ha : solver.model.Admits a) (hmeets : ∀ c ∈ hard, a.eval c = .ok true) :
    ∃ number < volume axes, solver.model.assignment axes number ≤ a ∧
      solver.look hard terms (solver.model.assignment axes number) ≠ .ok none ∧
        ∀ c, solver.look hard terms (solver.model.assignment axes number) = .ok (some c) →
          c.count = terms.countP a.makesTrue := by
  obtain ⟨number, hnumber, hagree, hle⟩ := haxes.exists_number_le (Constraint.scope_nodup _) ha
  have heval : ∀ c ∈ hard ++ terms,
      (solver.model.assignment axes number).eval c = a.eval c := by
    intro c hc
    exact Assignment.eval_congr fun v hv =>
      hagree v (Constraint.mem_scope_iff.mpr ⟨c, hc, hv⟩)
  refine ⟨number, hnumber, hle, look_ne_none fun c hc => ?_, fun c hview => ?_⟩
  · rw [heval c (List.mem_append_left _ hc), hmeets c hc]
  · rw [count_eq_of_look hview]
    refine List.countP_congr fun t ht => ?_
    rw [Assignment.makesTrue, heval t (List.mem_append_right _ ht), ← Assignment.makesTrue]

theorem ascent_eq_ok {found : Option Candidate} (h : solver.ascent hard terms = .ok found) :
    match found with
    | some best => Optimal solver.model hard terms best
    | none => ¬ solver.model.Solvable hard := by
  obtain ⟨axes, haxes, hends⟩ := ascent_ends_of_eq_ok h
  cases hends with
  | reached _ _ _ hview hcount =>
      obtain ⟨hassignment, hmeets, htruths⟩ := look_eq_some hview
      refine ⟨hassignment ▸ haxes.admits _, hmeets, htruths, fun a _ _ => ?_⟩
      rw [hcount]
      exact List.countP_le_length
  | exhausted _ hpass hleads =>
      cases found with
      | none =>
          rintro ⟨a, ha, hmeets⟩
          obtain ⟨number, hnumber, -, hne, -⟩ := exists_view haxes ha hmeets
          obtain ⟨_ | c, hview, -⟩ := hpass number hnumber
          · exact hne hview
          · exact hleads number hnumber c hview
      | some best =>
          obtain ⟨first, -, hbest, hle⟩ := hleads
          obtain ⟨hassignment, hmeets, htruths⟩ := look_eq_some hbest
          refine ⟨hassignment ▸ haxes.admits _, hmeets, htruths, fun a ha hmeets => ?_⟩
          obtain ⟨number, hnumber, -, hne, hcount⟩ := exists_view haxes ha hmeets
          obtain ⟨_ | c, hview, -⟩ := hpass number hnumber
          · exact absurd hview hne
          · rw [← hcount c hview]
            exact (hle number hnumber c hview).1

/-- An optimum comes before all other assignments that are as good. -/
theorem isLeast_of_ascent {best : Candidate} (h : solver.ascent hard terms = .ok (some best)) :
    IsLeast {a | solver.model.Admits a ∧ (∀ c ∈ hard, a.eval c = .ok true) ∧
      terms.countP a.makesTrue = best.count} best.assignment := by
  have hbest : Optimal solver.model hard terms best := ascent_eq_ok h
  refine ⟨⟨hbest.admits, hbest.meets, (count_eq_countP hbest.truths).symm⟩, ?_⟩
  rintro a ⟨ha, hmeets, hcount⟩
  obtain ⟨axes, haxes, hends⟩ := ascent_ends_of_eq_ok h
  obtain ⟨first, hfirst, hview, hearlier⟩ := hends.exists_first
  obtain ⟨number, hnumber, hle, hne, hsame⟩ := exists_view haxes ha hmeets
  have hnot : first ≤ number := by
    by_contra hlt
    obtain ⟨_ | c, hseen, hless⟩ := hearlier number (Nat.lt_of_not_le hlt)
    · exact hne hseen
    · have hc := hsame c hseen
      have hlt := hless c rfl
      omega
  obtain ⟨hassignment, -⟩ := look_eq_some hview
  rw [hassignment]
  exact (haxes.assignment_le (Constraint.scope_pairwise _) hnot hnumber).trans hle

end Solver

/-! ## The answer -/

/-- The optimum that a candidate stands for. -/
def optimumOf : Option Solver.Candidate → Optimum Assignment
  | none => .unsatisfiable
  | some best => .optimal best.satisfied best.assignment

/-- The answer that a search for an optimum leads to. -/
def answerOf (view : View) : Except Misuse (Except OracleError (Optimum Assignment)) :=
  Halt.separate (view.map optimumOf)

theorem answerOf_eq_ok {view : View} {optimum : Optimum Assignment}
    (h : answerOf view = .ok (.ok optimum)) :
    ∃ found, view = .ok found ∧ optimum = optimumOf found := by
  rw [answerOf, Halt.separate_eq_ok_ok_iff] at h
  obtain ⟨found, hview, hoptimum⟩ := map_eq_ok_iff.mp h
  exact ⟨found, hview, hoptimum.symm⟩

namespace Solver

variable {solver : Solver} {hard : List Constraint} {soft : List (SoftTerm Constraint Var)}

/-- An answer comes from a search through the views of the solver. -/
theorem exists_ascent_of_maximize {optimum : Optimum Assignment}
    (h : solver.maximize hard soft = .ok (.ok optimum)) :
    ∃ found, solver.ascent hard (soft.map constraintOf) = .ok found ∧
      optimum = optimumOf found := by
  have hanswer : solver.maximize hard soft = answerOf (solver.optimize hard soft) := rfl
  rw [hanswer, optimize_eq] at h
  split at h
  · cases h
  · exact answerOf_eq_ok h

end Solver

end Infeasibility.FiniteDomain
