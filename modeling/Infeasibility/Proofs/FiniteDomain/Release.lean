import Infeasibility.Proofs.FiniteDomain.Indicators
import Mathlib.Data.List.Perm.Subperm
import Mathlib.Data.List.Range

/-! # Release of indicators

Released variables leave the model if they seem to be its last ones: there are as many of them as
there are variables from the least of them on, and none is named twice. If the model has them all
they are indeed the last ones. A variable that was removed before may however stand in for one that
is still there, and then the release removes more than it was given. -/

namespace Infeasibility.FiniteDomain

namespace Model

variable {model : Model} {count : Nat} {v : Var}

theorem size_truncate : (model.truncate count).size = min count model.size := by
  simp [truncate, size]

theorem declared?_truncate_of_lt (h : v < count) :
    (model.truncate count).declared? v = model.declared? v := by
  simp [truncate, declared?, Array.getElem?_extract, h]

end Model

namespace Solver

variable {solver : Solver} {first v : Var} {released : List Var}

/-! ## One release -/

/-- The variables are taken for the last ones of the model. -/
def SeemLast (model : Model) (released : List Var) : Prop :=
  ∃ first ∈ released.min?, areLast model first released = true

instance (model : Model) (released : List Var) : Decidable (SeemLast model released) :=
  inferInstanceAs (Decidable (∃ first ∈ released.min?, areLast model first released = true))

/-- The variables are taken for the last ones of the model, but the model does not have them all. -/
def Overreaches (solver : Solver) (released : List Var) : Prop :=
  SeemLast solver.model released ∧ ∃ v ∈ released, solver.model.size ≤ v

instance (solver : Solver) (released : List Var) : Decidable (solver.Overreaches released) :=
  inferInstanceAs (Decidable (_ ∧ ∃ v ∈ released, solver.model.size ≤ v))

theorem areLast_iff {model : Model} : areLast model first released = true ↔
    first + released.length = model.size ∧ released.Nodup := by
  simp [areLast]

/-- Variables that are taken for the last ones are that, provided that the model has them. -/
theorem perm_of_areLast (hmin : released.min? = some first)
    (hlast : areLast solver.model first released = true)
    (hmodel : ∀ v ∈ released, v < solver.model.size) :
    released.Perm (List.range' first released.length) := by
  obtain ⟨hlength, hnodup⟩ := areLast_iff.mp hlast
  have hleast := (List.min?_eq_some_iff.mp hmin).2
  have hsubset : released ⊆ List.range' first released.length := by
    intro v hv
    rw [List.mem_range'_1]
    exact ⟨hleast v hv, (hmodel v hv).trans_eq hlength.symm⟩
  apply (hnodup.subperm hsubset).perm_of_length_le
  rw [List.length_range']

/-- A release leaves the model as it is, or cuts it off before the least variable. -/
theorem model_release (solver : Solver) (released : List Var) :
    (¬ SeemLast solver.model released ∧ (solver.release released).model = solver.model) ∨
    ∃ first, released.min? = some first ∧ areLast solver.model first released = true ∧
      (solver.release released).model = solver.model.truncate first := by
  rw [release, SeemLast]
  cases hmin : released.min? with
  | none => simp
  | some first =>
      by_cases hlast : areLast solver.model first released = true
      · exact .inr ⟨first, rfl, hlast, by simp [hlast]⟩
      · exact .inl (by simp [hlast])

/-- What stays in the model keeps its number, its label and its domain. -/
theorem declared?_release (h : v < (solver.release released).model.size) :
    (solver.release released).model.declared? v = solver.model.declared? v := by
  rcases model_release solver released with ⟨-, hmodel⟩ | ⟨first, -, -, hmodel⟩
  · rw [hmodel]
  · rw [hmodel, Model.size_truncate] at h
    rw [hmodel, Model.declared?_truncate_of_lt (Nat.lt_of_lt_of_le h (Nat.min_le_left _ _))]

/-- A release removes a variable that was not released exactly if it overreaches. -/
theorem exists_removed_iff :
    (∃ v, (solver.release released).model.size ≤ v ∧ v < solver.model.size ∧ v ∉ released) ↔
      solver.Overreaches released := by
  rcases model_release solver released with ⟨hnot, hmodel⟩ | ⟨first, hmin, hlast, hmodel⟩
  · rw [hmodel]
    constructor
    · rintro ⟨v, hle, hlt, -⟩
      exact absurd hlt (Nat.not_lt_of_le hle)
    · rintro ⟨hseem, -⟩
      exact absurd hseem hnot
  · obtain ⟨hlength, hnodup⟩ := areLast_iff.mp hlast
    have hsize : (solver.release released).model.size = first := by
      rw [hmodel, Model.size_truncate]
      exact Nat.min_eq_left (hlength ▸ Nat.le_add_right _ _)
    rw [hsize]
    constructor
    · rintro ⟨v, hle, hlt, hnot⟩
      by_contra hreach
      have hall : ∀ w ∈ released, w < solver.model.size := by
        intro w hw
        by_contra hge
        exact hreach ⟨⟨first, hmin, hlast⟩, w, hw, Nat.le_of_not_lt hge⟩
      have hmem : v ∈ List.range' first released.length :=
        List.mem_range'_1.mpr ⟨hle, hlt.trans_eq hlength.symm⟩
      exact hnot ((perm_of_areLast hmin hlast hall).mem_iff.mpr hmem)
    · rintro ⟨-, w, hw, hge⟩
      by_contra hnone
      -- otherwise all variables from the least one on are released, and `w` is one too many
      have hsubset : List.range' first released.length ⊆ released := by
        intro v hv
        obtain ⟨hle, hlt⟩ := List.mem_range'_1.mp hv
        by_contra hnot
        exact hnone ⟨v, hle, hlt.trans_eq hlength, hnot⟩
      have hrange : (List.range' first released.length).Nodup := List.nodup_range'
      have hperm : (List.range' first released.length).Perm released := by
        apply (hrange.subperm hsubset).perm_of_length_le
        rw [List.length_range']
      have hlt := (List.mem_range'_1.mp (hperm.mem_iff.mpr hw)).2
      exact absurd (hlt.trans_eq hlength) (Nat.not_lt_of_le hge)

/-! ## Runs -/

/-- The indicators in use are variables of the model. -/
def Accounts (solver : Solver) : Prop :=
  ∀ v ∈ solver.indicators, v < solver.model.size

theorem Accounts.release (h : solver.Accounts) (hreach : ¬ solver.Overreaches released) :
    (solver.release released).Accounts := by
  intro v hv
  have hfilter : v ∈ solver.indicators ∧ v ∉ released := by simpa [Solver.release] using hv
  by_contra hge
  apply hreach
  apply exists_removed_iff.mp
  exact ⟨v, Nat.le_of_not_lt hge, h v hfilter.1, hfilter.2⟩

theorem Accounts.addIndicator (h : solver.Accounts) : solver.addIndicator.Accounts := by
  have hsize : solver.addIndicator.model.size = solver.model.size + 1 := by
    simp [Solver.addIndicator, Model.addBoolean, Model.push, Model.size]
  intro v hv
  rw [hsize]
  rcases List.mem_append.mp hv with hv | hv
  · exact Nat.lt_succ_of_lt (h v hv)
  · rw [List.mem_singleton.mp hv]
    exact Nat.lt_succ_self _

/-- The question does not release variables in a way that overreaches. -/
def Heeds (solver : Solver) : Question Constraint Var → Prop
  | .release released => ¬ solver.Overreaches released
  | _ => True

instance (solver : Solver) (question : Question Constraint Var) :
    Decidable (solver.Heeds question) := by
  unfold Heeds
  split <;> infer_instance

/-- No release of a run overreaches when its turn comes. -/
def HeedsAll (solver : Solver) : List (Question Constraint Var) → Prop
  | [] => True
  | question :: questions =>
    solver.Heeds question ∧ (oracle.answer question solver).2.HeedsAll questions

instance decidableHeedsAll (solver : Solver) :
    (questions : List (Question Constraint Var)) → Decidable (solver.HeedsAll questions)
  | [] => isTrue trivial
  | question :: questions =>
    have := decidableHeedsAll (oracle.answer question solver).2 questions
    inferInstanceAs (Decidable (_ ∧ _))

/-- The solver after a run of questions, whatever was answered. -/
def after (solver : Solver) (questions : List (Question Constraint Var)) : Solver :=
  questions.foldl (fun solver question => (oracle.answer question solver).2) solver

theorem Accounts.answer (h : solver.Accounts) {question : Question Constraint Var}
    (hheeds : solver.Heeds question) : (oracle.answer question solver).2.Accounts := by
  cases question with
  | solve constraints => exact h
  | newIndicator => exact h.addIndicator
  | implication indicator constraint => exact h
  | release released => exact h.release hheeds
  | supportsSoft => exact h
  | maximize hard soft => exact h

theorem Accounts.after (h : solver.Accounts) {questions : List (Question Constraint Var)}
    (hheeds : solver.HeedsAll questions) : (solver.after questions).Accounts := by
  induction questions generalizing solver with
  | nil => exact h
  | cons question questions ih => exact ih (h.answer hheeds.1) hheeds.2

/-- A new solver has been asked anything. If no release has overreached, all indicators in use are
variables of the model. Whatever is released next, the variables that stay are what they were, and
only if it overreaches is a variable removed that was not released: if it is taken for the last
variables of the model, and names one that was removed before. -/
theorem release_removes_only_released (model : Model) (limit : Nat) (interrupt : Option Bool)
    (softConstraints : Bool) (questions : List (Question Constraint Var)) :
    let new : Solver := { model, limit, interrupt, softConstraints }
    let used := new.after questions
    (new.HeedsAll questions → ∀ v ∈ used.indicators, v < used.model.size) ∧
    ∀ released,
      (∀ v < (used.release released).model.size,
        (used.release released).model.declared? v = used.model.declared? v) ∧
      ((∃ v, (used.release released).model.size ≤ v ∧ v < used.model.size ∧ v ∉ released) ↔
        used.Overreaches released) := by
  intro new used
  have haccounts : new.Accounts := by simp [Accounts, new]
  exact ⟨haccounts.after, fun released => ⟨fun v => declared?_release, exists_removed_iff⟩⟩

/-- Indicators are released out of order, twice, and together with one that is no longer there. -/
theorem release_removes_only_released_in_disorder :
    let new : Solver := { model := ({} : Model).addBoolean "p", limit := 10 }
    let questions := [.newIndicator, .newIndicator, .newIndicator, .newIndicator, .release [4, 3],
      .release [2, 2], .release [4, 2]]
    let used := new.after questions
    new.HeedsAll questions ∧ (∀ v ∈ used.indicators, v < used.model.size) ∧
      used.model.size = 3 ∧ (used.release [2, 1]).model.size = 1 ∧
      ¬ ∃ v, (used.release [2, 1]).model.size ≤ v ∧ v < used.model.size ∧ v ∉ [2, 1] := by
  intro new questions used
  have hheeds : new.HeedsAll questions := by decide +kernel
  have hreach : ¬ used.Overreaches [2, 1] := by decide +kernel
  obtain ⟨hindicators, hrelease⟩ :=
    release_removes_only_released new.model 10 none true questions
  refine ⟨hheeds, hindicators hheeds, by decide +kernel, by decide +kernel, ?_⟩
  exact mt (hrelease [2, 1]).2.mp hreach

/-- A variable that was removed before stands in for one that is in use: variables 0 and 2 are
released, and variable 1 leaves the model though it is still recorded as an indicator in use. -/
theorem release_removes_indicator_in_use :
    let new : Solver := { model := {}, limit := 10 }
    let used := new.after [.newIndicator, .newIndicator, .newIndicator, .release [2]]
    used.indicators = [0, 1] ∧ used.model.size = 2 ∧
      (used.release [0, 2]).model.size = 0 ∧ (used.release [0, 2]).indicators = [1] := by
  decide

end Solver

end Infeasibility.FiniteDomain
