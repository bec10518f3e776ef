import Infeasibility.Proofs.FiniteDomain.Admissible
import Infeasibility.Proofs.Results

/-! # Ends of an enumeration

A series of visits ends with an error, at a visit that puts an end to it, or after its last number.
In each case an invariant that the visits preserve still holds where the series ends. -/

namespace Infeasibility.FiniteDomain

/-! ## Series of visits -/

section Sweep

variable {β : Type}

/-- How visits of the numbers below a bound can end, if the states satisfy an invariant. -/
inductive SweepEnds (visit : Nat → β → Except Halt (ForInStep β)) (I : Nat → β → Prop)
    (bound : Nat) : Except Halt (Progress β) → Prop where
  | halted {number state halt} : number < bound → I number state →
      visit number state = .error halt → SweepEnds visit I bound (.error halt)
  | stopped {number state result} : number < bound → I number state →
      visit number state = .ok (.done result) →
      SweepEnds visit I bound (.ok ⟨true, number + 1, result⟩)
  | exhausted {state} : I bound state → SweepEnds visit I bound (.ok ⟨false, bound, state⟩)

theorem sweep_ends (visit : Nat → β → Except Halt (ForInStep β)) (I : Nat → β → Prop)
    (hI : ∀ number state next, I number state →
      visit number state = .ok (.yield next) → I (number + 1) next)
    (remaining : Nat) {number : Nat} {state : β} (hstate : I number state) :
    SweepEnds visit I (number + remaining) (sweep visit remaining number state) := by
  induction remaining generalizing number state with
  | zero => exact .exhausted hstate
  | succ remaining ih =>
      have hlt : number < number + (remaining + 1) := by omega
      rw [sweep]
      split
      · exact .halted hlt hstate ‹_›
      · exact .stopped hlt hstate ‹_›
      · rw [Nat.add_comm remaining 1, ← Nat.add_assoc]
        exact ih (hI number state _ hstate ‹_›)

end Sweep

/-! ## Halts -/

namespace Halt

variable {α : Type} {x : Except Halt α}

theorem separate_eq_ok_ok_iff {value : α} : separate x = .ok (.ok value) ↔ x = .ok value := by
  rcases x with (_ | _) | _ <;> simp [separate]

theorem separate_eq_ok_error_iff {cause : OracleError} :
    separate x = .ok (.error cause) ↔ x = .error (.error cause) := by
  rcases x with (_ | _) | _ <;> simp [separate]

end Halt

/-! ## Enumerations of a scope -/

namespace Enumeration

variable {enumeration : Enumeration} {scope : List Var} {axes : List Axis}

theorem axes_eq_ok_iff :
    enumeration.axes scope = .ok axes ↔ enumeration.model.Spans scope axes := by
  induction scope generalizing axes with
  | nil =>
      constructor
      · intro h
        cases h
        exact .nil
      · intro h
        cases h
        rfl
  | cons v scope ih =>
      rw [Enumeration.axes]
      constructor
      · intro h
        split at h
        · rename_i axis haxis
          rcases hrest : enumeration.axes scope with halt | rest
          · rw [hrest] at h
            cases h
          · rw [hrest] at h
            cases h
            exact .cons haxis (ih.mp hrest)
        · cases h
      · intro h
        cases h with
        | cons haxis hrest => rw [haxis, ih.mpr hrest]; rfl

/-- Axes cannot be found for a variable of another model. -/
theorem axes_of_not_declares (h : ¬ enumeration.model.Declares scope) :
    ∃ cause, enumeration.axes scope = .error (.error (.failure cause)) := by
  induction scope with
  | nil => exact absurd (by simp [Model.Declares]) h
  | cons v scope ih =>
      rw [Enumeration.axes]
      split
      · rename_i axis haxis
        obtain ⟨-, declared, hdeclared, -⟩ := Model.axis?_eq_some_iff.mp haxis
        have hv := Model.lt_size_of_declared hdeclared
        obtain ⟨cause, hcause⟩ := ih fun hscope => h (List.forall_mem_cons.mpr ⟨hv, hscope⟩)
        exact ⟨cause, by rw [hcause]; rfl⟩
      · exact ⟨_, rfl⟩

variable {β : Type} {visit : Assignment → β → Except Halt (ForInStep β)}

/-- What becomes of a search that has made some progress. -/
def close (enumeration : Enumeration) (total : Nat) (progress : Progress β) :
    Except Halt (Nat × β) :=
  if progress.stopped || total ≤ enumeration.limit then
    .ok (progress.visited, progress.result)
  else
    .error (.error (.resourceLimit s!"more than {enumeration.limit} assignments to enumerate"))

theorem close_of_le {total : Nat} (h : total ≤ enumeration.limit) (progress : Progress β) :
    enumeration.close total progress = .ok (progress.visited, progress.result) := by
  simp [close, h]

theorem close_of_lt {total visited : Nat} {result : β} (h : enumeration.limit < total) :
    enumeration.close total ⟨false, visited, result⟩ = .error (.error (.resourceLimit
      s!"more than {enumeration.limit} assignments to enumerate")) :=
  if_neg (by simpa using h)

theorem run_of_axes {start : β} (haxes : enumeration.axes scope = .ok axes)
    (hinterrupted : enumeration.interrupted = false) :
    enumeration.run scope start visit =
      sweep (fun number => visit (enumeration.model.assignment axes number))
        (min (volume axes) enumeration.limit) 0 start >>= enumeration.close (volume axes) := by
  rw [run, haxes, hinterrupted]
  rfl

/-- How an enumeration of a scope with the given axes can end, if the states satisfy an
invariant. -/
inductive RunEnds (enumeration : Enumeration) (axes : List Axis)
    (visit : Assignment → β → Except Halt (ForInStep β)) (I : Nat → β → Prop) :
    Except Halt (Nat × β) → Prop where
  | interrupted : enumeration.interrupted = true →
      RunEnds enumeration axes visit I (.error (.error .interrupted))
  | halted {number state halt} : enumeration.interrupted = false →
      number < volume axes → number < enumeration.limit → I number state →
      visit (enumeration.model.assignment axes number) state = .error halt →
      RunEnds enumeration axes visit I (.error halt)
  | stopped {number state result} : enumeration.interrupted = false →
      number < volume axes → number < enumeration.limit → I number state →
      visit (enumeration.model.assignment axes number) state = .ok (.done result) →
      RunEnds enumeration axes visit I (.ok (number + 1, result))
  | exhausted {state} : enumeration.interrupted = false →
      volume axes ≤ enumeration.limit → I (volume axes) state →
      RunEnds enumeration axes visit I (.ok (volume axes, state))
  | limited {state text} : enumeration.interrupted = false →
      enumeration.limit < volume axes → I enumeration.limit state →
      RunEnds enumeration axes visit I (.error (.error (.resourceLimit text)))

/-- An enumeration of variables of another model fails before it visits anything. -/
theorem run_of_not_declares (h : ¬ enumeration.model.Declares scope) (start : β) :
    ∃ cause, enumeration.run scope start visit = .error (.error (.failure cause)) := by
  obtain ⟨cause, hcause⟩ := axes_of_not_declares h
  exact ⟨cause, by rw [run, hcause]; rfl⟩

/-- There is no result for a scope that the model does not declare. -/
theorem exists_spans_of_run {start : β} {result : Nat × β}
    (h : enumeration.run scope start visit = .ok result) :
    ∃ axes, enumeration.model.Spans scope axes := by
  rw [run] at h
  rcases haxes : enumeration.axes scope with halt | axes
  · rw [haxes] at h
    cases h
  · exact ⟨axes, axes_eq_ok_iff.mp haxes⟩

/-- There is no result of an enumeration that is given up. -/
theorem interrupted_of_run {start : β} {result : Nat × β}
    (h : enumeration.run scope start visit = .ok result) : enumeration.interrupted = false := by
  rw [run] at h
  rcases haxes : enumeration.axes scope with halt | axes
  · rw [haxes] at h
    cases h
  · rw [haxes] at h
    cases hinterrupted : enumeration.interrupted with
    | false => rfl
    | true =>
        rw [hinterrupted] at h
        cases h

theorem run_ends (haxes : enumeration.model.Spans scope axes) (start : β)
    (visit : Assignment → β → Except Halt (ForInStep β)) (I : Nat → β → Prop) (hstart : I 0 start)
    (hI : ∀ number state next, I number state →
      visit (enumeration.model.assignment axes number) state = .ok (.yield next) →
      I (number + 1) next) :
    RunEnds enumeration axes visit I (enumeration.run scope start visit) := by
  have hsweep := sweep_ends
    (fun number => visit (enumeration.model.assignment axes number)) I hI
    (min (volume axes) enumeration.limit) hstart
  rw [Nat.zero_add] at hsweep
  rw [run, axes_eq_ok_iff.mpr haxes]
  cases hinterrupted : enumeration.interrupted with
  | true => exact .interrupted hinterrupted
  | false =>
      change RunEnds enumeration axes visit I (sweep
        (fun number => visit (enumeration.model.assignment axes number))
        (min (volume axes) enumeration.limit) 0 start >>= _)
      generalize sweep (fun number => visit (enumeration.model.assignment axes number))
        (min (volume axes) enumeration.limit) 0 start = outcome at hsweep ⊢
      cases hsweep with
      | halted hlt hstate hvisit =>
          obtain ⟨hvolume, hlimit⟩ := Nat.lt_min.mp hlt
          exact .halted hinterrupted hvolume hlimit hstate hvisit
      | stopped hlt hstate hvisit =>
          obtain ⟨hvolume, hlimit⟩ := Nat.lt_min.mp hlt
          exact .stopped hinterrupted hvolume hlimit hstate hvisit
      | exhausted hstate =>
          by_cases hle : volume axes ≤ enumeration.limit
          · rw [Nat.min_eq_left hle] at hstate ⊢
            simpa [Except.bind, bind, hle] using .exhausted hinterrupted hle hstate
          · have hlt := Nat.lt_of_not_le hle
            rw [Nat.min_eq_right hlt.le] at hstate ⊢
            simpa [Except.bind, bind, hle] using .limited hinterrupted hlt hstate

end Enumeration

end Infeasibility.FiniteDomain
