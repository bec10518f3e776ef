import Infeasibility.Diagnosis.Error

/-!
# Faults

An oracle that fails on a list of constraints may fail on one of them alone.
-/

namespace Infeasibility

/-- A constraint on which the oracle fails. -/
structure Fault where
  position : Nat
  error : OracleError
  deriving Repr, DecidableEq

namespace Fault

variable {C A ι : Type}

/-- Puts each constraint to the oracle on its own, the first of them at the given position, until
there is an error. -/
def search (position : Nat) : List C → Dialogue C A ι (Option Fault)
  | [] => return none
  | constraint :: rest => do
    match ← Dialogue.solve [constraint] with
    | .error error => return some ⟨position, error⟩
    | .ok _ => search (position + 1) rest

/-- The first faulty constraint of a list that is not empty. -/
def first? (constraints : List C) : Inquiry C A ι DiagnosisError (Option Fault) :=
  if constraints.isEmpty then
    throw (.invalidInput .empty)
  else
    ExceptT.lift (search 0 constraints)

end Fault

end Infeasibility
