import Infeasibility.Misuse

/-!
# Oracles

An oracle decides lists of constraints of a type `C`. It answers with assignments of a type `A`,
and it can make indicators of a type `ι`: propositions of its own that stand for constraints. An
oracle keeps a state of a type `σ`, which every question may change.
-/

namespace Infeasibility

/-- Why an oracle gave no answer. -/
inductive OracleError where
  | interrupted
  | timeout
  | resourceLimit (limit : String)
  | failure (cause : String)
  /-- Two answers contradict each other. -/
  | inconsistent (contradiction : String)
  deriving Repr, DecidableEq, Inhabited

def OracleError.message : OracleError → String
  | interrupted => "solver interrupted"
  | timeout => "solver timed out"
  | resourceLimit limit => "resource limit reached: " ++ limit
  | failure cause => "solver failure: " ++ cause
  | inconsistent contradiction => "inconsistent oracle answers: " ++ contradiction

/-- The verdict on a list of constraints. -/
inductive Outcome (A : Type) where
  | unsatisfiable
  | satisfiable (assignment : A)
  deriving Repr, DecidableEq

namespace Outcome

variable {A : Type}

def isSat : Outcome A → Bool
  | unsatisfiable => false
  | satisfiable _ => true

def isUnsat (outcome : Outcome A) : Bool :=
  !outcome.isSat

def assignment? : Outcome A → Option A
  | unsatisfiable => none
  | satisfiable assignment => some assignment

end Outcome

/-- What may count towards an optimum. -/
inductive SoftTerm (C ι : Type) where
  | indicator (indicator : ι)
  | constraint (constraint : C)
  deriving Repr, DecidableEq

/-- The verdict on hard constraints and soft terms: of the assignments that meet the hard
constraints, one that makes as many soft terms true as possible, with the truth of each. -/
inductive Optimum (A : Type) where
  | unsatisfiable
  | optimal (satisfied : List Bool) (assignment : A)
  deriving Repr, DecidableEq

/-- A computation over a state that survives a misuse. -/
abbrev Step (σ α : Type) := ExceptT Misuse (StateM σ) α

/-- A solver for constraints. -/
structure Oracle (σ C A ι : Type) where
  /-- Decides whether the constraints can hold together. -/
  solve : List C → Step σ (Except OracleError (Outcome A))
  /-- Makes an indicator that no constraint restricts yet. -/
  newIndicator : Step σ ι
  /-- A constraint that makes the given one hold wherever the indicator is true. -/
  implication : ι → C → Step σ C
  /-- Tells the oracle that indicators are no longer needed. -/
  release : List ι → Step σ Unit := fun _ => pure ()
  /-- Whether constraints are accepted as soft terms; indicators always are. -/
  supportsSoft : σ → Bool := fun _ => false
  /-- Maximizes the number of true soft terms subject to the hard constraints. -/
  maximize : List C → List (SoftTerm C ι) → Step σ (Except OracleError (Optimum A))

end Infeasibility
