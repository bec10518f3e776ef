import Infeasibility.Diagnosis.Basic
import Infeasibility.Diagnosis.Error
import Infeasibility.Problem

/-!
# Checking diagnoses

A core is a set of soft constraints that cannot hold together with the hard ones; a correction is
one without which the others can. A diagnosis is worth having if none of its elements is there in
vain. Both checks ask about the diagnosis itself, then about each change by a single element. They
read the positions of a diagnosis as those of soft constraints, whatever its source is.
-/

namespace Infeasibility

/-- The two kinds of diagnosis. -/
inductive Kind where
  | core
  | correction
  deriving Repr, DecidableEq

/-- The customary abbreviations: minimal unsatisfiable subset, minimal correction set. -/
def Kind.abbreviation : Kind → String
  | core => "MUS"
  | correction => "MCS"

namespace Problem

variable {C A ι : Type} (problem : Problem C) {source : List C}

/-- Whether the elements are unsatisfiable, and satisfiable without any one of them. -/
def isMinimalCore (core : Diagnosis source) : Inquiry C A ι OracleError Bool := do
  if (← problem.ask core.positions).isSat then
    return false
  else
    core.positions.allM fun removed =>
      return (← problem.ask (core.positions.filter (· ≠ removed))).isSat

/-- Whether the other soft constraints are satisfiable, and unsatisfiable with any one of the
elements restored to its place. -/
def isMinimalCorrection (correction : Diagnosis source) : Inquiry C A ι OracleError Bool := do
  if (← problem.ask correction.complement).isUnsat then
    return false
  else
    correction.positions.allM fun restored =>
      return (← problem.ask (Ascending.insert restored correction.complement)).isUnsat

/-- Whether a diagnosis is a minimal one of its kind. -/
def isMinimal : Kind → Diagnosis source → Inquiry C A ι OracleError Bool
  | .core => problem.isMinimalCore
  | .correction => problem.isMinimalCorrection

/-- The diagnosis with the given positions. If it is to be verified and the oracle now denies that
it is minimal, the oracle has contradicted itself. -/
def conclude (verify : Bool) (kind : Kind) (positions : List Nat) :
    Inquiry C A ι DiagnosisError (Diagnosis problem.soft) := do
  match Diagnosis.ofPositions? problem.soft positions with
  | none => Inquiry.abandon (.notPositions positions)
  | some diagnosis =>
    if verify then
      if ← (problem.isMinimal kind diagnosis).orUnavailable then
        return diagnosis
      else
        throw (.unavailable (.inconsistent
          (Listing.inline (positions.map toString) ++ " is not a " ++ kind.abbreviation)))
    else
      return diagnosis

/-- Refuses a problem without soft constraints. -/
def requireSoft : Inquiry C A ι DiagnosisError Unit :=
  if problem.soft.isEmpty then throw (.invalidInput .empty) else pure ()

end Problem

end Infeasibility
