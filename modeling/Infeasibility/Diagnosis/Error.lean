import Infeasibility.Oracle.Dialogue

/-!
# Errors of a diagnosis
-/

namespace Infeasibility

/-- Why a problem has nothing to diagnose. -/
inductive InvalidInput where
  /-- There is no soft constraint. -/
  | empty
  /-- All constraints hold together. -/
  | satisfiable
  /-- The hard constraints contradict each other, whatever becomes of the soft ones. -/
  | hardUnsatisfiable
  deriving Repr, DecidableEq

def InvalidInput.message : InvalidInput → String
  | empty => "no constraint to diagnose"
  | satisfiable => "the constraints are satisfiable"
  | hardUnsatisfiable => "the hard constraints are unsatisfiable on their own"

/-- Why there is no diagnosis. -/
inductive DiagnosisError where
  | invalidInput (reason : InvalidInput)
  /-- The oracle gave no answer, or its answers contradict each other. -/
  | unavailable (error : OracleError)
  /-- The oracle accepts no constraint as a soft term. -/
  | softTermsUnsupported
  deriving Repr, DecidableEq

def DiagnosisError.message : DiagnosisError → String
  | invalidInput reason => "invalid input: " ++ reason.message
  | unavailable error => "diagnosis unavailable: " ++ error.message
  | softTermsUnsupported => "the oracle does not support soft constraints"

/-- Without an answer of the oracle there is no diagnosis. -/
def Inquiry.orUnavailable {C A ι α : Type} :
    Inquiry C A ι OracleError α → Inquiry C A ι DiagnosisError α :=
  ExceptT.adapt .unavailable

end Infeasibility
