import Infeasibility.Diagnosis.Core
import Infeasibility.Diagnosis.Correction

/-!
# Methods of diagnosis
-/

namespace Infeasibility

/-- How a diagnosis is found. -/
inductive Method where
  /-- A minimal core, by dropping constraints. -/
  | deletion
  /-- A minimal correction, by keeping constraints. -/
  | growth
  /-- A smallest correction, by maximizing indicators. -/
  | indicators
  /-- A smallest correction, by maximizing soft terms. -/
  | softTerms
  deriving Repr, DecidableEq

namespace Method

def kind : Method → Kind
  | deletion => .core
  | growth | indicators | softTerms => .correction

/-- Searches for a diagnosis of a problem, and verifies it on request. -/
def diagnose {C A ι : Type} (method : Method) (verify : Bool) (problem : Problem C) :
    Inquiry C A ι DiagnosisError (Diagnosis problem.soft) :=
  match method with
  | deletion => problem.minimalCore verify
  | growth => problem.correctionByGrowth verify
  | indicators => problem.correctionByIndicators verify
  | softTerms => problem.correctionBySoftTerms verify

end Method

end Infeasibility
