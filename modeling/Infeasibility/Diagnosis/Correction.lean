import Infeasibility.Diagnosis.Minimality

/-!
# Corrections

Three ways to a minimal correction. Growth keeps each soft constraint in turn that agrees with
those kept before. The other two leave the choice to an optimizing oracle, which keeps as many soft
constraints as possible: they are given to it either as soft terms or, one indicator for each,
behind implications.
-/

namespace Infeasibility.Problem

variable {C A ι : Type} (problem : Problem C)

/-- A correction that rejects the given positions, unless there are none. -/
def reject (verify : Bool) (rejected : List Nat) :
    Inquiry C A ι DiagnosisError (Diagnosis problem.soft) :=
  if rejected.isEmpty then
    throw (.invalidInput .satisfiable)
  else
    problem.conclude verify .correction rejected

/-! ### Growth -/

/-- Refuses a problem whose hard constraints contradict each other. -/
def requireHard : Inquiry C A ι DiagnosisError Unit := do
  if problem.hard.isEmpty then
    return
  else if (← (problem.ask []).orUnavailable).isUnsat then
    throw (.invalidInput .hardUnsatisfiable)
  else
    return

/-- The pending positions that cannot be kept, after those that were rejected before. -/
def grow (kept rejected : List Nat) : List Nat → Inquiry C A ι OracleError (List Nat)
  | [] => return rejected
  | position :: pending => do
    if (← problem.ask (kept ++ [position])).isSat then
      grow (kept ++ [position]) rejected pending
    else
      grow kept (rejected ++ [position]) pending

/-- A minimal correction, found by growth. -/
def correctionByGrowth (verify : Bool) :
    Inquiry C A ι DiagnosisError (Diagnosis problem.soft) := do
  problem.requireSoft
  problem.requireHard
  let rejected ← (problem.grow [] [] (List.range problem.soft.length)).orUnavailable
  problem.reject verify rejected

/-! ### Optimization -/

/-- The positions of `false`. -/
def falsePositions (satisfied : List Bool) : List Nat :=
  (List.range satisfied.length).filter fun position => satisfied[position]? == some false

/-- The correction that rejects what an optimum leaves unsatisfied. The optimum has to speak of
each soft constraint. -/
def correctionOfOptimum (verify : Bool) (terms : String) :
    Optimum A → Inquiry C A ι DiagnosisError (Diagnosis problem.soft)
  | .unsatisfiable => throw (.invalidInput .hardUnsatisfiable)
  | .optimal satisfied _ =>
    if satisfied.length = problem.soft.length then
      problem.reject verify (falsePositions satisfied)
    else
      throw (.unavailable (.inconsistent
        s!"{satisfied.length} values for {problem.soft.length} {terms}"))

/-- Maximizes indicators that imply the soft constraints, and releases them whether or not the
oracle finds an optimum. -/
def maximizeIndicators : Inquiry C A ι OracleError (Optimum A) := do
  let indicators ← problem.soft.mapM fun _ => ExceptT.lift Dialogue.newIndicator
  let links ← (indicators.zip problem.soft).mapM fun (indicator, constraint) =>
    ExceptT.lift (Dialogue.implication indicator constraint)
  let result ← ExceptT.lift
    (Dialogue.maximize (problem.hard ++ links) (indicators.map .indicator))
  ExceptT.lift (Dialogue.release indicators)
  ExceptT.mk (pure result)

/-- A smallest correction, found through indicators. -/
def correctionByIndicators (verify : Bool) :
    Inquiry C A ι DiagnosisError (Diagnosis problem.soft) := do
  problem.requireSoft
  let optimum ← problem.maximizeIndicators.orUnavailable
  problem.correctionOfOptimum verify "indicators" optimum

/-- Refuses an oracle that accepts no constraint as a soft term. -/
def requireSoftTerms : Inquiry C A ι DiagnosisError Unit := do
  if ← ExceptT.lift Dialogue.supportsSoft then
    return
  else
    throw .softTermsUnsupported

/-- A smallest correction, with the soft constraints as soft terms. -/
def correctionBySoftTerms (verify : Bool) :
    Inquiry C A ι DiagnosisError (Diagnosis problem.soft) := do
  problem.requireSoft
  requireSoftTerms
  let optimum ← (Inquiry.maximize problem.hard (problem.soft.map .constraint)).orUnavailable
  problem.correctionOfOptimum verify "soft constraints" optimum

end Infeasibility.Problem
