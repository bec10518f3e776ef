import Infeasibility.Diagnosis.Minimality

/-!
# Minimal cores

Starting from all soft constraints, each is dropped in turn if the rest is still unsatisfiable.
-/

namespace Infeasibility.Problem

variable {C A ι : Type} (problem : Problem C)

/-- Drops what is not needed of the pending positions, given that `needed` stays. -/
def shrink (needed : List Nat) : List Nat → Inquiry C A ι OracleError (List Nat)
  | [] => return needed
  | position :: pending => do
    if (← problem.ask (needed ++ pending)).isSat then
      shrink (needed ++ [position]) pending
    else
      shrink needed pending

/-- A minimal core, found by deletion. -/
def minimalCore (verify : Bool) : Inquiry C A ι DiagnosisError (Diagnosis problem.soft) := do
  problem.requireSoft
  let all := List.range problem.soft.length
  if (← (problem.ask all).orUnavailable).isSat then
    throw (.invalidInput .satisfiable)
  else
    let core ← (problem.shrink [] all).orUnavailable
    if core.isEmpty then
      throw (.invalidInput .hardUnsatisfiable)
    else
      problem.conclude verify .core core

end Infeasibility.Problem
