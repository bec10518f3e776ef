import Infeasibility.Oracle.Dialogue

/-!
# Problems

A problem consists of soft constraints, of which some have to go, and hard constraints, which
stay. A question about a problem is posed by positions among the soft constraints.
-/

namespace Infeasibility

structure Problem (C : Type) where
  soft : List C
  hard : List C := []
  deriving Repr, DecidableEq

namespace Problem

variable {C A ι : Type}

/-- The first of some positions at which there is no soft constraint. -/
def strayPosition? (problem : Problem C) (positions : List Nat) : Option Nat :=
  positions.find? (problem.soft.length ≤ ·)

/-- The hard constraints, followed by the soft ones at the given positions. -/
def select (problem : Problem C) (positions : List Nat) : List C :=
  problem.hard ++ positions.filterMap (problem.soft[·]?)

/-- Asks whether the hard constraints and the soft ones at the given positions hold together. -/
def ask (problem : Problem C) (positions : List Nat) : Inquiry C A ι OracleError (Outcome A) :=
  match problem.strayPosition? positions with
  | some position => Inquiry.abandon (.noSuchPosition position)
  | none => Inquiry.solve (problem.select positions)

theorem ask_eq_solve (problem : Problem C) {positions : List Nat}
    (h : ∀ position ∈ positions, position < problem.soft.length) :
    (problem.ask positions : Inquiry C A ι OracleError (Outcome A)) =
      Inquiry.solve (problem.select positions) := by
  have hnone : problem.strayPosition? positions = none := by
    simpa [strayPosition?] using h
  simp [ask, hnone]

end Problem

end Infeasibility
