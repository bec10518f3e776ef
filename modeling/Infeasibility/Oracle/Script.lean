import Infeasibility.Oracle.Basic

/-!
# Scripted oracles

An oracle that has never heard of its constraints: it answers from a script, and records what it
was asked. Constraints and indicators are numbers.
-/

namespace Infeasibility

namespace Script

/-- An entry of the record. -/
inductive Entry where
  | solve (constraints : List Nat)
  | newIndicator (indicator : Nat)
  | implication (indicator constraint : Nat)
  | maximize (hard : List Nat) (soft : List (SoftTerm Nat Nat))
  | release (indicators : List Nat)
  deriving Repr, DecidableEq

/-- The script, as far as it has not been used up, and the record. -/
structure State where
  /-- The verdicts on the next questions for satisfiability. -/
  verdicts : List (Except OracleError Bool)
  /-- The verdict on every further one. -/
  otherwise : Except OracleError Bool
  /-- For the next questions for an optimum, the truth of the soft terms; after that, and where
  there is none, the hard constraints are unsatisfiable. -/
  optima : List (Except OracleError (Option (List Bool)))
  supportsSoft : Bool := true
  /-- How many indicators were made. -/
  indicators : Nat := 0
  /-- What was asked, the latest entry last. -/
  record : List Entry := []

def State.note (state : State) (entry : Entry) : State :=
  { state with record := state.record ++ [entry] }

def outcome (satisfiable : Bool) : Outcome Unit :=
  if satisfiable then .satisfiable () else .unsatisfiable

def optimum : Option (List Bool) → Optimum Unit
  | none => .unsatisfiable
  | some satisfied => .optimal satisfied ()

/-- The next verdict, and the script without it. -/
def State.nextVerdict (state : State) : Except OracleError Bool × State :=
  match state.verdicts with
  | [] => (state.otherwise, state)
  | verdict :: verdicts => (verdict, { state with verdicts })

@[inherit_doc State.nextVerdict]
def State.nextOptimum (state : State) : Except OracleError (Option (List Bool)) × State :=
  match state.optima with
  | [] => (.ok none, state)
  | optimum :: optima => (optimum, { state with optima })

/-- The constraint that stands for an implication. -/
def link (indicator constraint : Nat) : Nat :=
  1000 * indicator + constraint

/-- The scripted oracle that releases no indicators and supports no soft terms. -/
def minimalOracle : Oracle State Nat Unit Nat where
  solve constraints := fun state =>
    let (verdict, state) := (state.note (.solve constraints)).nextVerdict
    (.ok (verdict.map outcome), state)
  newIndicator := fun state =>
    let indicator := state.indicators + 1
    (.ok indicator, { state.note (.newIndicator indicator) with indicators := indicator })
  implication indicator constraint := fun state =>
    (.ok (link indicator constraint), state.note (.implication indicator constraint))
  maximize hard soft := fun state =>
    let (result, state) := (state.note (.maximize hard soft)).nextOptimum
    (.ok (result.map optimum), state)

/-- The scripted oracle with all capabilities. -/
def oracle : Oracle State Nat Unit Nat :=
  { minimalOracle with
    release := fun indicators state => (.ok (), state.note (.release indicators))
    supportsSoft := State.supportsSoft }

end Script

end Infeasibility
