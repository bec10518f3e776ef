import Infeasibility.Oracle.Basic

/-!
# Counting questions

Any oracle can be wrapped so that the questions for a verdict are counted. A question counts even
if it is not answered.
-/

namespace Infeasibility

/-- The state of an oracle together with the number of questions put to it. -/
structure Counted (σ : Type) where
  inner : σ
  solves : Nat := 0
  maximizations : Nat := 0

namespace Counted

variable {σ α : Type}

/-- The number of questions of both kinds. -/
def total (state : Counted σ) : Nat :=
  state.solves + state.maximizations

/-- Counts from zero again. -/
def reset (state : Counted σ) : Counted σ :=
  { inner := state.inner }

def countSolve (state : Counted σ) : Counted σ :=
  { state with solves := state.solves + 1 }

def countMaximization (state : Counted σ) : Counted σ :=
  { state with maximizations := state.maximizations + 1 }

/-- Takes a step of the inner oracle. -/
def inside (step : Step σ α) : Step (Counted σ) α :=
  fun state =>
    let (result, inner) := step state.inner
    (result, { state with inner })

end Counted

/-- An oracle that answers as the given one does and counts the questions. -/
def Oracle.counting {σ C A ι : Type} (oracle : Oracle σ C A ι) : Oracle (Counted σ) C A ι where
  solve constraints := do
    modify Counted.countSolve
    Counted.inside (oracle.solve constraints)
  newIndicator := Counted.inside oracle.newIndicator
  implication indicator constraint := Counted.inside (oracle.implication indicator constraint)
  release indicators := Counted.inside (oracle.release indicators)
  supportsSoft state := oracle.supportsSoft state.inner
  maximize hard soft := do
    modify Counted.countMaximization
    Counted.inside (oracle.maximize hard soft)

end Infeasibility
