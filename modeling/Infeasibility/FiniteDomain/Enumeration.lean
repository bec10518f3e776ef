import Infeasibility.FiniteDomain.Evaluation
import Infeasibility.Oracle.Basic

/-!
# Enumeration

The assignments of some variables are numbered in lexicographic order, the first variable being the
most significant, and visited by their numbers. All other variables keep their lower bounds.
-/

namespace Infeasibility.FiniteDomain

/-! ### Assignments by number -/

/-- A variable and the values it takes. -/
structure Axis where
  var : Var
  domain : Domain
  deriving DecidableEq

/-- The number of assignments. -/
def volume : List Axis → Nat
  | [] => 1
  | axis :: rest => axis.domain.size * volume rest

/-- Changes the values of some variables to those of the assignment with a given number: its digits
are the indices of the values, where the base of each digit is the size of the domain. The number
that is returned is what the digits leave over. -/
def place : List Axis → Nat → Assignment → Nat × Assignment
  | [], number, assignment => (number, assignment)
  | axis :: rest, number, assignment =>
    let (number, assignment) := place rest number assignment
    (number / axis.domain.size,
      assignment.set axis.var (axis.domain.value (number % axis.domain.size)))

theorem volume_pos (axes : List Axis) : 0 < volume axes := by
  induction axes with
  | nil => exact Nat.one_pos
  | cons axis rest ih => exact Nat.mul_pos axis.domain.size_pos ih

namespace Model

/-- Every variable at the lower bound of its domain. -/
def lowerBounds (model : Model) : Assignment :=
  ⟨model.declarations.map fun declared => declared.domain.lower⟩

def axis? (model : Model) (var : Var) : Option Axis :=
  (model.declared? var).map fun declared => ⟨var, declared.domain⟩

/-- The assignment with a given number among those of some variables. -/
def assignment (model : Model) (axes : List Axis) (number : Nat) : Assignment :=
  (place axes number model.lowerBounds).2

end Model

/-! ### Visits -/

/-- Why a search comes to no result. -/
inductive Halt where
  | misuse (misuse : Misuse)
  | error (error : OracleError)
  deriving Repr, DecidableEq

/-- Tells the two reasons apart. -/
def Halt.separate {α : Type} : Except Halt α → Except Misuse (Except OracleError α)
  | .ok value => .ok (.ok value)
  | .error (.error cause) => .ok (.error cause)
  | .error (.misuse cause) => .error cause

/-- What a series of visits has led to. -/
structure Progress (β : Type) where
  /-- Whether a visit put an end to the series. -/
  stopped : Bool
  visited : Nat
  result : β

/-- Visits `remaining` numbers, of which `next` is the first. -/
def sweep {β : Type} (visit : Nat → β → Except Halt (ForInStep β)) :
    (remaining next : Nat) → β → Except Halt (Progress β)
  | 0, next, state => .ok ⟨false, next, state⟩
  | remaining + 1, next, state =>
    match visit next state with
    | .error halt => .error halt
    | .ok (.done state) => .ok ⟨true, next + 1, state⟩
    | .ok (.yield state) => sweep visit remaining (next + 1) state

/-- A search through the assignments of a model. -/
structure Enumeration where
  model : Model
  /-- How many assignments may be visited. -/
  limit : Nat
  /-- Whether the search is to be given up. -/
  interrupted : Bool := false

namespace Enumeration

/-- The axes of the variables of a scope. -/
def axes (enumeration : Enumeration) : List Var → Except Halt (List Axis)
  | [] => .ok []
  | var :: scope =>
    match enumeration.model.axis? var with
    | some axis => (axis :: ·) <$> enumeration.axes scope
    | none => .error (.error (.failure
        s!"variable {var} is not part of the model ({enumeration.model.size} variables)"))

/-- Visits the assignments of a scope in order until a visit puts an end to it. The result comes
with the number of visits. There is none if visits that are left would exceed the limit. -/
def run {β : Type} (enumeration : Enumeration) (scope : List Var) (start : β)
    (visit : Assignment → β → Except Halt (ForInStep β)) : Except Halt (Nat × β) := do
  let axes ← enumeration.axes scope
  if enumeration.interrupted then
    throw (.error .interrupted)
  else
    let total := volume axes
    let lowerBounds := enumeration.model.lowerBounds
    let progress ← sweep (fun number => visit (place axes number lowerBounds).2)
      (min total enumeration.limit) 0 start
    if progress.stopped || total ≤ enumeration.limit then
      return (progress.visited, progress.result)
    else
      throw (.error (.resourceLimit
        s!"more than {enumeration.limit} assignments to enumerate"))

end Enumeration

end Infeasibility.FiniteDomain
