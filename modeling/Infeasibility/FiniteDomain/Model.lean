import Infeasibility.Misuse

/-!
# Models

A model declares variables, each with a label and an interval of values. Variables are numbered in
the order of their declaration.
-/

namespace Infeasibility.FiniteDomain

/-- Variables are designated by their numbers, whatever model they belong to. -/
abbrev Var := Nat

/-- The values from a lower bound to an upper one. There is at least one. -/
structure Domain where
  lower : Int32
  upper : Int32
  lower_le_upper : lower ≤ upper
  deriving DecidableEq

namespace Domain

/-- The domain of truth values: 0 is false and 1 is true. -/
def boolean : Domain :=
  ⟨0, 1, by decide⟩

/-- The number of values. -/
def size (domain : Domain) : Nat :=
  (domain.upper.toInt - domain.lower.toInt).toNat + 1

/-- The values in increasing order, counted from zero. -/
def value (domain : Domain) (index : Nat) : Int32 :=
  Int32.ofInt (domain.lower.toInt + index)

theorem size_pos (domain : Domain) : 0 < domain.size :=
  Nat.succ_pos _

end Domain

structure Variable where
  label : String
  domain : Domain
  deriving DecidableEq

structure Model where
  declarations : Array Variable := #[]
  deriving DecidableEq

namespace Model

/-- The number of variables. -/
def size (model : Model) : Nat :=
  model.declarations.size

def declared? (model : Model) (var : Var) : Option Variable :=
  model.declarations[var]?

def push (model : Model) (newVariable : Variable) : Model :=
  ⟨model.declarations.push newVariable⟩

/-- Declares an integer variable, whose bounds must not be reversed. -/
def addInteger (model : Model) (label : String) (lower upper : Int32) : Except Misuse Model :=
  if h : lower ≤ upper then
    .ok (model.push ⟨label, lower, upper, h⟩)
  else
    .error (.emptyDomain lower.toInt upper.toInt label)

/-- Declares a boolean variable. -/
def addBoolean (model : Model) (label : String) : Model :=
  model.push ⟨label, .boolean⟩

/-- Forgets all variables but the first `size` ones. -/
def truncate (model : Model) (size : Nat) : Model :=
  ⟨model.declarations.take size⟩

/-- The label of a variable; empty for one that the model does not have. -/
def label (model : Model) (var : Var) : String :=
  match model.declared? var with
  | some declared => declared.label
  | none => ""

end Model

end Infeasibility.FiniteDomain
