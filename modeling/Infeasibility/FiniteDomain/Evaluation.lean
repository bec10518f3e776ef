import Infeasibility.FiniteDomain.Constraint

/-!
# Evaluation

Terms are evaluated in 64-bit arithmetic that refuses to wrap around. Connectives are evaluated
from left to right and no further than it takes to know the result, so that what comes later may
well be an error.
-/

namespace Infeasibility.FiniteDomain

/-- Why a term or a constraint has no value. -/
inductive EvalError where
  | divisionByZero
  /-- The exact result does not fit into 64 bits. -/
  | overflow
  /-- A variable was read that has no value. -/
  | unassigned (var : Var)
  deriving Repr, DecidableEq

def EvalError.message : EvalError → String
  | divisionByZero => "division by zero"
  | overflow => "arithmetic overflow"
  | unassigned var => s!"variable {var} has no value"

/-! ### Checked arithmetic -/

/-- The 64-bit word for an integer. -/
def checked (n : Int) : Except EvalError Int64 :=
  if Int64.minValue.toInt ≤ n ∧ n ≤ Int64.maxValue.toInt then
    .ok (Int64.ofInt n)
  else
    .error .overflow

/-- The result of an operator. Division takes precedence over everything else to refuse zero, and
there is no remainder of a division that overflows. -/
def Operator.apply (operator : Operator) (left right : Int64) : Except EvalError Int64 :=
  match operator with
  | add => checked (left.toInt + right.toInt)
  | sub => checked (left.toInt - right.toInt)
  | mul => checked (left.toInt * right.toInt)
  | div =>
    if right = 0 then .error .divisionByZero else checked (left.toInt.tdiv right.toInt)
  | rem =>
    if right = 0 then
      .error .divisionByZero
    else do
      let _ ← checked (left.toInt.tdiv right.toInt)
      checked (left.toInt.tmod right.toInt)

/-- Whether a comparison holds between two words. -/
def Comparison.holds (comparison : Comparison) (left right : Int64) : Bool :=
  match comparison with
  | eq => left = right
  | ne => left ≠ right
  | lt => left < right
  | le => left ≤ right
  | gt => right < left
  | ge => right ≤ left

/-- Whether no word occurs twice: words that are the same are neighbours once the words are sorted,
and of neighbours that are the same only one is kept. -/
def areDistinct (words : List Int64) : Bool :=
  words.mergeSort.eraseReps.length = words.length

/-! ### Assignments -/

/-- Values for the variables of a model, in order. -/
structure Assignment where
  values : Array Int32
  deriving Repr, DecidableEq

namespace Assignment

def value? (assignment : Assignment) (var : Var) : Option Int32 :=
  assignment.values[var]?

def read (assignment : Assignment) (var : Var) : Except EvalError Int32 :=
  match assignment.value? var with
  | some value => .ok value
  | none => .error (.unassigned var)

/-- Gives another value to a variable that has one. -/
def set (assignment : Assignment) (var : Var) (value : Int32) : Assignment :=
  ⟨assignment.values.setIfInBounds var value⟩

/-- The truth value of a variable. -/
def isTrue (assignment : Assignment) (var : Var) : Except EvalError Bool :=
  return (← assignment.read var) ≠ 0

def evalTerm (assignment : Assignment) : Term → Except EvalError Int64
  | .const value => .ok value.toInt64
  | .var v => return (← assignment.read v).toInt64
  | .neg t => do checked (-(← assignment.evalTerm t).toInt)
  | .binary op l r => do
    let left ← assignment.evalTerm l
    let right ← assignment.evalTerm r
    op.apply left right

mutual

/-- The truth value of a constraint. -/
def eval (assignment : Assignment) : Constraint → Except EvalError Bool
  | .literal v => assignment.isTrue v
  | .compare op l r => do
    let left ← assignment.evalTerm l
    let right ← assignment.evalTerm r
    return op.holds left right
  | .all cs => assignment.evalAll cs
  | .any cs => assignment.evalAny cs
  | .not c => return !(← assignment.eval c)
  | .implies a b => do if ← assignment.eval a then assignment.eval b else return true
  | .allDifferent ts => return areDistinct (← ts.mapM assignment.evalTerm)

/-- Whether all constraints are true; the first that is not decides. -/
def evalAll (assignment : Assignment) : List Constraint → Except EvalError Bool
  | [] => return true
  | c :: cs => do if ← assignment.eval c then assignment.evalAll cs else return false

/-- Whether some constraint is true; the first that is decides. -/
def evalAny (assignment : Assignment) : List Constraint → Except EvalError Bool
  | [] => return false
  | c :: cs => do if ← assignment.eval c then return true else assignment.evalAny cs

end

/-- Whether a constraint is true, and not an error. -/
def entails (assignment : Assignment) (constraint : Constraint) : Except Misuse Bool :=
  match assignment.eval constraint with
  | .ok truth => .ok truth
  | .error (.unassigned var) => .error (.noSuchVariable var)
  | .error _ => .ok false

end Assignment

end Infeasibility.FiniteDomain
