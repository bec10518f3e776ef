/-!
# Misuse

Requests that break the contract of the operation they are made to. They are kept apart from the
errors of an oracle and of a diagnosis, which a caller may meet through no fault of its own.
-/

namespace Infeasibility

/-- Why a request cannot be carried out at all. -/
inductive Misuse where
  /-- A problem has no soft constraint at this position. -/
  | noSuchPosition (position : Nat)
  /-- These are not strictly increasing positions of the source. -/
  | notPositions (positions : List Nat)
  /-- A model has no variable of this index. -/
  | noSuchVariable (index : Nat)
  /-- No implication is recorded under this identifier. -/
  | noSuchImplication (identifier : Nat)
  /-- The target of an implication is itself an implication. -/
  | nestedImplication
  /-- A variable was asked for whose domain holds no value. -/
  | emptyDomain (lower upper : Int) (label : String)
  /-- A parameter was set after it already had a value. -/
  | alreadyInitialized (parameter : String)
  /-- The default text of a parameter denotes no value. -/
  | invalidDefault (parameter default : String)
  deriving Repr, DecidableEq

namespace Misuse

/-- The explanation given for a misuse; the ones about positions, variables and recorded
implications go without. -/
def message? : Misuse → Option String
  | noSuchPosition _ | notPositions _ | noSuchVariable _ | noSuchImplication _ => none
  | nestedImplication => some "nested implications are not supported"
  | emptyDomain lower upper label => some s!"empty domain [{lower}, {upper}] for {label}"
  | alreadyInitialized parameter => some s!"Parameter {parameter} is already initialized."
  | invalidDefault parameter default =>
    some (parameter ++ ": invalid default value \"" ++ default ++ "\"")

end Misuse

end Infeasibility
