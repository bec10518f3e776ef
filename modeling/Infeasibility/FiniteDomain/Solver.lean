import Infeasibility.FiniteDomain.Enumeration
import Infeasibility.FiniteDomain.Text

/-!
# A solver by enumeration

Constraints over a model are decided by trying all assignments of their variables, smallest values
first, so that the answer is always the same. An indicator is a boolean variable that is added to
the model, and an implication from it is a constraint like any other.
-/

namespace Infeasibility.FiniteDomain

structure Solver where
  model : Model
  /-- How many assignments a question may enumerate. -/
  limit : Nat
  /-- A flag that makes all questions fail while it is raised, if there is one. -/
  interrupt : Option Bool := none
  /-- Whether constraints are accepted as soft terms. -/
  softConstraints : Bool := true
  /-- The indicators that were not released. -/
  indicators : List Var := []
  deriving DecidableEq

namespace Solver

/-- How many assignments a question may enumerate if nothing else is said. -/
def defaultLimit : Nat := 10000000

def enumeration (solver : Solver) : Enumeration where
  model := solver.model
  limit := solver.limit
  interrupted := solver.interrupt.getD false

/-- Raises or lowers the flag, if there is one. -/
def setInterrupt (solver : Solver) (raised : Bool) : Solver :=
  { solver with interrupt := solver.interrupt.map fun _ => raised }

/-! ### Truth -/

/-- The constraint to blame for an error: an implication from an indicator passes the blame on to
its conclusion. -/
def culprit (solver : Solver) : Constraint → Constraint
  | .implies (.literal premise) conclusion =>
    if solver.indicators.contains premise then
      conclusion
    else
      .implies (.literal premise) conclusion
  | constraint => constraint

/-- What an error in the evaluation of a constraint amounts to. -/
def blame (solver : Solver) (constraint : Constraint) : EvalError → Halt
  | .unassigned var => .misuse (.noSuchVariable var)
  | error =>
    match solver.model.describe (solver.culprit constraint) with
    | .ok text => .error (.failure (error.message ++ " in `" ++ text ++ "`"))
    | .error misuse => .misuse misuse

def holds (solver : Solver) (assignment : Assignment) (constraint : Constraint) :
    Except Halt Bool :=
  (assignment.eval constraint).mapError (solver.blame constraint)

/-- Whether all constraints hold; the first that does not decides. -/
def allHold (solver : Solver) (assignment : Assignment) : List Constraint → Except Halt Bool
  | [] => .ok true
  | constraint :: rest =>
    match solver.holds assignment constraint with
    | .error halt => .error halt
    | .ok false => .ok false
    | .ok true => solver.allHold assignment rest

/-! ### Satisfiability -/

/-- The first assignment under which all constraints hold. -/
def search (solver : Solver) (constraints : List Constraint) : Except Halt (Option Assignment) :=
  Prod.snd <$> solver.enumeration.run (Constraint.scope constraints) none fun assignment _ =>
    match solver.allHold assignment constraints with
    | .error halt => .error halt
    | .ok false => .ok (.yield none)
    | .ok true => .ok (.done (some assignment))

def solve (solver : Solver) (constraints : List Constraint) :
    Except Misuse (Except OracleError (Outcome Assignment)) :=
  Halt.separate <| (solver.search constraints).map fun
    | none => .unsatisfiable
    | some assignment => .satisfiable assignment

/-! ### Optimization -/

/-- The constraint that is true where a soft term is. -/
def constraintOf : SoftTerm Constraint Var → Constraint
  | .indicator var => .literal var
  | .constraint constraint => constraint

def isConstraint : SoftTerm Constraint Var → Bool
  | .indicator _ => false
  | .constraint _ => true

/-- An assignment, with the truth of the soft terms. -/
structure Candidate where
  satisfied : List Bool
  assignment : Assignment

/-- How many soft terms are true. -/
def Candidate.count (candidate : Candidate) : Nat :=
  candidate.satisfied.count true

/-- The better of two candidates; the former if they are equally good. -/
def Candidate.better (best : Option Candidate) (candidate : Candidate) : Candidate :=
  match best with
  | none => candidate
  | some best => if best.count < candidate.count then candidate else best

/-- Of the assignments that meet the hard constraints the first that makes as many soft terms true
as possible. The search ends where they are all true. -/
def optimize (solver : Solver) (hard : List Constraint) (soft : List (SoftTerm Constraint Var)) :
    Except Halt (Option Candidate) :=
  if !solver.softConstraints && soft.any isConstraint then
    .error (.error (.failure "soft constraints are disabled"))
  else
    let terms := soft.map constraintOf
    Prod.snd <$> solver.enumeration.run (Constraint.scope (hard ++ terms)) none
      fun assignment best =>
        match solver.allHold assignment hard with
        | .error halt => .error halt
        | .ok false => .ok (.yield best)
        | .ok true =>
          match terms.mapM (solver.holds assignment) with
          | .error halt => .error halt
          | .ok satisfied =>
            let candidate := Candidate.mk satisfied assignment
            let best := some (Candidate.better best candidate)
            if candidate.count = terms.length then .ok (.done best) else .ok (.yield best)

def maximize (solver : Solver) (hard : List Constraint) (soft : List (SoftTerm Constraint Var)) :
    Except Misuse (Except OracleError (Optimum Assignment)) :=
  Halt.separate <| (solver.optimize hard soft).map fun
    | none => .unsatisfiable
    | some best => .optimal best.satisfied best.assignment

/-! ### Indicators -/

/-- The model with one more indicator, labelled by its number. -/
def addIndicator (solver : Solver) : Solver :=
  { solver with
    model := solver.model.addBoolean s!"_ind{solver.model.size}"
    indicators := solver.indicators ++ [solver.model.size] }

/-- Whether some variables are the last ones of a model that come from `first` on. -/
def areLast (model : Model) (first : Var) (vars : List Var) : Bool :=
  first + vars.length = model.size && decide vars.Nodup

/-- Released indicators leave the model if they are its last variables. -/
def release (solver : Solver) (released : List Var) : Solver :=
  { solver with
    indicators := solver.indicators.filter fun indicator => !released.contains indicator
    model :=
      match released.min? with
      | none => solver.model
      | some first =>
        if areLast solver.model first released then solver.model.truncate first else solver.model }

end Solver

/-- The oracle of a solver. Questions leave its state as it is. -/
def oracle : Oracle Solver Constraint Assignment Var where
  solve constraints := fun solver => (solver.solve constraints, solver)
  newIndicator := fun solver => (.ok solver.model.size, solver.addIndicator)
  implication indicator constraint := pure (.implies (.literal indicator) constraint)
  release indicators := fun solver => (.ok (), solver.release indicators)
  supportsSoft := Solver.softConstraints
  maximize hard soft := fun solver => (solver.maximize hard soft, solver)

end Infeasibility.FiniteDomain
