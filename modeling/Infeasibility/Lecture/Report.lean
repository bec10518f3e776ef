import Infeasibility.Diagnosis.Fault
import Infeasibility.Diagnosis.Method
import Infeasibility.Lecture.Basic

/-!
# Reports on lectures

A report tells what each method finds out about a lesson, a line for each: the diagnosis, or why
there is none. A correction is followed by a solution of the constraints that it leaves. If the
solver was at fault, the last line names the constraint that it fails on.
-/

namespace Infeasibility

open FiniteDomain

/-- A report in the making: the text so far survives an error. -/
abbrev Report (α : Type) :=
  ExceptT DiagnosisError (StateT String (Dialogue Constraint Assignment Var)) α

namespace Report

variable {ε α : Type}

/-- Adds a line. -/
def line (text : String) : Report Unit :=
  modify fun report => report ++ text ++ "\n"

/-- Adds a line with a heading in a column of its own, twelve characters wide. -/
def entry (heading text : String) : Report Unit :=
  line (heading ++ String.ofList (List.replicate (12 - heading.length) ' ') ++ " " ++ text)

/-- What comes of an inquiry, be it an error. -/
def attempt (inquiry : Inquiry Constraint Assignment Var ε α) : Report (Except ε α) :=
  ExceptT.lift (StateT.lift inquiry.run)

/-- The result of an inquiry that has to succeed. -/
def require (inquiry : Inquiry Constraint Assignment Var DiagnosisError α) : Report α := do
  liftExcept (← attempt inquiry)
where
  liftExcept : Except DiagnosisError α → Report α
    | .ok value => return value
    | .error error => throw error

def abandon (misuse : Misuse) : Report α :=
  ExceptT.lift (StateT.lift (.abandon misuse))

/-- The value of something that is no misuse. -/
def ofMisuse : Except Misuse α → Report α
  | .ok value => return value
  | .error misuse => abandon misuse

end Report

/-- The headings of the methods. -/
def Method.heading : Method → String
  | deletion => "Mus"
  | growth => "McsGrow"
  | indicators => "McsReified"
  | softTerms => "McsDirect"

/-- The methods, in the order in which they are tried. -/
def Method.all : List Method :=
  [deletion, growth, indicators, softTerms]

namespace Lesson

open Report

/-- A constraint in square brackets. -/
def constraintText (lesson : Lesson) (constraint : Constraint) : Report String :=
  return "[" ++ (← ofMisuse (lesson.model.describe constraint)) ++ "]"

def diagnosisText (lesson : Lesson) (diagnosis : Diagnosis lesson.problem.soft) :
    Report String :=
  return " ".intercalate (← diagnosis.toList.mapM lesson.constraintText)

/-- The value of a variable that is shown. -/
def valueText (lesson : Lesson) (solution : Assignment) (var : Var) : Report String :=
  match solution.value? var with
  | some value => return lesson.model.label var ++ "=" ++ toString value.toInt
  | none => abandon (.noSuchVariable var)

/-- A solution of the constraints that a correction leaves. -/
def solutionText (lesson : Lesson) (correction : Diagnosis lesson.problem.soft) :
    Report String := do
  match ← require (lesson.problem.ask correction.complement).orUnavailable with
  | .satisfiable solution =>
    return " ".intercalate (← lesson.shown.mapM (lesson.valueText solution))
  | .unsatisfiable => return "none"

/-- What a method finds out. The answer is whether the solver was at fault. -/
def reportMethod (lesson : Lesson) (verify : Bool) (method : Method) : Report Bool := do
  match ← attempt (method.diagnose verify lesson.problem) with
  | .ok diagnosis =>
    entry method.heading (← lesson.diagnosisText diagnosis)
    match method.kind with
    | .core => return false
    | .correction =>
      entry "  solution" (← lesson.solutionText diagnosis)
      return false
  | .error (.unavailable error) =>
    entry method.heading (DiagnosisError.unavailable error).message
    return true
  | .error error =>
    entry method.heading error.message
    return false

/-- What some methods find out one after another. -/
def reportMethods (lesson : Lesson) (verify : Bool) : List Method → Report Bool
  | [] => return false
  | method :: methods => do
    let atFault ← lesson.reportMethod verify method
    return (← lesson.reportMethods verify methods) || atFault

/-- The first soft constraint that the solver fails on. -/
def reportFault (lesson : Lesson) : Report Unit := do
  match ← require (Fault.first? lesson.problem.soft) with
  | none => return
  | some fault =>
    match lesson.problem.soft[fault.position]? with
    | none => abandon (.noSuchPosition fault.position)
    | some constraint =>
      entry "Faulty" ((← lesson.constraintText constraint) ++ " (" ++ fault.error.message ++ ")")

def report (lesson : Lesson) (verify : Bool) (methods : List Method) : Report Unit := do
  line ("=== " ++ lesson.title ++ " ===")
  if ← lesson.reportMethods verify methods then
    lesson.reportFault
  else
    return

end Lesson

end Infeasibility
