import Infeasibility.FiniteDomain.Constraint

/-!
# Terms and constraints as text

Operators stand between their operands. An operand is bracketed if it has an operator of its own,
except at the sides of a comparison. How variables are named is left open: by their numbers, or by
the labels of a model.
-/

namespace Infeasibility.FiniteDomain

def Operator.symbol : Operator → String
  | add => "+"
  | sub => "-"
  | mul => "*"
  | div => "/"
  | rem => "%"

def Comparison.symbol : Comparison → String
  | eq => "=="
  | ne => "!="
  | lt => "<"
  | le => "<="
  | gt => ">"
  | ge => ">="

def bracketed (text : String) : String :=
  "(" ++ text ++ ")"

/-- The name of a variable that has no label: `v` and its number. -/
def Var.name (var : Var) : String :=
  "v" ++ toString var

namespace Term

/-- The text of a term, given its own text, where it is an operand. -/
def asOperand (text : String) : Term → String
  | binary .. => bracketed text
  | _ => text

def text (name : Var → String) : Term → String
  | const value => toString value.toInt
  | var v => name v
  | neg t => "-" ++ t.asOperand (t.text name)
  | binary op l r =>
    l.asOperand (l.text name) ++ " " ++ op.symbol ++ " " ++ r.asOperand (r.text name)

end Term

namespace Constraint

/-- The text of a constraint, given its own text, where it is an operand. -/
def asOperand (text : String) : Constraint → String
  | all _ | any _ | implies .. => bracketed text
  | _ => text

/-- The text of a constraint, given its own text, where it is negated. -/
def asNegated (text : String) : Constraint → String
  | literal _ => text
  | _ => bracketed text

mutual

def text (name : Var → String) : Constraint → String
  | literal v => name v
  | compare op l r => l.text name ++ " " ++ op.symbol ++ " " ++ r.text name
  | all cs => if cs.isEmpty then "true" else " & ".intercalate (operandTexts name cs)
  | any cs => if cs.isEmpty then "false" else " | ".intercalate (operandTexts name cs)
  | not c => "!" ++ c.asNegated (c.text name)
  | implies a b => a.asOperand (a.text name) ++ " -> " ++ b.asOperand (b.text name)
  | allDifferent ts => "all_different" ++ bracketed (", ".intercalate (ts.map (Term.text name)))

def operandTexts (name : Var → String) : List Constraint → List String
  | [] => []
  | c :: cs => c.asOperand (c.text name) :: operandTexts name cs

end

end Constraint

/-- The text of a constraint with the labels of a model, which has to have all its variables. -/
def Model.describe (model : Model) (constraint : Constraint) : Except Misuse String :=
  match constraint.vars.find? (model.size ≤ ·) with
  | some var => .error (.noSuchVariable var)
  | none => .ok (constraint.text model.label)

end Infeasibility.FiniteDomain
