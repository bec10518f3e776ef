import Infeasibility.Misuse
import Infeasibility.Parameter.QuotedBytes
import Infeasibility.Parameter.Setting
import Infeasibility.Parameter.Textual

/-!
# Parameters

A parameter gets its value once: it is set, or it takes the setting of an environment variable at
the first reading. A setting that denotes no value is passed over with a warning in favour of the
default text. From then on the parameter keeps its value.
-/

namespace Infeasibility

/-- A setting that was passed over. -/
inductive Warning where
  /-- The text denotes no value. -/
  | unreadable (text : String)
  /-- The bytes are no text. -/
  | notText (raw : ByteArray)

structure Parameter (α : Type) where
  /-- The name of the parameter and of its environment variable. -/
  name : String
  /-- The text of the value that is taken if the environment gives none. -/
  default : String
  value? : Option α := none
  deriving DecidableEq

namespace Parameter

variable {α : Type}

/-- What is told about a warning. -/
def describe (parameter : Parameter α) (warning : Warning) : String :=
  let cause :=
    match warning with
    | .unreadable text => "could not parse \"" ++ text ++ "\""
    | .notText raw => "environment variable was not valid unicode: " ++ QuotedBytes.quote raw
  parameter.name ++ ": " ++ cause ++ ", using default \"" ++ parameter.default ++ "\""

/-- The warning that a setting deserves. -/
def warning? [Textual α] (_ : Parameter α) : Setting → Option Warning
  | .unset => none
  | .text text => if (Textual.read? text : Option α).isSome then none else some (.unreadable text)
  | .bytes raw => some (.notText raw)

/-- The value of the default text. -/
def readDefault [Textual α] (parameter : Parameter α) : Except Misuse α :=
  match Textual.read? parameter.default with
  | some value => .ok value
  | none => .error (.invalidDefault parameter.name parameter.default)

/-- The value that a setting gives to a parameter. -/
def read [Textual α] (parameter : Parameter α) : Setting → Except Misuse α
  | .text text =>
    match Textual.read? text with
    | some value => .ok value
    | none => parameter.readDefault
  | .unset | .bytes _ => parameter.readDefault

/-- The parameter with its value fixed. -/
def fix (parameter : Parameter α) (value : α) : Parameter α :=
  { parameter with value? := some value }

/-- What comes of looking at a parameter. -/
structure Reading (α : Type) where
  value : Except Misuse α
  warning? : Option Warning
  /-- The parameter afterwards; without a value it can still be given one. -/
  parameter : Parameter α

/-- The value of a parameter, which the setting decides only if nothing did before. -/
def get [Textual α] (parameter : Parameter α) (setting : Setting) : Reading α :=
  match parameter.value? with
  | some value => ⟨.ok value, none, parameter⟩
  | none =>
    let value := parameter.read setting
    ⟨value, parameter.warning? setting, value.toOption.elim parameter parameter.fix⟩

/-- Gives a parameter its value, unless it has one. -/
def set (parameter : Parameter α) (value : α) : Except Misuse (Parameter α) :=
  match parameter.value? with
  | some _ => .error (.alreadyInitialized parameter.name)
  | none => .ok (parameter.fix value)

end Parameter

end Infeasibility
