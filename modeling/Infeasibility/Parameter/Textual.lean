/-!
# Values written as text

The types of values that can be given as text: decimal numbers within the range of their type,
truth values, and text itself.
-/

namespace Infeasibility

/-! ### Numerals -/

namespace Numeral

/-- The number that one or more decimal digits denote. -/
def natural? (digits : List Char) : Option Nat :=
  if !digits.isEmpty && digits.all Char.isDigit then
    some (Nat.ofDigitChars 10 digits 0)
  else
    none

/-- Digits, which a plus sign may precede. -/
def unsigned? : List Char → Option Nat
  | '+' :: digits => natural? digits
  | digits => natural? digits

/-- Digits, which a sign may precede. -/
def signed? : List Char → Option Int
  | '-' :: digits => (natural? digits).map fun n => -(n : Int)
  | digits => (unsigned? digits).map fun n => (n : Int)

end Numeral

/-! ### Types of values -/

class Textual (α : Type) where
  /-- The value that a text denotes, if any. -/
  read? : String → Option α
  write : α → String

instance : Textual UInt64 where
  read? text := (Numeral.unsigned? text.toList).bind fun n =>
    if n < UInt64.size then some (UInt64.ofNat n) else none
  write value := toString value.toNat

instance : Textual UInt8 where
  read? text := (Numeral.unsigned? text.toList).bind fun n =>
    if n < UInt8.size then some (UInt8.ofNat n) else none
  write value := toString value.toNat

instance : Textual Int32 where
  read? text := (Numeral.signed? text.toList).bind fun n =>
    if Int32.minValue.toInt ≤ n ∧ n ≤ Int32.maxValue.toInt then some (Int32.ofInt n) else none
  write value := toString value.toInt

instance : Textual Bool where
  read?
    | "true" => some true
    | "false" => some false
    | _ => none
  write value := if value then "true" else "false"

instance : Textual String where
  read? := some
  write := id

end Infeasibility
