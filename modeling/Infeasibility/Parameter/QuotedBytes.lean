import Infeasibility.Character.Extending
import Infeasibility.Character.Invisible

/-!
# Quoted bytes

How bytes are shown that are no text. The characters among them stand for themselves between double
quotes, unless they would end the quotation or could not be seen; bytes that belong to no character
are written as numbers.
-/

namespace Infeasibility.QuotedBytes

/-- The letter that stands for a character after a backslash. -/
def letter? : Char → Option Char
  | '"' => some '"'
  | '\\' => some '\\'
  | '\n' => some 'n'
  | '\r' => some 'r'
  | '\t' => some 't'
  | '\x00' => some '0'
  | _ => none

/-- Whether a character can be seen by itself. -/
def isPrintable (c : Char) : Bool :=
  !Character.invisible.covers c.toNat && !Character.extending.covers c.toNat

/-- The search stops early in either table, and yet misses no range. -/
theorem isPrintable_iff {c : Char} :
    isPrintable c ↔ ¬∃ range ∈ Character.invisible ++ Character.extending,
      range.1 ≤ c.toNat ∧ c.toNat ≤ range.2 := by
  rw [isPrintable, ← Bool.not_or, Bool.not_eq_true', ← Bool.not_eq_true, Bool.or_eq_true,
    Character.Ranges.covers_iff Character.invisible_isAscending,
    Character.Ranges.covers_iff Character.extending_isAscending]
  simp only [List.mem_append, or_and_right, exists_or]

/-- A character between quotes: itself, a letter, or the number of its code point. -/
def escape (c : Char) : List Char :=
  match letter? c with
  | some letter => ['\\', letter]
  | none =>
    if isPrintable c then
      [c]
    else
      ['\\', 'u', '\x7b'] ++ Nat.toDigits 16 c.toNat ++ ['\x7d']

/-- A byte that belongs to no character, in two capital hexadecimal digits. -/
def escapeByte (byte : UInt8) : List Char :=
  ['\\', 'x'] ++
    [byte.toNat / 16, byte.toNat % 16].map fun digit => (Nat.digitChar digit).toUpper

/-- The bytes from a position on: characters where there are any, single bytes elsewhere. The
number of steps is limited by the number of bytes. -/
def contents (raw : ByteArray) : (steps position : Nat) → List Char
  | 0, _ => []
  | steps + 1, position =>
    if h : position < raw.size then
      match raw.utf8DecodeChar? position with
      | some c => escape c ++ contents raw steps (position + c.utf8Size)
      | none => escapeByte raw[position] ++ contents raw steps (position + 1)
    else
      []

/-- Bytes in double quotes. -/
def quote (raw : ByteArray) : String :=
  "\"" ++ String.ofList (contents raw raw.size 0) ++ "\""

end Infeasibility.QuotedBytes
