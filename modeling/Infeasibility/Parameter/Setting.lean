/-!
# Settings of the environment

An environment variable is unset, or has a text, or has bytes that are no text.
-/

namespace Infeasibility

inductive Setting where
  | unset
  | text (text : String)
  /-- These bytes are not the encoding of any text. -/
  | bytes (raw : ByteArray)

/-- Bytes are text if they can be. -/
def Setting.ofBytes (raw : ByteArray) : Setting :=
  match String.fromUTF8? raw with
  | some decoded => .text decoded
  | none => .bytes raw

end Infeasibility
