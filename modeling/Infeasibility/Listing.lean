/-!
# Listings

Texts of lists: items joined on one line, or one item to a line.
-/

namespace Infeasibility.Listing

/-- Items in brackets on one line: `[a, b]`. -/
def inline (items : List String) : String :=
  "[" ++ ", ".intercalate items ++ "]"

/-- Items in brackets, each on an indented line of its own and followed by a comma. -/
def block : List String → String
  | [] => "[]"
  | items => "[\n" ++ String.join (items.map fun item => "    " ++ item ++ ",\n") ++ "]"

end Infeasibility.Listing
