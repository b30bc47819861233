/-!
# Lists in sentences
-/

namespace Tale.Text

/-- `a`, `a or b`, `a, b, or c`. -/
def listing (relation : String) : List String → String
  | [] => ""
  | [a] => a
  | [a, b] => a ++ " " ++ relation ++ " " ++ b
  | items =>
    ", ".intercalate items.dropLast ++ ", " ++ relation ++ " " ++ items.getLast?.getD ""

/-- A text in quotes. -/
def inQuotes (s : String) : String :=
  "\"" ++ s ++ "\""

end Tale.Text
