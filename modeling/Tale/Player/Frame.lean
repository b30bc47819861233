import Tale.Json.Basic
import Tale.Text.Blank
import Tale.Text.Numeral

/-!
# Frames

A line of a fault's trail, taken apart again: what the fault passed, and where, if the line says so
by ending in two numerals.
-/

namespace Tale.Player

structure Frame where
  passed : String
  /-- A line and a column. -/
  place : Option (Nat × Nat) := none
  deriving DecidableEq, Repr

namespace Frame

/-- A text that ends in a colon, a line, a colon and a column. -/
def placed? (info : List Char) : Option Frame := do
  let (front, column) ← Text.splitLast? ':' info
  let (passed, line) ← Text.splitLast? ':' front
  let line ← Text.numeral? Text.word64 line
  let column ← Text.numeral? Text.word64 column
  return ⟨String.ofList passed, some (line, column)⟩

def ofLine (line : String) : Frame :=
  let trimmed := line.toList.dropWhile Text.isBlank
  let info := (Text.after? "at ".toList trimmed).getD trimmed
  (placed? info).getD ⟨String.ofList info, none⟩

def toJson (f : Frame) : Json :=
  .present [("at", some (.str f.passed)), ("line", f.place.map fun p => .nat p.1),
    ("column", f.place.map fun p => .nat p.2)]

end Frame

end Tale.Player
