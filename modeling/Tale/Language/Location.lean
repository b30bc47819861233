import Tale.Text.Numeral

/-!
# Places in a text

Lines and columns count from one, and a column is a number of characters.
-/

namespace Tale

structure Location where
  line : Nat
  column : Nat
  deriving DecidableEq, Repr, Inhabited

namespace Location

def start : Location := ⟨1, 1⟩

/-- The place after a character. -/
def step (l : Location) (c : Char) : Location :=
  if c = '\n' then ⟨l.line + 1, 1⟩ else ⟨l.line, l.column + 1⟩

/-- The place after a text. -/
def past (l : Location) (s : List Char) : Location :=
  s.foldl step l

def text (l : Location) : String :=
  Text.decimal l.line ++ ":" ++ Text.decimal l.column

end Location

end Tale
