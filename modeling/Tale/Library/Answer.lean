import Tale.Library.Arguments
import Tale.World

/-!
# Answers

A function of the library checks its arguments, looks at the world and changes it step by step. It
can refuse at any step, and then what it has changed before stays changed.
-/

namespace Tale

/-- What a library function answers: a value, or why there is none. -/
abbrev Library.Answer := ExceptT Refusal Run Value

namespace Run

/-- Puts out a piece of content. -/
def emit (n : Node) : Run Unit :=
  modify (·.emit n)

/-- Draws a number with the generator of the world. -/
def draw (sample : Random → Float × Random) : Run Float :=
  modifyGet fun w => ((sample w.random).1, { w with random := (sample w.random).2 })

end Run

end Tale
