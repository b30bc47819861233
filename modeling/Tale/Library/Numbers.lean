import Tale.Library.Arguments

/-!
# Functions on numbers
-/

namespace Tale.Library.Numbers

open Arguments

/-- The argument that comes before all others; one that is no number is passed over. -/
def extreme (before : Float → Float → Bool) (start : Float) (args : List Value) :
    Except Refusal Value := do
  count args 1 none
  let xs ← each (fun i => number args i) args
  return .number (xs.foldl (fun best x => if before x best then x else best) start)

def min (args : List Value) : Except Refusal Value :=
  extreme (fun x y => x < y) (1 / 0) args

def max (args : List Value) : Except Refusal Value :=
  extreme (fun x y => x > y) (-1 / 0) args

def floor (args : List Value) : Except Refusal Value := do
  count args 1 (some 1)
  return .number (← number args 0).floor

def ceil (args : List Value) : Except Refusal Value := do
  count args 1 (some 1)
  return .number (← number args 0).ceil

end Tale.Library.Numbers
