import Tale.Library.Answer

/-!
# Functions that draw random numbers
-/

namespace Tale.Library.Chance

open Arguments

def between (args : List Value) : Answer := do
  count args 0 (some 2)
  let low ← number args 0 (some 0)
  let high ← number args 1 (some 1)
  let x ← Run.draw (·.between low high)
  return .number x

def whole (args : List Value) : Answer := do
  count args 2 (some 2)
  let low ← number args 0
  let high ← number args 1
  let x ← Run.draw (·.whole low high)
  return .number x

/-- True with a given chance. -/
def boolean (args : List Value) : Answer := do
  count args 0 (some 1)
  let chance ← number args 0 (some 0.5)
  let x ← Run.draw (·.unit)
  return .boolean (x < chance)

/-- A bell around a number, of which only what lies in a range is drawn. -/
structure Bell where
  low : Float
  high : Float
  center : Float
  /-- How narrow the bell is. -/
  influence : Float

def bell (args : List Value) : Except Refusal Bell := do
  count args 0 (some 4)
  let low ← number args 0 (some 0)
  let high ← number args 1 (some 1)
  let center ← number args 2 (some ((low + high) / 2))
  let influence ← number args 3 (some 4)
  if low >= high then throw .emptyRange
  if center < low || center > high then throw .bias
  return ⟨low, high, center, influence⟩

def pi : Float := 3.141592653589793

/-- One draw from the bell, wherever it falls. -/
def Bell.sample (b : Bell) : Run Float := do
  let u ← Run.draw (·.unit)
  let v ← Run.draw (·.unit)
  let radius := (-2 * u.log).sqrt
  let angle := (2 * pi * v).cos
  return b.center + (b.high - b.low) / b.influence * radius * angle

/-- Draws until the number falls into the range. A machine goes at most `turns` times round this
loop. -/
def Bell.draw (b : Bell) : (turns : Nat) → Run Float
  | 0 => throw .exhausted
  | n + 1 => do
    let x ← b.sample
    if x >= b.low && x < b.high then return x
    b.draw n

def biased (turns : Nat) (args : List Value) : Answer := do
  let b ← bell args
  let x ← b.draw turns
  return .number x

end Tale.Library.Chance
