import Tale.Json.Basic
import Tale.Json.Written
import Tale.Text.Units

/-!
# Reading JSON

What is written stands for a value if its numbers are not too large, its surrogates come in pairs
and it is not nested deeper than allowed. `parse?` asks this of a whole text. `parseRecord?` asks it
of the members that a record has: any other is only held to the grammar.

A number without point and exponent is whole if 64 bits hold it. Any other is the whole number
its leading digits write, as far as 64 bits hold them, times or divided by a power of ten.
-/

namespace Tale.Json

/-- A whole number of up to 64 bits and the number of digits that did not fit after it. -/
def significand (ds : List Char) : Nat × Nat :=
  ds.foldl step (0, 0)
where
  step : Nat × Nat → Char → Nat × Nat
    | (n, dropped), d =>
      let next := 10 * n + Text.digitValue d
      if dropped = 0 ∧ next < Text.word64 then (next, 0) else (n, dropped + 1)

/-- `significand * 10 ^ exponent` with one rounding for each factor; none if it is too large. -/
def scale (significand : Nat) (exponent : Int) : Option Float :=
  let start := significand.toUInt64.toFloat
  if significand = 0 then some 0
  else if 308 < exponent then none
  else if 0 ≤ exponent then
    let x := start * Decimal.nearestScaled 1 exponent
    if x.isInf then none else some x
  else
    -- Divisors stop at `10 ^ 308`; what is left of the exponent is divided out after that.
    let rest := (-exponent).toNat
    if rest ≤ 308 then some (start / Decimal.nearestScaled 1 rest)
    else
      let x := start / Decimal.nearestScaled 1 308
      if rest - 308 ≤ 308 then some (x / Decimal.nearestScaled 1 ((rest - 308 : Nat) : Int))
      else some 0

def negate (negative : Bool) (x : Float) : Float :=
  if negative then -x else x

namespace WrittenNumber

/-- The whole number that is written, if it is one that 64 bits hold. -/
def whole? (w : WrittenNumber) : Option Int :=
  let n := Text.digitsValue w.whole
  if w.fraction.isSome || w.exponent.isSome then none
  else if w.negative then
    if n = 0 ∨ Text.word64 < 2 * n then none else some (-n)
  else if n < Text.word64 then some n
  else none

def float? (w : WrittenNumber) : Option Float :=
  let fraction := w.fraction.getD []
  let (m, dropped) := significand w.whole
  let (m, shift) :=
    if dropped ≠ 0 then (m, (dropped : Int))
    else
      let (m', lost) := significand (w.whole ++ fraction)
      (m', -((fraction.length - lost : Nat) : Int))
  (scale m (shift + w.exponent.getD 0)).map (negate w.negative)

def value? (w : WrittenNumber) : Option Json :=
  match w.whole? with
  | some n => some (.int n)
  | none => w.float?.map .float

end WrittenNumber

/-- The characters that glyphs make up, after those that are `done`, last one first. -/
def chars? (done : List Char) : List Glyph → Option (List Char)
  | [] => some done.reverse
  | .char c :: gs => chars? (c :: done) gs
  | .unit u :: .unit v :: gs =>
    if Text.isHigh u && Text.isLow v then chars? (Text.paired u v :: done) gs
    else if Text.isHigh u || Text.isLow u then none
    else chars? (Char.ofNat u :: done) (.unit v :: gs)
  | .unit u :: gs =>
    if Text.isHigh u || Text.isLow u then none else chars? (Char.ofNat u :: done) gs

def text? (gs : List Glyph) : Option String :=
  (chars? [] gs).map String.ofList

namespace Written

mutual

/-- The value that is written, if it is not nested deeper than `levels`. -/
def toJson? (levels : Nat) : Written → Option Json
  | .null => some .null
  | .bool b => some (.bool b)
  | .number n => n.value?
  | .text gs => (text? gs).map .str
  | .arr xs =>
    match levels with
    | 0 => none
    | n + 1 => (elementsJson? n xs).map .arr
  | .obj ms =>
    match levels with
    | 0 => none
    | n + 1 => (membersJson? n ms).map .obj

def elementsJson? (levels : Nat) : List Written → Option (List Json)
  | [] => some []
  | x :: xs => do
    let j ← toJson? levels x
    let js ← elementsJson? levels xs
    return j :: js

def membersJson? (levels : Nat) : List (List Glyph × Written) → Option (List (String × Json))
  | [] => some []
  | (k, x) :: ms => do
    let k ← text? k
    let j ← toJson? levels x
    let js ← membersJson? levels ms
    return (k, j) :: js

end

/-- The record that is written. Of an object only the members of `names` are read, but the name of
every member. -/
def toRecord? (names : List String) (levels : Nat) : Written → Option Json
  | .obj ms => do
    let named ← ms.mapM fun (k, x) => (text? k).map fun k => (k, x)
    let known := named.filter fun (k, _) => names.contains k
    let read ← known.mapM fun (k, x) => (x.toJson? (levels - 1)).map fun j => (k, j)
    return .obj read
  | w => w.toJson? levels

end Written

/-- The value of a text, however deep it is nested. -/
def parse? (s : String) : Option Json :=
  (Written.ofText? s).bind (Written.toJson? s.length)

/-- How deep a record may be nested. -/
def recordLevels : Nat := 127

/-- The record of a text. -/
def parseRecord? (names : List String) (s : String) : Option Json :=
  (Written.ofText? s).bind (Written.toRecord? names recordLevels)

end Tale.Json
