import Tale.Decimal.Binary

/-!
# Whole numbers and remainders

Which doubles are whole numbers, and the remainder of a division that is cut off at the point. Both
are exact: a remainder has no more bits than its operands.
-/

namespace Tale.Decimal

/-- The whole number that a double is, if it is one. -/
def whole? (x : Float) : Option Int :=
  match magnitude x with
  | .finite b =>
    if b.num % b.den = 0 then
      some (if isNegative x then -((b.num / b.den : Nat) : Int) else ((b.num / b.den : Nat) : Int))
    else none
  | _ => none

/-- What remains of `a` when `b` has been taken away as often as possible. -/
def Binary.remainder (a b : Binary) : Float :=
  nearest (a.num * b.den % (b.num * a.den)) (a.den * b.den)

/-- The remainder of a division, with the sign of the dividend. -/
def remainder (x y : Float) : Float :=
  match magnitude x, magnitude y with
  | .finite _, .infinite => x
  | .finite a, .finite b =>
    if b.significand = 0 then 0 / 0
    else if isNegative x then -a.remainder b
    else a.remainder b
  | _, _ => 0 / 0

/-- The double without its fraction. -/
def truncate (x : Float) : Float :=
  if x < 0 then x.ceil else x.floor

end Tale.Decimal
