import Tale.Decimal.Binary
import Tale.Text.Numeral

/-!
# The shortest decimal

Of all decimals that round to a given double, the shortest one has the fewest digits, and of those
the one closest to the double is taken. Seventeen digits always suffice.
-/

namespace Tale.Decimal

/-- The number `0.d₁d₂…dₖ * 10 ^ point`, that is the digits with the point before the first one
moved `point` places to the right. -/
structure Digits where
  digits : List Char
  point : Int
  deriving DecidableEq, Repr, Inhabited

/-- The number of places before the point that a ratio takes: the `p` with
`10 ^ (p - 1) ≤ n / d < 10 ^ p`. -/
def places (n d : Nat) : Int :=
  if d ≤ n then (Text.digits (n / d)).length
  else
    let c := (d + n - 1) / n
    if c ≤ 1 then 1 else 1 - ((Text.digits (c - 1)).length : Int)

/-- The ends of the interval of numbers that round to a double, as numerators over a denominator
that the double's own numerator has too: `(low, value, high, den)`. -/
def interval (b : Binary) : Nat × Nat × Nat × Nat :=
  let n := 4 * b.num
  let d := 4 * b.den
  let unit := Nat.pow 2 b.exponent.toNat
  let down := if b.significand = Nat.pow 2 52 ∧ -1074 < b.exponent then unit else 2 * unit
  (n - down, n, n + 2 * unit, d)

/-- The decimal of `k` digits closest to the value, if it rounds to the value. -/
def withDigits (b : Binary) (p : Int) (k : Nat) : Option Digits :=
  let (low, n, high, d) := interval b
  -- One unit of the grid is `10 ^ (p - k)`.
  let up := Nat.pow 10 ((k : Int) - p).toNat
  let down := Nat.pow 10 (p - (k : Int)).toNat
  let closed := b.significand % 2 = 0
  let inside (t : Nat) : Bool :=
    let v := t * down * d
    if closed then low * up ≤ v && v ≤ high * up else low * up < v && v < high * up
  let t := n * up / (d * down)
  let near := 2 * (n * up - t * (d * down)) < d * down
  let pick :=
    if inside t && inside (t + 1) then some (if near then t else t + 1)
    else if inside t then some t
    else if inside (t + 1) then some (t + 1)
    else none
  pick.map fun t =>
    let ds := Text.digits t
    ⟨Text.dropZeros ds, p + ((ds.length : Int) - k)⟩

/-- The first of the digit counts up to 17 that gives a decimal which rounds to the value. -/
def shortest (b : Binary) : Digits :=
  let p := places b.num b.den
  ((List.range 17).findSome? fun i => withDigits b p (i + 1)).getD ⟨['0'], 1⟩

end Tale.Decimal
