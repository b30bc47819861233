/-!
# Doubles as exact numbers

A finite double is a natural number times a power of two, with a sign. `Binary.ofFloat` takes a
double apart, and `nearest` goes back from a ratio of natural numbers to the double closest to it;
a ratio halfway between two doubles goes to the one with an even significand.
-/

namespace Tale.Decimal

/-- The number `significand * 2 ^ exponent`. -/
structure Binary where
  significand : Nat
  exponent : Int
  deriving DecidableEq, Repr, Inhabited

/-- The value of a double, its sign apart. -/
inductive Magnitude
  | nan
  | infinite
  | finite (value : Binary)
  deriving DecidableEq, Repr, Inhabited

/-- The field of a double that holds its exponent. -/
def exponentField (bits : UInt64) : Nat :=
  (bits.toNat / Nat.pow 2 52) % Nat.pow 2 11

/-- The field of a double that holds its significand, less the leading bit. -/
def fractionField (bits : UInt64) : Nat :=
  bits.toNat % Nat.pow 2 52

def isNegative (x : Float) : Bool :=
  Nat.pow 2 63 ≤ x.toBits.toNat

def magnitudeOfBits (bits : UInt64) : Magnitude :=
  let e := exponentField bits
  let f := fractionField bits
  if e = 2047 then if f = 0 then .infinite else .nan
  else if e = 0 then .finite ⟨f, -1074⟩
  else .finite ⟨Nat.pow 2 52 + f, (e : Int) - 1075⟩

def magnitude (x : Float) : Magnitude :=
  magnitudeOfBits x.toBits

namespace Binary

/-- The numerator of the value as a ratio. -/
def num (b : Binary) : Nat :=
  b.significand * Nat.pow 2 b.exponent.toNat

/-- The denominator of the value as a ratio. -/
def den (b : Binary) : Nat :=
  Nat.pow 2 (-b.exponent).toNat

end Binary

/-- `n / d` to the nearest whole number, a tie to the even one. -/
def divNearestEven (n d : Nat) : Nat :=
  let q := n / d
  let r := n % d
  if 2 * r < d then q
  else if d < 2 * r then q + 1
  else q + q % 2

/-- An exponent of at least -1074 that is right for `n / d`, or too small by one. -/
def exponentFor (n d : Nat) : Int :=
  max (-1074) ((n.log2 : Int) - (d.log2 : Int) - 53)

/-- The bits of the double nearest to `n / d`. -/
def nearestBits (n d : Nat) : UInt64 :=
  if n = 0 then 0
  else
    let e₀ := exponentFor n d
    let scaled (e : Int) := (n * Nat.pow 2 (-e).toNat, d * Nat.pow 2 e.toNat)
    let (n₀, d₀) := scaled e₀
    let e := if n₀ / d₀ < Nat.pow 2 53 then e₀ else e₀ + 1
    let (n₁, d₁) := scaled e
    let m := divNearestEven n₁ d₁
    let biased := (e + 1075).toNat
    -- A significand that rounding carries to `2 ^ 53` moves on to the next exponent by itself.
    let bits := if m < Nat.pow 2 52 then m else biased * Nat.pow 2 52 + (m - Nat.pow 2 52)
    if bits < 2047 * Nat.pow 2 52 then bits.toUInt64 else (2047 * Nat.pow 2 52).toUInt64

/-- The double nearest to `n / d`. -/
def nearest (n d : Nat) : Float :=
  Float.ofBits (nearestBits n d)

/-- The double nearest to `n * 10 ^ e`. -/
def nearestScaled (n : Nat) (e : Int) : Float :=
  nearest (n * Nat.pow 10 e.toNat) (Nat.pow 10 (-e).toNat)

end Tale.Decimal
