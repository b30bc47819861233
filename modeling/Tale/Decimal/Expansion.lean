import Tale.Decimal.Binary
import Tale.Text.Numeral

/-!
# Decimal expansions

The denominator of a double is a power of two, so its decimal expansion ends. `Binary.expansion`
has all of it as a row of digits. `roundTo` rounds a row to some of its first digits, a tie upwards:
the carry may run through all of them, and out of the row.
-/

namespace Tale.Decimal

def zeros (k : Nat) : List Char :=
  List.replicate k '0'

/-- The digits of a number, with zeros in front up to `k` of them. -/
def padded (k n : Nat) : List Char :=
  let ds := Text.digits n
  zeros (k - ds.length) ++ ds

/-- A row of digits with the number of those before the point. -/
structure Expansion where
  digits : List Char
  whole : Nat
  deriving DecidableEq, Repr, Inhabited

/-- The number of places that hold every finite double. -/
def fullPlaces : Nat := 1074

/-- All digits of a value. -/
def Binary.expansion (b : Binary) : Expansion :=
  let whole := Text.digits (b.num / b.den)
  ⟨whole ++ padded fullPlaces (b.num % b.den * Nat.pow 10 fullPlaces / b.den), whole.length⟩

/-- Counts up in the last place. It says whether a one is carried out of the row. -/
def increment : List Char → List Char × Bool
  | [] => ([], true)
  | d :: ds =>
    match increment ds with
    | (ds, false) => (d :: ds, false)
    | (ds, true) =>
      if d = '9' then ('0' :: ds, true) else (Char.ofNat (d.toNat + 1) :: ds, false)

/-- The first `keep` digits, rounded by the one after them. It says whether a digit was added in
front. -/
def roundTo (keep : Nat) (ds : List Char) : List Char × Bool :=
  match ds.drop keep with
  | [] => (ds ++ zeros (keep - ds.length), false)
  | d :: _ =>
    if d < '5' then (ds.take keep, false)
    else
      match increment (ds.take keep) with
      | (ds, false) => (ds, false)
      | (ds, true) => ('1' :: ds, true)

end Tale.Decimal
