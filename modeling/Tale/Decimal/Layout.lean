import Tale.Decimal.Expansion
import Tale.Decimal.Shortest

/-!
# Numbers as text

How a double is written for a reader. `format` writes the fewest digits that still tell the number,
in plain form while the point stays within 21 places and in exponent form beyond; `fixed` and
`precise` write a given number of places or of significant digits, to which the expansion of the
exact value is rounded with a tie away from zero.
-/

namespace Tale.Decimal

/-- A row of digits with a point after the first `k`, unless they are all of them. -/
def pointAfter (k : Nat) (ds : List Char) : List Char :=
  if ds.length ≤ k then ds else ds.take k ++ '.' :: ds.drop k

/-- Digits followed by a signed power of ten. -/
def withExponent (ds : List Char) (e : Int) : List Char :=
  pointAfter 1 ds ++ 'e' :: (if e < 0 then '-' else '+') :: Text.digits e.natAbs

/-- Plain form while `-6 < point ≤ 21`, exponent form elsewhere. -/
def Digits.layout (x : Digits) : List Char :=
  let k := x.digits.length
  let n := x.point
  if (k : Int) ≤ n ∧ n ≤ 21 then x.digits ++ zeros (n.toNat - k)
  else if 0 < n ∧ n ≤ 21 then pointAfter n.toNat x.digits
  else if -6 < n ∧ n ≤ 0 then "0.".toList ++ zeros (-n).toNat ++ x.digits
  else withExponent x.digits (n - 1)

/-- The sign written before a number; neither zero has one. -/
def sign (x : Float) : List Char :=
  if x < 0 then ['-'] else []

/-- The text of a number. Both zeros are written `0`. -/
def format (x : Float) : List Char :=
  match magnitude x with
  | .nan => "NaN".toList
  | .infinite => sign x ++ "Infinity".toList
  | .finite b =>
    if b.significand = 0 then ['0']
    else sign x ++ (shortest b).layout

/-- Fixed-point text. From 10²¹ on a number is written as `format` does. -/
def fixed (x : Float) (places : Nat) : List Char :=
  match magnitude x with
  | .finite b =>
    if Nat.pow 10 21 * b.den ≤ b.num then format x
    else
      let e := b.expansion
      let (ds, carried) := roundTo (e.whole + places) e.digits
      sign x ++ pointAfter (if carried then e.whole + 1 else e.whole) ds
  | _ => format x

/-- The `p` significant digits of a value that is not zero, and the exponent of the first one. -/
def significant (b : Binary) (p : Nat) : List Char × Int :=
  let x := b.expansion
  let lead := (x.digits.takeWhile (· == '0')).length
  let e : Int := x.whole - 1 - lead
  let (ds, carried) := roundTo p (x.digits.drop lead)
  if carried then (ds.take p, e + 1) else (ds, e)

/-- Significant digits laid out: plain form for exponents from -6 up to the number of digits. -/
def layoutPrecise (ds : List Char) (e : Int) : List Char :=
  if e < -6 ∨ (ds.length : Int) ≤ e then withExponent ds e
  else if e < 0 then "0.".toList ++ zeros ((-e).toNat - 1) ++ ds
  else pointAfter (e.toNat + 1) ds

/-- Text with `p` significant digits. -/
def precise (x : Float) (p : Nat) : List Char :=
  match magnitude x with
  | .finite b =>
    if b.significand = 0 then layoutPrecise (zeros p) 0
    else
      let (ds, e) := significant b p
      sign x ++ layoutPrecise ds e
  | _ => format x

/-- `format` as a string. -/
def text (x : Float) : String :=
  String.ofList (format x)

end Tale.Decimal
