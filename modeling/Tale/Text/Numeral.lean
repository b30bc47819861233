import Tale.Text.Search

/-!
# Numerals

Natural numbers as digits. A numeral read from outside may carry a plus sign and has to stay below
a limit; one that does not is no numeral.
-/

namespace Tale.Text

def isDigit (c : Char) : Bool :=
  '0' ≤ c && c ≤ '9'

def digitValue (c : Char) : Nat :=
  c.toNat - '0'.toNat

/-- The number that a row of digits writes. -/
def digitsValue (ds : List Char) : Nat :=
  ds.foldl (fun n d => 10 * n + digitValue d) 0

/-- The number below `limit` that a text of digits, with or without a plus sign, writes. -/
def numeral? (limit : Nat) (s : List Char) : Option Nat :=
  let digits := (after? ['+'] s).getD s
  if digits.isEmpty || !digits.all isDigit then none
  else
    let n := digitsValue digits
    if n < limit then some n else none

/-- Words of the machine that numbers from outside have to fit. -/
def word32 : Nat := Nat.pow 2 32

def word64 : Nat := Nat.pow 2 64

/-- The digits of a number, without leading zeros. -/
def digits (n : Nat) : List Char :=
  Nat.toDigits 10 n

/-- The digits without the zeros at their end. -/
def dropZeros (ds : List Char) : List Char :=
  (ds.reverse.dropWhile (· == '0')).reverse

/-- The numeral of a number. -/
def decimal (n : Nat) : String :=
  String.ofList (digits n)

end Tale.Text
