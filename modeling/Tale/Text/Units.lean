/-!
# Code units

The length of a text is counted, and a text is cut, in UTF-16 code units: a character beyond
U+FFFF takes two of them, a high and a low surrogate. Decoding puts U+FFFD in place of a surrogate
whose partner was cut off.
-/

namespace Tale.Text

/-- The code units of one character. -/
def charUnits (c : Char) : List Nat :=
  if c.toNat < 0x10000 then [c.toNat]
  else [0xd800 + (c.toNat - 0x10000) / 0x400, 0xdc00 + (c.toNat - 0x10000) % 0x400]

/-- The code units of a text. -/
def units (s : List Char) : List Nat :=
  s.flatMap charUnits

/-- The number of code units of a text. -/
def unitLength (s : List Char) : Nat :=
  (units s).length

def isHigh (u : Nat) : Bool :=
  0xd800 ≤ u && u < 0xdc00

def isLow (u : Nat) : Bool :=
  0xdc00 ≤ u && u < 0xe000

/-- The character of a high and a low surrogate. -/
def paired (high low : Nat) : Char :=
  Char.ofNat (0x10000 + (high - 0xd800) * 0x400 + (low - 0xdc00))

/-- The mark for what is no character. -/
def replacement : Char := '\ufffd'

/-- The text that code units spell. -/
def ofUnits : List Nat → List Char
  | [] => []
  | [u] => [if isHigh u || isLow u then replacement else Char.ofNat u]
  | u :: v :: us =>
    if isHigh u && isLow v then paired u v :: ofUnits us
    else
      (if isHigh u || isLow u then replacement else Char.ofNat u) :: ofUnits (v :: us)

end Tale.Text
