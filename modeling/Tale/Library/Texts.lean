import Tale.Decimal.Layout
import Tale.Decimal.Whole
import Tale.Library.Arguments
import Tale.Text.Units

/-!
# Functions on texts

Lengths and positions count UTF-16 code units.
-/

namespace Tale.Library.Texts

open Arguments
open Tale.Text (units ofUnits pieces unitLength)

def length (args : List Value) : Except Refusal Value := do
  count args 1 (some 1)
  return .nat (unitLength (← string args 0).toList)

/-- A number of digits from `least` to 100. -/
def digits (least : Nat) (x : Float) : Except Refusal Nat :=
  match Decimal.whole? x with
  | some n => if n < least || 100 < n then .error (.digits least x) else .ok n.toNat
  | none => .error (.digits least x)

def formatFixed (args : List Value) : Except Refusal Value := do
  count args 1 (some 2)
  let x ← number args 0
  let places ← digits 0 (← number args 1 (some 0))
  return .string (String.ofList (Decimal.fixed x places))

def formatPrecision (args : List Value) : Except Refusal Value := do
  count args 2 (some 2)
  let x ← number args 0
  let precision ← digits 1 (← number args 1)
  return .string (String.ofList (Decimal.precise x precision))

/-- The pieces of a text between separators; without a separator, its code units. -/
def split (args : List Value) : Except Refusal Value := do
  count args 2 (some 2)
  let text ← string args 0
  let separator ← string args 1
  let parts :=
    if separator.isEmpty then (units text.toList).map fun u => ofUnits [u]
    else pieces separator.toList text.toList
  return .list (parts.map fun cs => .string (String.ofList cs))

/-- Where a part of a text begins; it may be the end of the text. -/
def startIndex (start : Float) (length : Nat) : Except Refusal Nat :=
  match Decimal.whole? start with
  | none => .error (.textStart start)
  | some i =>
    if i < 0 then .error (.textStart start)
    else if length < i then .error (.textStartBeyond start length)
    else .ok i.toNat

/-- The text of the code units from `start` up to `stop`. -/
def between (us : List Nat) (start stop : Nat) : Value :=
  .string (String.ofList (ofUnits ((us.take stop).drop start)))

def subByLength (args : List Value) : Except Refusal Value := do
  count args 2 (some 3)
  let us := units (← string args 0).toList
  let start ← number args 1
  let length ← number args 2 (some (us.length.toFloat - start))
  let start ← startIndex start us.length
  match Decimal.whole? length with
  | none => throw (.textLength length)
  | some n =>
    if n < 0 then throw (.textLength length)
    if us.length < start + n then throw (.textLengthBeyond start length us.length)
    return between us start (start + n.toNat)

def subByIndex (args : List Value) : Except Refusal Value := do
  count args 2 (some 3)
  let us := units (← string args 0).toList
  let start ← number args 1
  let stop ← number args 2 (some us.length.toFloat)
  let start ← startIndex start us.length
  match Decimal.whole? stop with
  | none => throw (.textEnd stop)
  | some n =>
    if n < 0 then throw (.textEnd stop)
    if n < start || us.length < n then throw (.textEndBeyond start stop us.length)
    return between us start n.toNat

end Tale.Library.Texts
