import Tale.Decimal.Binary

/-!
# JSON values

Whole numbers and other numbers are kept apart, as their spelling does. An object keeps its
members in the order they were written in, repetitions included.
-/

namespace Tale

inductive Json
  | null
  | bool (b : Bool)
  | int (n : Int)
  | float (x : Float)
  | str (s : String)
  | arr (elements : List Json)
  | obj (members : List (String × Json))
  deriving Inhabited

namespace Json

def nat (n : Nat) : Json :=
  .int n

/-- A number, or `null` for a double that is none. -/
def number (x : Float) : Json :=
  match Decimal.magnitude x with
  | .finite _ => .float x
  | _ => .null

def strings (ss : List String) : Json :=
  .arr (ss.map .str)

/-- `null` where there is nothing. -/
def option {α : Type} (f : α → Json) : Option α → Json
  | some a => f a
  | none => .null

/-- The members of a record of which those without a value are left out. -/
def present (members : List (String × Option Json)) : Json :=
  .obj (members.filterMap fun (k, v) => v.map (k, ·))

/-- The last member of a name counts. -/
def member? (name : String) (members : List (String × Json)) : Option Json :=
  members.foldl (fun found (k, v) => if k = name then some v else found) none

/-- How often a name is written. -/
def occurrences (name : String) (members : List (String × Json)) : Nat :=
  members.countP fun m => m.1 = name

mutual

/-- How deep a value is nested. -/
def depth : Json → Nat
  | .arr xs => depthElements xs + 1
  | .obj ms => depthMembers ms + 1
  | _ => 1

def depthElements : List Json → Nat
  | [] => 0
  | x :: xs => max (depth x) (depthElements xs)

def depthMembers : List (String × Json) → Nat
  | [] => 0
  | (_, x) :: ms => max (depth x) (depthMembers ms)

end

def str? : Json → Option String
  | .str s => some s
  | _ => none

def bool? : Json → Option Bool
  | .bool b => some b
  | _ => none

/-- A whole number from 0 up to, but not including, `limit`. -/
def natBelow? (limit : Nat) : Json → Option Nat
  | .int (.ofNat n) => if n < limit then some n else none
  | _ => none

/-- Any number, as the double nearest to it. -/
def float? : Json → Option Float
  | .float x => some x
  | .int (.ofNat n) => some (Decimal.nearest n 1)
  | .int (.negSucc n) => some (-Decimal.nearest (n + 1) 1)
  | _ => none

def arr? : Json → Option (List Json)
  | .arr xs => some xs
  | _ => none

def obj? : Json → Option (List (String × Json))
  | .obj ms => some ms
  | _ => none

def strings? (j : Json) : Option (List String) :=
  j.arr?.bind fun xs => xs.mapM str?

/-- What may be missing or `null`; anything else has to decode. -/
def optional? {α : Type} (decode : Json → Option α) : Option Json → Option (Option α)
  | none => some none
  | some .null => some none
  | some j => (decode j).map some

end Json

end Tale
