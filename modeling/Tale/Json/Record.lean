import Tale.Json.Basic
import Tale.Text.Numeral

/-!
# Records in JSON

A record is an object, whose members may stand in any order and among others that are passed over,
or an array of its members in the order they are declared in.
-/

namespace Tale.Json

/-- The members of a record. An array gives them in order, the first `required` of them at
least. -/
def record? (names : List String) (required : Nat) : Json → Option (List (String × Json))
  | .obj ms => some ms
  | .arr xs =>
    if required ≤ xs.length ∧ xs.length ≤ names.length then some (names.zip xs) else none
  | _ => none

/-- Whether no name is written twice. -/
def distinct (names : List String) (ms : List (String × Json)) : Bool :=
  names.all fun n => occurrences n ms ≤ 1

/-- The members of a record that names none of them twice. -/
def strictRecord? (names : List String) (required : Nat) (j : Json) :
    Option (List (String × Json)) := do
  let ms ← record? names required j
  if distinct names ms then some ms else none

/-- A value that says of which kind it is, and what else it says. An array says it first. -/
def tagged? (tag : String) : Json → Option (String × Json)
  | .obj ms => do
    let kind ← (member? tag ms).bind str?
    if occurrences tag ms = 1 then some (kind, .obj (ms.filter (·.1 ≠ tag))) else none
  | .arr (.str kind :: xs) => some (kind, .arr xs)
  | _ => none

/-- A member that has to be there. -/
def needed? {α : Type} (decode : Json → Option α) (name : String) (ms : List (String × Json)) :
    Option α :=
  (member? name ms).bind decode

/-- A member that may be missing or `null`. -/
def possible? {α : Type} (decode : Json → Option α) (name : String) (ms : List (String × Json)) :
    Option (Option α) :=
  optional? decode (member? name ms)

/-- A member that stands for `fallback` where it is missing. -/
def given? {α : Type} (decode : Json → Option α) (fallback : α) (name : String)
    (ms : List (String × Json)) : Option α :=
  match member? name ms with
  | none => some fallback
  | some j => decode j

def list? {α : Type} (decode : Json → Option α) (j : Json) : Option (List α) :=
  j.arr?.bind fun xs => xs.mapM decode

/-- A number that fits a word of the machine. -/
def size? (j : Json) : Option Nat :=
  j.natBelow? Text.word64

end Tale.Json
