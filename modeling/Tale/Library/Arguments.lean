import Tale.Fault

/-!
# Arguments of library functions

A function of the library first checks how many arguments it got, and then takes them one by one.
A missing argument counts as null, and a default value stands in for null.
-/

namespace Tale.Arguments

/-- Refuses fewer than `least` and more than `most` arguments. -/
def count (args : List Value) (least : Nat) (most : Option Nat) : Except Refusal Unit := do
  if args.length < least then throw (.tooFew least args.length)
  if most.any (· < args.length) then throw (.tooMany (most.getD 0) args.length)

/-- The argument of an index, of which `extract` takes values of one type. -/
def take {α : Type} (type : ValueType) (extract : Value → Option α) (args : List Value) (i : Nat)
    (fallback : Option α) : Except Refusal α :=
  match args.getD i .null, fallback with
  | .null, some a => .ok a
  | v, _ =>
    match extract v with
    | some a => .ok a
    | none => .error (.argument i type v)

def number (args : List Value) (i : Nat) (fallback : Option Float := none) :
    Except Refusal Float :=
  take .number Value.number? args i fallback

def boolean (args : List Value) (i : Nat) : Except Refusal Bool :=
  take .boolean Value.boolean? args i none

def string (args : List Value) (i : Nat) (fallback : Option String := none) :
    Except Refusal String :=
  take .string Value.string? args i fallback

def list (args : List Value) (i : Nat) (fallback : Option (List Value) := none) :
    Except Refusal (List Value) :=
  take .list Value.list? args i fallback

def function (args : List Value) (i : Nat) : Except Refusal Function :=
  take .function Value.function? args i none

/-- Every argument, taken in order. -/
def each {α : Type} (take : (i : Nat) → Except Refusal α) (args : List Value) :
    Except Refusal (List α) :=
  (List.range args.length).mapM take

end Tale.Arguments
