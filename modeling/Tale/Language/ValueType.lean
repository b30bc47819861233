/-!
# Types of values

Every value has one of eight types. A variable may be bound to some of them; one that is bound to
none takes any value.
-/

namespace Tale

inductive ValueType
  | number
  | boolean
  | string
  | null
  | list
  | choice
  | action
  | function
  deriving DecidableEq, Repr, Inhabited

namespace ValueType

def all : List ValueType :=
  [.number, .boolean, .string, .null, .list, .choice, .action, .function]

def name : ValueType → String
  | number => "number"
  | boolean => "boolean"
  | string => "string"
  | null => "null"
  | list => "list"
  | choice => "choice"
  | action => "action"
  | function => "function"

def ofName? (s : String) : Option ValueType :=
  all.find? (·.name = s)

end ValueType

/-- The types a variable takes, or none for any. -/
abbrev TypeBound := Option (List ValueType)

namespace TypeBound

def accepts : TypeBound → ValueType → Bool
  | none, _ => true
  | some types, t => types.contains t

def describe : TypeBound → String
  | none => "any"
  | some types => " ".intercalate (types.map ValueType.name)

end TypeBound

/-- Where a block, a function or a loop keeps the value it will have. -/
inductive Register
  | yield
  | return
  | break
  deriving DecidableEq, Repr, Inhabited

namespace Register

def all : List Register :=
  [.yield, .return, .break]

def name : Register → String
  | .yield => "yield"
  | .return => "return"
  | .break => "break"

def ofName? (s : String) : Option Register :=
  all.find? (·.name = s)

end Register

/-- The version of the language that a document is written in. -/
structure Version where
  major : Nat
  minor : Nat
  deriving DecidableEq, Repr

/-- The version meant where none is written. -/
def Version.current : Version := ⟨1, 3⟩

instance : Inhabited Version := ⟨Version.current⟩

end Tale
