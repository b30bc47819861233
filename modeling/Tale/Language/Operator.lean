/-!
# Operators

The operators that stand between two operands, with how tightly each binds, and those that stand
before one. All levels associate to the left.
-/

namespace Tale

inductive BinaryOp
  | assign
  | addAssign
  | subAssign
  | mulAssign
  | divAssign
  | intDivAssign
  | remAssign
  | pipeline
  | reverseInvoke
  | or
  | nullishStrict
  | nullish
  | and
  | eq
  | notEq
  | lt
  | ltEq
  | gt
  | gtEq
  | add
  | sub
  | mul
  | div
  | intDiv
  | rem
  | pow
  | index
  | indexOrNull
  | nullableIndex
  | nullableIndexOrNull
  | invoke
  | nullableInvoke
  | partialLeft
  | partialRight
  deriving DecidableEq, Repr, Inhabited

namespace BinaryOp

def all : List BinaryOp :=
  [.assign, .addAssign, .subAssign, .mulAssign, .divAssign, .intDivAssign, .remAssign, .pipeline,
    .reverseInvoke, .or, .nullishStrict, .nullish, .and, .eq, .notEq, .lt, .ltEq, .gt, .gtEq,
    .add, .sub, .mul, .div, .intDiv, .rem, .pow, .index, .indexOrNull, .nullableIndex,
    .nullableIndexOrNull, .invoke, .nullableInvoke, .partialLeft, .partialRight]

def symbol : BinaryOp → String
  | assign => "="
  | addAssign => "+="
  | subAssign => "-="
  | mulAssign => "*="
  | divAssign => "/="
  | intDivAssign => "~/="
  | remAssign => "%="
  | pipeline => "|>"
  | reverseInvoke => "|::"
  | or => "||"
  | nullishStrict => "?!"
  | nullish => "??"
  | and => "&&"
  | eq => "=="
  | notEq => "!="
  | lt => "<"
  | ltEq => "<="
  | gt => ">"
  | gtEq => ">="
  | add => "+"
  | sub => "-"
  | mul => "*"
  | div => "/"
  | intDiv => "~/"
  | rem => "%"
  | pow => "**"
  | index => "."
  | indexOrNull => ".?"
  | nullableIndex => "?."
  | nullableIndexOrNull => "?.?"
  | invoke => "::"
  | nullableInvoke => "?::"
  | partialLeft => ".:"
  | partialRight => ":."

/-- An operator of higher precedence binds tighter. -/
def precedence : BinaryOp → Nat
  | assign | addAssign | subAssign | mulAssign | divAssign | intDivAssign | remAssign => 3
  | pipeline | reverseInvoke => 5
  | or | nullishStrict | nullish => 6
  | and => 7
  | eq | notEq => 11
  | lt | ltEq | gt | gtEq => 12
  | add | sub => 14
  | mul | div | intDiv | rem => 15
  | pow => 16
  | index | indexOrNull | nullableIndex | nullableIndexOrNull => 19
  | invoke | nullableInvoke | partialLeft | partialRight => 20

def ofSymbol? (s : String) : Option BinaryOp :=
  all.find? (·.symbol = s)

end BinaryOp

inductive UnaryOp
  | negate
  | not
  deriving DecidableEq, Repr, Inhabited

namespace UnaryOp

def symbol : UnaryOp → String
  | negate => "-"
  | not => "!"

def ofSymbol? (s : String) : Option UnaryOp :=
  [negate, not].find? (·.symbol = s)

end UnaryOp

/-- Precedences of what is no binary operator. -/
def conditionalPrecedence : Nat := 4

def unaryPrecedence : Nat := 17

/-- Whether a text is an operator, alone or as a part of a larger form. -/
def isOperator (s : String) : Bool :=
  ["?", ":", "..."].contains s || (UnaryOp.ofSymbol? s).isSome || (BinaryOp.ofSymbol? s).isSome

end Tale
