import Tale.Language.Tree
import Tale.Library.Name

/-!
# Values

What expressions evaluate to. A function made by a document keeps the code it was written as and
the cells of the names it uses from outside; a function applied to some of its arguments keeps them
until the rest arrive.
-/

namespace Tale

/-- Where a cell is kept. -/
abbrev Address := Nat

/-- The two sides of an operator, and of an argument list. -/
inductive Side
  | left
  | right
  deriving DecidableEq, Repr, Inhabited

mutual

inductive Value
  | number (x : Float)
  | boolean (b : Bool)
  | string (s : String)
  | null
  | list (elements : List Value)
  | choice (choice : Choice)
  | action (action : Action)
  | function (function : Function)

/-- An option offered to the reader. One without consequence can be seen but not taken. -/
structure Choice where
  text : String
  consequence : Option Consequence

/-- What happens when a choice is taken: an action, or a call that returns one. -/
inductive Consequence
  | act (action : Action)
  | call (function : Function) (creator : Option Location)

inductive Action
  /-- Goes to sections, one after the other. -/
  | goto (sections : List String)
  /-- Ends the story. -/
  | exit
  /-- Waits for the reader. -/
  | selection (choices : List Choice)

inductive Function
  | closure (code : FunctionExpr Nat) (captured : List (String × Address))
  | native (native : Native)
  /-- Arguments given ahead, before (left) or after (right) those of a call. -/
  | applied (side : Side) (arguments : List Value) (target : Function)

end

/-- A function as such, without arguments given ahead. -/
inductive Callee
  | closure (code : FunctionExpr Nat) (captured : List (String × Address))
  | native (native : Native)

/-- The function behind all arguments given ahead, and these arguments: those that come before the
arguments of a call, and those that come after them. -/
def Function.flatten : Function → List Value × Callee × List Value
  | .closure code captured => ([], .closure code captured, [])
  | .native n => ([], .native n, [])
  | .applied .left vs f =>
    let (before, callee, after) := f.flatten
    (before ++ vs, callee, after)
  | .applied .right vs f =>
    let (before, callee, after) := f.flatten
    (before, callee, vs ++ after)

instance : Inhabited Value := ⟨.null⟩
instance : Inhabited Choice := ⟨⟨"", none⟩⟩
instance : Inhabited Action := ⟨.exit⟩
instance : Inhabited Function := ⟨.native default⟩

namespace Value

def type : Value → ValueType
  | number _ => .number
  | boolean _ => .boolean
  | string _ => .string
  | null => .null
  | list _ => .list
  | choice _ => .choice
  | action _ => .action
  | function _ => .function

def isNull : Value → Bool
  | null => true
  | _ => false

def number? : Value → Option Float
  | number x => some x
  | _ => none

def boolean? : Value → Option Bool
  | boolean b => some b
  | _ => none

def string? : Value → Option String
  | string s => some s
  | _ => none

def list? : Value → Option (List Value)
  | list vs => some vs
  | _ => none

def function? : Value → Option Function
  | function f => some f
  | _ => none

/-- A natural number as a value. -/
def nat (n : Nat) : Value :=
  number n.toFloat

end Value

end Tale
