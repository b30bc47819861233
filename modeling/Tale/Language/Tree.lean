import Tale.Document.Bounds
import Tale.Document.Reference
import Tale.Language.Location
import Tale.Language.Operator
import Tale.Language.ValueType

/-!
# The tree of a story

What a document says, with the places where it says it. A document read without a source map has
no places.

Function expressions carry a label. A tree as it was read has none (`Expr Unit`); before a story is
told its functions are numbered (`Expr Nat`), because two functions are the same only if they come
from the same expression.
-/

namespace Tale

mutual

structure Expr (ι : Type) where
  shape : Shape ι
  location : Option Location

inductive Shape (ι : Type)
  | number (value : Float)
  | boolean (value : Bool)
  | string (value : String)
  | null
  | binary (op : BinaryOp) (left right : Expr ι)
  | unary (op : UnaryOp) (operand : Expr ι)
  | conditional (condition yes no : Expr ι)
  | goto (sections : List String)
  | exit
  | selection (choices : Expr ι)
  | choice (text action : Expr ι)
  | block (statements : List (Statement ι))
  | reference (name : String)
  | function (function : FunctionExpr ι)
  | list (elements : List (Element ι))
  | switch (subject : Expr ι) (cases : List (SwitchCase ι)) (fallback : Option (Expr ι))
  | loop (before : Option (Expr ι)) (condition : Expr ι) (after : Option (Expr ι))
  | cond (condition yes : Expr ι) (no : Option (Expr ι))
  | tag (name : String)

structure FunctionExpr (ι : Type) where
  label : ι
  parameters : List (Parameter ι)
  /-- The parameter that takes all further arguments as a list. -/
  restName : Option String
  /-- The names from outside that the function uses, in the order of their first use. -/
  captures : List String
  body : Expr ι

structure Parameter (ι : Type) where
  name : String
  bound : TypeBound
  fallback : Option (Expr ι)
  location : Option Location

/-- A member of a list expression: one value, or all values of another list. -/
inductive Element (ι : Type)
  | item (expr : Expr ι)
  | spread (expr : Expr ι) (location : Option Location)

structure SwitchCase (ι : Type) where
  pattern : Expr ι
  result : Expr ι

structure Statement (ι : Type) where
  shape : StatementShape ι
  location : Option Location

inductive StatementShape (ι : Type)
  | declare (declarations : List (Declaration ι))
  | expression (expr : Expr ι)
  /-- Sets a register and leaves what it belongs to. -/
  | leave (register : Register) (value : Expr ι)
  /-- Only sets a register. -/
  | set (register : Register) (value : Expr ι)
  | continue

structure Declaration (ι : Type) where
  name : String
  bound : TypeBound
  initial : Option (Expr ι)
  location : Option Location

end

instance {ι : Type} : Inhabited (Expr ι) := ⟨⟨.null, none⟩⟩

/-- One variant of the contents of a section. -/
structure Content where
  html : String
  placeholders : List Document.Placeholder
  bounds : Bounds
  deriving DecidableEq, Repr, Inhabited

structure Section (ι : Type) where
  name : String
  /-- What is done on entering the section, before its contents are shown. -/
  executes : Option (Expr ι)
  /-- What comes next. -/
  next : Expr ι
  contents : List Content
  location : Option Location

structure Story (ι : Type) where
  version : Version
  init : List (Statement ι)
  sections : List (Section ι)

/-- The first section of a name. -/
def Story.section? {ι : Type} (s : Story ι) (name : String) : Option (Section ι) :=
  s.sections.find? (·.name = name)

end Tale
