import Tale.Language.Parser.Basic
import Tale.Decimal.Binary
import Tale.Language.Tree

/-!
# Expressions and statements

The grammar of the language. `Grammar.operand n min max` reads an expression whose operators bind
tighter than `min`, and `n` bounds how deep expressions are nested in it; `max` only keeps a
conditional from being the last operand of another one. All other rules get the reader of the
expressions one level down as an argument, and call nothing else that calls them.

Each rule takes a token before it goes one level down, so a document never needs more levels, nor
a row of items more turns, than it has tokens.
-/

namespace Tale

/-- A reader of expressions between two precedences. -/
abbrev Operand := (min max : Nat) → Parser (Expr Unit)

namespace Grammar

open Tale.Parser

/-- No bound from above. -/
def unbounded : Nat := 255

variable (sub : Operand) (turns : Nat)

/-- An expression of any kind. -/
def expression : Parser (Expr Unit) :=
  sub 0 unbounded

/-- The words that name types. A selection is an action. -/
def typeOf? (t : Token) : Option ValueType :=
  if t.kind ≠ .keyword then none
  else if t.content = "selection" then some .action
  else ValueType.ofName? t.content

/-- The types in front of a name; none mean any. -/
def typeBound : Parser TypeBound := do
  let item : Parser (Option ValueType) := do return typeOf? (← next)
  let types ← repeatWhile (do return (← peek?).any (typeOf? · |>.isSome)) item turns
  let types := types.filterMap fun t => t
  return if types.isEmpty then none else some types

def sectionName : Parser String := do
  let t ← take .identifier
  modify fun r => { r with targets := t :: r.targets }
  return t.content

/-- One target, or any number of them in brackets. -/
def gotoTargets : Parser (List String) := do
  if ← accept .punctuation "[" then
    let names ← upTo "]" sectionName turns
    let _ ← next
    return names
  else return [← sectionName]

def element : Parser (Element Unit) := do
  if ← sees .operator "..." then
    let t ← next
    return .spread (← expression sub) (← located t)
  else return .item (← expression sub)

def list : Parser (Expr Unit) := do
  let bracket ← expect .punctuation "["
  let elements ← upTo "]" (element sub) turns
  let _ ← expect .punctuation "]"
  return ⟨.list elements, ← located bracket⟩

/-- Pairs of what is compared and what comes of it; an expression without partner at the end is
for all other cases. -/
def switchCases (turns : Nat) : Parser (List (SwitchCase Unit) × Option (Expr Unit)) := do
  if ← seesClose then return ([], none)
  match turns with
  | 0 => exhausted
  | n + 1 =>
    let pattern ← expression sub
    if ← seesClose then return ([], some pattern)
    let result ← expression sub
    let (cases, fallback) ← switchCases n
    return (⟨pattern, result⟩ :: cases, fallback)

def switchOn (subject : Expr Unit) (location : Option Location) : Parser (Expr Unit) := do
  let _ ← expect .punctuation "["
  let (cases, fallback) ← switchCases sub turns
  let _ ← expect .punctuation "]"
  return ⟨.switch subject cases fallback, location⟩

/-- Parameters up to the closing bracket, or up to the one that takes the rest. -/
def parameters (turns : Nat) (used : List String) :
    Parser (List (Parameter Unit) × Option String) := do
  if ← seesClose then return ([], none)
  if ← accept .operator "..." then
    let t ← take .identifier
    if used.contains t.content then failAt t (.parameterRepeated t.content)
    return ([], some t.content)
  match turns with
  | 0 => exhausted
  | n + 1 =>
    let bound ← typeBound n
    let t ← take .identifier
    if used.contains t.content then failAt t (.parameterRepeated t.content)
    let fallback ← if ← accept .operator "=" then some <$> expression sub else pure none
    let parameter := ⟨t.content, bound, fallback, ← located t⟩
    let (ps, rest) ← parameters n (t.content :: used)
    return (parameter :: ps, rest)

/-- The name of the only parameter of a function that is written as a switch. -/
def switchName : String := "$switch"

/-- What a function is made of, its captures apart. The parameters can be used in its body, but
not in each other's defaults. -/
def functionParts (full : Bool) :
    Parser (List (Parameter Unit) × Option String × Expr Unit) := do
  if !full && !(← sees .punctuation "[") then return ([], none, ← expression sub)
  if ← sees .keyword "switch" then
    let location ← located (← next)
    let body ← switchOn sub turns ⟨.reference switchName, location⟩ location
    modifyScopes (·.declare switchName)
    return ([⟨switchName, none, none, location⟩], none, body)
  let _ ← expect .punctuation "["
  let (ps, rest) ← parameters sub turns []
  let _ ← expect .punctuation "]"
  modifyScopes (·.declareAll (ps.map (·.name) ++ rest.toList))
  return (ps, rest, ← expression sub)

/-- A function after the word or sign that announces it. A full one has parameters; any other may
have none. -/
def function (full : Bool) : Parser (FunctionExpr Unit) := do
  let ((ps, rest, body), captures) ← inFunction (functionParts sub turns full)
  return ⟨(), ps, rest, captures, body⟩

def declaration : Parser (Declaration Unit) := do
  let bound ← typeBound turns
  let t ← take .identifier
  let short ← pure (bound == some [.function])
    <&&> (sees .punctuation "[" <||> sees .keyword "switch")
  let location ← located t
  let initial ←
    if ← accept .operator "=" then some <$> expression sub
    else if short then do
      let f ← function sub turns true
      pure (some ⟨.function f, location⟩)
    else pure none
  if (← get).scopes.declaresHere t.content then failAt t (.variableRepeated t.content)
  modifyScopes (·.declare t.content)
  return ⟨t.content, bound, initial, location⟩

/-- One declaration, or several in brackets. -/
def declarations : Parser (Statement Unit) := do
  let word ← expect .keyword "declare"
  let ds ←
    if ← accept .punctuation "[" then do
      let ds ← upTo "]" (declaration sub turns) turns
      if ds.isEmpty then unexpected "at least one element"
      let _ ← next
      pure ds
    else pure [← declaration sub turns]
  return ⟨.declare ds, ← located word⟩

/-- What an operator does to the expression on its left. -/
inductive Binding
  | binary (op : BinaryOp)
  | conditional

/-- The operator that comes next, if it binds between the precedences. -/
def binding? (min max : Nat) : Parser (Option Binding) := do
  match ← peek? with
  | none => return none
  | some t =>
    if t.kind ≠ .operator then return none
    match BinaryOp.ofSymbol? t.content with
    | some op => return if min < op.precedence then some (.binary op) else none
    | none =>
      if t.content = "?" ∧ min < conditionalPrecedence ∧ conditionalPrecedence ≤ max then
        return some .conditional
      else return none

/-- The operators after an expression, one after the other. -/
def climb (turns : Nat) (left : Expr Unit) (min max : Nat) : Parser (Expr Unit) := do
  match ← binding? min max with
  | none => return left
  | some b =>
    match turns with
    | 0 => exhausted
    | n + 1 =>
      let location ← located (← next)
      match b with
      | .binary op =>
        let right ← sub op.precedence max
        climb n ⟨.binary op left right, location⟩ min max
      | .conditional =>
        let yes ← expression sub
        let _ ← expect .operator ":"
        let no ← sub min conditionalPrecedence
        climb n ⟨.conditional left yes no, location⟩ min max

/-- The loops: first something done before the condition is asked, or the condition itself, and
then what is done after it. -/
def loop (location : Option Location) : Parser (Expr Unit) :=
  inScope .break do
    let before ← if ← accept .keyword "do" then some <$> expression sub else pure none
    let _ ← expect .keyword "while"
    let condition ← expression sub
    let after ←
      if before.isNone then some <$> expression sub
      else do if ← accept .keyword "then" then some <$> expression sub else pure none
    return ⟨.loop before condition after, location⟩

/-- The value that digits with at most one dot write. -/
def numberValue (s : String) : Float :=
  let cs := s.toList
  let digits := cs.filter Text.isDigit
  let places := (cs.dropWhile (· ≠ '.')).length - 1
  Decimal.nearestScaled (Text.digitsValue digits) (-(places : Int))

/-- Whether an expression can begin with a token. -/
def begins (t : Token) : Bool :=
  match t.kind with
  | .keyword =>
    ["true", "false", "null", "exit", "selection", "choice", "goto", "function", "switch", "while",
      "do", "if"].contains t.content
  | .punctuation => ["(", "[", "$", "\x7b"].contains t.content
  | _ => true

/-- A statement that sets a register. Without `=` it also leaves, and its value may be missing. -/
def registerStatement (register : Register) : Parser (Statement Unit) := do
  let word ← expect .keyword register.name
  if !(← get).scopes.hasRegister register then failAt word (.registerUnknown register)
  let location ← located word
  if ← accept .operator "=" then return ⟨.set register (← expression sub), location⟩
  if (← peek?).any begins then return ⟨.leave register (← expression sub), location⟩
  return ⟨.leave register ⟨.null, location⟩, location⟩

def statement : Parser (Statement Unit) := do
  match ← peek? with
  | none => return ⟨.expression (← expression sub), none⟩
  | some t =>
    if t.kind ≠ .keyword then return ⟨.expression (← expression sub), ← located t⟩
    match t.content with
    | "declare" => declarations sub turns
    | "return" => registerStatement sub .return
    | "yield" => registerStatement sub .yield
    | "break" => registerStatement sub .break
    | "continue" => return ⟨.continue, ← located (← next)⟩
    | _ => return ⟨.expression (← expression sub), ← located t⟩

def block (location : Option Location) : Parser (Expr Unit) := do
  let _ ← expect .punctuation "\x7b"
  let statements ← inScope .yield (upTo "\x7d" (statement sub turns) turns)
  let _ ← expect .punctuation "\x7d"
  return ⟨.block statements, location⟩

/-- An expression that begins with a keyword. -/
def keywordAtom (word : String) (location : Option Location) : Parser (Expr Unit) := do
  match word with
  | "true" => let _ ← next; return ⟨.boolean true, location⟩
  | "false" => let _ ← next; return ⟨.boolean false, location⟩
  | "null" => let _ ← next; return ⟨.null, location⟩
  | "exit" => let _ ← next; return ⟨.exit, location⟩
  | "selection" =>
    let _ ← next
    return ⟨.selection (← expression sub), location⟩
  | "choice" =>
    let _ ← next
    let text ← expression sub
    return ⟨.choice text (← expression sub), location⟩
  | "goto" =>
    let _ ← next
    return ⟨.goto (← gotoTargets turns), location⟩
  | "function" =>
    let _ ← next
    return ⟨.function (← function sub turns true), location⟩
  | "switch" =>
    let _ ← next
    switchOn sub turns (← expression sub) location
  | "while" => loop sub location
  | "do" => loop sub location
  | "if" =>
    let _ ← next
    let condition ← expression sub
    let yes ← expression sub
    let no ← if ← accept .keyword "else" then some <$> expression sub else pure none
    return ⟨.cond condition yes no, location⟩
  | _ => unexpected "atom"

/-- An expression that begins with a punctuation mark. -/
def punctuationAtom (mark : String) (location : Option Location) : Parser (Expr Unit) := do
  match mark with
  | "(" =>
    let _ ← next
    let e ← expression sub
    let _ ← expect .punctuation ")"
    return e
  | "[" => list sub turns
  | "$" =>
    let _ ← next
    return ⟨.function (← function sub turns false), location⟩
  | "\x7b" => block sub turns location
  | _ => unexpected "atom"

/-- An expression without operators around it. -/
def atom : Parser (Expr Unit) := do
  match ← peek? with
  | none => unexpected "atom"
  | some t =>
    let location ← located t
    match t.kind with
    | .number => let _ ← next; return ⟨.number (numberValue t.content), location⟩
    | .string => let _ ← next; return ⟨.string t.content, location⟩
    | .tag => let _ ← next; return ⟨.tag t.content, location⟩
    | .identifier =>
      let _ ← next
      if !(← resolve t.content) then failAt t (.variableUnknown t.content)
      return ⟨.reference t.content, location⟩
    | .operator =>
      let _ ← next
      match UnaryOp.ofSymbol? t.content with
      | none => failAt t (.unaryOperator t.content)
      | some op => return ⟨.unary op (← sub unaryPrecedence unbounded), location⟩
    | .keyword => keywordAtom sub turns t.content location
    | .punctuation => punctuationAtom sub turns t.content location

/-- An expression whose operators bind tighter than `min`, nested at most `n` deep. -/
def operand : (n : Nat) → Operand
  | 0, _, _ => exhausted
  | n + 1, min, max => do
    climb (operand n) n (← atom (operand n) n) min max

end Grammar

end Tale
