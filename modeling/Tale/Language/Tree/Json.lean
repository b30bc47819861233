import Tale.Decimal.Binary
import Tale.Json.Record
import Tale.Language.Tree

/-!
# Story trees as JSON

Each node is an object whose member `type` names its kind. A place is left out where there is
none, and any other missing part is `null`. A number that is not finite has no JSON form and is
written `null`, so a tree that holds one cannot be read back.

A reader is as deep as the value it reads. It passes over members that it does not know, takes a
record also as the array of its members, and a tag also as its number.
-/

namespace Tale

open Json (option)

def Location.toJson (l : Location) : Json :=
  .obj [("line", .nat l.line), ("column", .nat l.column)]

/-- The place as a member, if there is one. -/
def locationMember : Option Location → List (String × Json)
  | none => []
  | some l => [("location", l.toJson)]

def TypeBound.toJson (b : TypeBound) : Json :=
  option (fun ts => .strings (ts.map ValueType.name)) b

mutual

def Expr.toJson : Expr Unit → Json
  | ⟨shape, location⟩ => .obj (Shape.members shape ++ locationMember location)

def Shape.members : Shape Unit → List (String × Json)
  | .number x => [("type", .str "numberLiteral"), ("value", .number x)]
  | .boolean b => [("type", .str "booleanLiteral"), ("value", .bool b)]
  | .string s => [("type", .str "stringLiteral"), ("value", .str s)]
  | .null => [("type", .str "nullLiteral")]
  | .binary op l r =>
    [("type", .str "binaryExpression"), ("operator", .str op.symbol), ("arg0", Expr.toJson l),
      ("arg1", Expr.toJson r)]
  | .unary op e =>
    [("type", .str "unaryExpression"), ("operator", .str op.symbol), ("arg", Expr.toJson e)]
  | .conditional c y o =>
    [("type", .str "conditionalExpression"), ("condition", Expr.toJson c), ("then", Expr.toJson y),
      ("otherwise", Expr.toJson o)]
  | .goto sections => [("type", .str "gotoAction"), ("sections", .strings sections)]
  | .exit => [("type", .str "exitAction")]
  | .selection e => [("type", .str "selection"), ("choices", Expr.toJson e)]
  | .choice t a =>
    [("type", .str "choiceExpression"), ("text", Expr.toJson t), ("action", Expr.toJson a)]
  | .block ss => [("type", .str "block"), ("statements", .arr (statementsJson ss))]
  | .reference name => [("type", .str "variableReference"), ("variableName", .str name)]
  | .function ⟨_, ps, restName, captures, body⟩ =>
    [("type", .str "function"), ("arguments", .arr (parametersJson ps)),
      ("restArgName", option .str restName), ("captures", .strings captures),
      ("expression", Expr.toJson body)]
  | .list es => [("type", .str "list"), ("elements", .arr (elementsJson es))]
  | .switch e cs d =>
    [("type", .str "switch"), ("expression", Expr.toJson e), ("cases", .arr (casesJson cs)),
      ("defaultCase", optionJson d)]
  | .loop b c a =>
    [("type", .str "while"), ("preExpr", optionJson b), ("condition", Expr.toJson c),
      ("postExpr", optionJson a)]
  | .cond c y o =>
    [("type", .str "if"), ("condition", Expr.toJson c), ("then", Expr.toJson y),
      ("otherwise", optionJson o)]
  | .tag name => [("type", .str "tag"), ("name", .str name)]

def optionJson : Option (Expr Unit) → Json
  | none => .null
  | some e => Expr.toJson e

def parametersJson : List (Parameter Unit) → List Json
  | [] => []
  | ⟨name, bound, fallback, location⟩ :: ps =>
    .obj ([("name", .str name), ("type", bound.toJson), ("defaultValue", optionJson fallback)]
      ++ locationMember location) :: parametersJson ps

def elementsJson : List (Element Unit) → List Json
  | [] => []
  | .item e :: es =>
    .obj [("kind", .str "item"), ("expression", Expr.toJson e)] :: elementsJson es
  | .spread e location :: es =>
    .obj ([("kind", .str "spread"), ("expression", Expr.toJson e)] ++ locationMember location)
      :: elementsJson es

def casesJson : List (SwitchCase Unit) → List Json
  | [] => []
  | ⟨p, r⟩ :: cs => .obj [("matches", Expr.toJson p), ("returns", Expr.toJson r)] :: casesJson cs

def statementsJson : List (Statement Unit) → List Json
  | [] => []
  | ⟨shape, location⟩ :: ss =>
    .obj (StatementShape.members shape ++ locationMember location) :: statementsJson ss

def StatementShape.members : StatementShape Unit → List (String × Json)
  | .declare ds => [("type", .str "declaration"), ("declarations", .arr (declarationsJson ds))]
  | .expression e => [("type", .str "expression"), ("expression", Expr.toJson e)]
  | .leave .yield e => [("type", .str "yield"), ("value", Expr.toJson e)]
  | .leave .return e => [("type", .str "return"), ("value", Expr.toJson e)]
  | .leave .break e => [("type", .str "break"), ("value", Expr.toJson e)]
  | .set .yield e => [("type", .str "setYield"), ("value", Expr.toJson e)]
  | .set .return e => [("type", .str "setReturn"), ("value", Expr.toJson e)]
  | .set .break e => [("type", .str "setBreak"), ("value", Expr.toJson e)]
  | .continue => [("type", .str "continue")]

def declarationsJson : List (Declaration Unit) → List Json
  | [] => []
  | ⟨name, bound, initial, location⟩ :: ds =>
    .obj ([("variableName", .str name), ("variableType", bound.toJson),
      ("initialValue", optionJson initial)] ++ locationMember location) :: declarationsJson ds

end

def Content.toJson (c : Content) : Json :=
  .obj [("html", .str c.html),
    ("variables", .arr (c.placeholders.map fun p =>
      .obj [("elementClass", .str p.elementClass), ("variableName", .str p.variableName)])),
    ("lowerBound", option .nat c.bounds.lower), ("upperBound", option .nat c.bounds.upper)]

def Section.toJson (s : Section Unit) : Json :=
  .obj ([("name", .str s.name), ("executes", optionJson s.executes), ("then", s.next.toJson),
    ("content", .arr (s.contents.map Content.toJson))] ++ locationMember s.location)

def Story.toJson (s : Story Unit) : Json :=
  .obj [("version", .obj [("major", .nat s.version.major), ("minor", .nat s.version.minor)]),
    ("initStatements", .arr (statementsJson s.init)),
    ("sections", .arr (s.sections.map Section.toJson))]

namespace Tree

open Json (record? needed? possible? list? size?)

/-- The name of one of several kinds, or its number among them. -/
def tag? (names : List String) : Json → Option String
  | .str s => if names.contains s then some s else none
  | .int (.ofNat n) => names[n]?
  | _ => none

/-- A name that stands alone, or as the only member of an object that says nothing more. -/
def word? : Json → Option String
  | .str s => some s
  | .obj [(s, .null)] => some s
  | .obj [(s, .obj [])] => some s
  | _ => none

def location? (j : Json) : Option Location := do
  let ms ← record? ["line", "column"] 2 j
  return ⟨← needed? size? "line" ms, ← needed? size? "column" ms⟩

def bound? (j : Json) : Option (List ValueType) :=
  list? (fun t => (word? t).bind ValueType.ofName?) j

def version? (j : Json) : Option Version := do
  let ms ← record? ["major", "minor"] 2 j
  let word (j : Json) := j.natBelow? Text.word32
  return ⟨← needed? word "major" ms, ← needed? word "minor" ms⟩

def exprTags : List String :=
  ["numberLiteral", "booleanLiteral", "stringLiteral", "nullLiteral", "binaryExpression",
    "unaryExpression", "conditionalExpression", "gotoAction", "exitAction", "selection",
    "choiceExpression", "block", "variableReference", "function", "list", "switch", "while", "if",
    "tag"]

def statementTags : List String :=
  ["declaration", "expression", "yield", "setYield", "return", "setReturn", "break", "setBreak",
    "continue"]

section

/-! Readers of everything around an expression, given the reader of the expressions inside. -/

variable (expr? : Json → Option (Expr Unit))

def parameter? (j : Json) : Option (Parameter Unit) := do
  let ms ← record? ["name", "type", "defaultValue", "location"] 3 j
  return ⟨← needed? Json.str? "name" ms, ← possible? bound? "type" ms,
    ← possible? expr? "defaultValue" ms, ← possible? location? "location" ms⟩

def element? (j : Json) : Option (Element Unit) := do
  let ms ← match j with
    | .arr (.str "item" :: xs) => record? ["kind", "expression"] 2 (.arr (.str "item" :: xs))
    | j => record? ["kind", "expression", "location"] 2 j
  match ← needed? (tag? ["item", "spread"]) "kind" ms with
  | "item" => return .item (← needed? expr? "expression" ms)
  | _ => return .spread (← needed? expr? "expression" ms) (← possible? location? "location" ms)

def case? (j : Json) : Option (SwitchCase Unit) := do
  let ms ← record? ["matches", "returns"] 2 j
  return ⟨← needed? expr? "matches" ms, ← needed? expr? "returns" ms⟩

def declaration? (j : Json) : Option (Declaration Unit) := do
  let ms ← record? ["variableName", "variableType", "initialValue", "location"] 3 j
  return ⟨← needed? Json.str? "variableName" ms, ← possible? bound? "variableType" ms,
    ← possible? expr? "initialValue" ms, ← possible? location? "location" ms⟩

def statementShape? (ms : List (String × Json)) : Option (StatementShape Unit) := do
  match ← needed? (tag? statementTags) "type" ms with
  | "declaration" => return .declare (← needed? (list? (declaration? expr?)) "declarations" ms)
  | "expression" => return .expression (← needed? expr? "expression" ms)
  | "yield" => return .leave .yield (← needed? expr? "value" ms)
  | "setYield" => return .set .yield (← needed? expr? "value" ms)
  | "return" => return .leave .return (← needed? expr? "value" ms)
  | "setReturn" => return .set .return (← needed? expr? "value" ms)
  | "break" => return .leave .break (← needed? expr? "value" ms)
  | "setBreak" => return .set .break (← needed? expr? "value" ms)
  | _ => return .continue

def statement? (j : Json) : Option (Statement Unit) := do
  let ms ← j.obj?
  return ⟨← statementShape? expr? ms, ← possible? location? "location" ms⟩

def shape? (ms : List (String × Json)) : Option (Shape Unit) := do
  match ← needed? (tag? exprTags) "type" ms with
  | "numberLiteral" => return .number (← needed? Json.float? "value" ms)
  | "booleanLiteral" => return .boolean (← needed? Json.bool? "value" ms)
  | "stringLiteral" => return .string (← needed? Json.str? "value" ms)
  | "nullLiteral" => return .null
  | "binaryExpression" =>
    return .binary (← needed? (fun j => (word? j).bind BinaryOp.ofSymbol?) "operator" ms)
      (← needed? expr? "arg0" ms) (← needed? expr? "arg1" ms)
  | "unaryExpression" =>
    return .unary (← needed? (fun j => (word? j).bind UnaryOp.ofSymbol?) "operator" ms)
      (← needed? expr? "arg" ms)
  | "conditionalExpression" =>
    return .conditional (← needed? expr? "condition" ms) (← needed? expr? "then" ms)
      (← needed? expr? "otherwise" ms)
  | "gotoAction" => return .goto (← needed? Json.strings? "sections" ms)
  | "exitAction" => return .exit
  | "selection" => return .selection (← needed? expr? "choices" ms)
  | "choiceExpression" =>
    return .choice (← needed? expr? "text" ms) (← needed? expr? "action" ms)
  | "block" => return .block (← needed? (list? (statement? expr?)) "statements" ms)
  | "variableReference" => return .reference (← needed? Json.str? "variableName" ms)
  | "function" =>
    return .function ⟨(), ← needed? (list? (parameter? expr?)) "arguments" ms,
      ← possible? Json.str? "restArgName" ms, ← needed? Json.strings? "captures" ms,
      ← needed? expr? "expression" ms⟩
  | "list" => return .list (← needed? (list? (element? expr?)) "elements" ms)
  | "switch" =>
    return .switch (← needed? expr? "expression" ms) (← needed? (list? (case? expr?)) "cases" ms)
      (← possible? expr? "defaultCase" ms)
  | "while" =>
    return .loop (← possible? expr? "preExpr" ms) (← needed? expr? "condition" ms)
      (← possible? expr? "postExpr" ms)
  | "if" =>
    return .cond (← needed? expr? "condition" ms) (← needed? expr? "then" ms)
      (← possible? expr? "otherwise" ms)
  | _ => return .tag (← needed? Json.str? "name" ms)

end

/-- An expression whose value is nested no deeper than `depth`. -/
def expr? : (depth : Nat) → Json → Option (Expr Unit)
  | 0, _ => none
  | n + 1, j => do
    let ms ← j.obj?
    return ⟨← shape? (expr? n) ms, ← possible? location? "location" ms⟩

def placeholder? (j : Json) : Option Document.Placeholder := do
  let ms ← record? ["elementClass", "variableName"] 2 j
  return ⟨← needed? Json.str? "elementClass" ms, ← needed? Json.str? "variableName" ms⟩

def content? (j : Json) : Option Content := do
  let ms ← record? ["html", "variables", "lowerBound", "upperBound"] 4 j
  return ⟨← needed? Json.str? "html" ms, ← needed? (list? placeholder?) "variables" ms,
    ⟨← possible? size? "lowerBound" ms, ← possible? size? "upperBound" ms⟩⟩

def section? (depth : Nat) (j : Json) : Option (Section Unit) := do
  let ms ← record? ["name", "executes", "then", "content", "location"] 4 j
  return ⟨← needed? Json.str? "name" ms, ← possible? (expr? depth) "executes" ms,
    ← needed? (expr? depth) "then" ms, ← needed? (list? content?) "content" ms,
    ← possible? location? "location" ms⟩

end Tree

/-- The story that a JSON value writes. -/
def Story.ofJson? (j : Json) : Option (Story Unit) := do
  let depth := j.depth
  let ms ← Json.record? ["version", "initStatements", "sections"] 3 j
  let version ←
    match Json.member? "version" ms with
    | none => some .current
    | some v => Tree.version? v
  return ⟨version, ← Json.needed? (Json.list? (Tree.statement? (Tree.expr? depth)))
      "initStatements" ms,
    ← Json.needed? (Json.list? (Tree.section? depth)) "sections" ms⟩

end Tale
