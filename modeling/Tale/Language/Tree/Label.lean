import Tale.Language.Tree

/-!
# Numbering functions

`Story.labelled` numbers the function expressions of a story in reading order, from 0 on, so that
no two have the same number. A number counter goes through the tree; each function here returns
the part with its numbers, and the next number.
-/

namespace Tale

mutual

def Expr.label (n : Nat) : Expr Unit → Expr Nat × Nat
  | ⟨shape, location⟩ =>
    let (shape, n) := Shape.label n shape
    (⟨shape, location⟩, n)

def Shape.label (n : Nat) : Shape Unit → Shape Nat × Nat
  | .number x => (.number x, n)
  | .boolean b => (.boolean b, n)
  | .string s => (.string s, n)
  | .null => (.null, n)
  | .binary op l r =>
    let (l, n) := Expr.label n l
    let (r, n) := Expr.label n r
    (.binary op l r, n)
  | .unary op e =>
    let (e, n) := Expr.label n e
    (.unary op e, n)
  | .conditional c y o =>
    let (c, n) := Expr.label n c
    let (y, n) := Expr.label n y
    let (o, n) := Expr.label n o
    (.conditional c y o, n)
  | .goto sections => (.goto sections, n)
  | .exit => (.exit, n)
  | .selection e =>
    let (e, n) := Expr.label n e
    (.selection e, n)
  | .choice t a =>
    let (t, n) := Expr.label n t
    let (a, n) := Expr.label n a
    (.choice t a, n)
  | .block ss =>
    let (ss, n) := labelStatements n ss
    (.block ss, n)
  | .reference name => (.reference name, n)
  | .function f =>
    let (f, n) := labelFunction n f
    (.function f, n)
  | .list es =>
    let (es, n) := labelElements n es
    (.list es, n)
  | .switch e cs d =>
    let (e, n) := Expr.label n e
    let (cs, n) := labelCases n cs
    let (d, n) := labelOption n d
    (.switch e cs d, n)
  | .loop b c a =>
    let (b, n) := labelOption n b
    let (c, n) := Expr.label n c
    let (a, n) := labelOption n a
    (.loop b c a, n)
  | .cond c y o =>
    let (c, n) := Expr.label n c
    let (y, n) := Expr.label n y
    let (o, n) := labelOption n o
    (.cond c y o, n)
  | .tag name => (.tag name, n)

def labelOption (n : Nat) : Option (Expr Unit) → Option (Expr Nat) × Nat
  | none => (none, n)
  | some e =>
    let (e, n) := Expr.label n e
    (some e, n)

def labelFunction (n : Nat) : FunctionExpr Unit → FunctionExpr Nat × Nat
  | ⟨_, parameters, restName, captures, body⟩ =>
    let (ps, m) := labelParameters (n + 1) parameters
    let (body, m) := Expr.label m body
    (⟨n, ps, restName, captures, body⟩, m)

def labelParameters (n : Nat) : List (Parameter Unit) → List (Parameter Nat) × Nat
  | [] => ([], n)
  | ⟨name, bound, fallback, location⟩ :: ps =>
    let (fallback, n) := labelOption n fallback
    let (ps, n) := labelParameters n ps
    (⟨name, bound, fallback, location⟩ :: ps, n)

def labelElements (n : Nat) : List (Element Unit) → List (Element Nat) × Nat
  | [] => ([], n)
  | .item e :: es =>
    let (e, n) := Expr.label n e
    let (es, n) := labelElements n es
    (.item e :: es, n)
  | .spread e location :: es =>
    let (e, n) := Expr.label n e
    let (es, n) := labelElements n es
    (.spread e location :: es, n)

def labelCases (n : Nat) : List (SwitchCase Unit) → List (SwitchCase Nat) × Nat
  | [] => ([], n)
  | ⟨p, r⟩ :: cs =>
    let (p, n) := Expr.label n p
    let (r, n) := Expr.label n r
    let (cs, n) := labelCases n cs
    (⟨p, r⟩ :: cs, n)

def labelStatements (n : Nat) : List (Statement Unit) → List (Statement Nat) × Nat
  | [] => ([], n)
  | ⟨shape, location⟩ :: ss =>
    let (shape, n) := StatementShape.label n shape
    let (ss, n) := labelStatements n ss
    (⟨shape, location⟩ :: ss, n)

def StatementShape.label (n : Nat) : StatementShape Unit → StatementShape Nat × Nat
  | .declare ds =>
    let (ds, n) := labelDeclarations n ds
    (.declare ds, n)
  | .expression e =>
    let (e, n) := Expr.label n e
    (.expression e, n)
  | .leave r e =>
    let (e, n) := Expr.label n e
    (.leave r e, n)
  | .set r e =>
    let (e, n) := Expr.label n e
    (.set r e, n)
  | .continue => (.continue, n)

def labelDeclarations (n : Nat) : List (Declaration Unit) → List (Declaration Nat) × Nat
  | [] => ([], n)
  | ⟨name, bound, initial, location⟩ :: ds =>
    let (initial, n) := labelOption n initial
    let (ds, n) := labelDeclarations n ds
    (⟨name, bound, initial, location⟩ :: ds, n)

end

def labelSections (n : Nat) : List (Section Unit) → List (Section Nat) × Nat
  | [] => ([], n)
  | ⟨name, executes, next, contents, location⟩ :: ss =>
    let (executes, n) := labelOption n executes
    let (next, n) := Expr.label n next
    let (ss, n) := labelSections n ss
    (⟨name, executes, next, contents, location⟩ :: ss, n)

/-- The story with its functions numbered. -/
def Story.labelled (s : Story Unit) : Story Nat :=
  let (init, n) := labelStatements 0 s.init
  let (sections, _) := labelSections n s.sections
  ⟨s.version, init, sections⟩

end Tale
