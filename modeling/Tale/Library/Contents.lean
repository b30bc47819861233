import Tale.Decimal.Whole
import Tale.Library.Answer
import Tale.Text.Markup

/-!
# Functions that put out content

Each makes one piece of HTML of its arguments. Texts are escaped.
-/

namespace Tale.Library.Contents

open Arguments

/-- An element that holds a text. -/
def textElement (tag text : String) : String :=
  "<" ++ tag ++ ">" ++ Text.escaped text ++ "</" ++ tag ++ ">"

def paragraph (args : List Value) : Answer := do
  count args 1 (some 1)
  let text ← string args 0
  Run.emit (.html (textElement "p" text))
  return .null

def image (args : List Value) : Answer := do
  count args 1 (some 1)
  let source ← string args 0
  Run.emit (.html ("<img src=\"" ++ Text.escaped source ++ "\">"))
  return .null

/-- A list with one item for each argument. -/
def items (tag : String) (args : List Value) : Answer := do
  let texts ← each (fun i => string args i) args
  let items := String.join (texts.map (textElement "li"))
  Run.emit (.html ("<" ++ tag ++ ">" ++ items ++ "</" ++ tag ++ ">"))
  return .null

/-- A header has one of six levels. -/
def headerLevel (level : Float) : Except Refusal Nat :=
  match Decimal.whole? level with
  | some n => if n < 1 || 6 < n then .error (.headerLevel level) else .ok n.toNat
  | none => .error (.headerLevel level)

def header (args : List Value) : Answer := do
  count args 1 (some 2)
  let level ← headerLevel (← number args 1 (some 1))
  let text ← string args 0
  Run.emit (.html (textElement ("h" ++ Text.decimal level) text))
  return .null

/-- The texts of one row, which has to be as long as the first one. -/
def row (width : Nat) (cells : List Value) (i : Nat) : Except Refusal (List String) := do
  if cells.length != width then throw (.rowLength i width cells.length)
  cells.zipIdx.mapM fun (v, j) =>
    match v with
    | .string s => .ok s
    | v => .error (.cell i j v)

/-- The texts of all rows. -/
def rows (cells : List (List Value)) : Except Refusal (List (List String)) :=
  cells.zipIdx.mapM fun (cells', i) => row (cells.headD []).length cells' i

/-- A table of which the first row is the head. -/
def table (args : List Value) : Answer := do
  count args 1 none
  let texts ← rows (← each (fun i => list args i) args)
  let cells (tag : String) (texts : List String) :=
    "<tr>" ++ String.join (texts.map (textElement tag)) ++ "</tr>"
  Run.emit (.html ("<table><thead>" ++ cells "th" (texts.headD []) ++ "</thead><tbody>"
    ++ String.join (texts.tail.map (cells "td")) ++ "</tbody></table>"))
  return .null

def rule (args : List Value) : Answer := do
  count args 0 (some 0)
  Run.emit (.html "<hr>")
  return .null

end Tale.Library.Contents
