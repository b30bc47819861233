import Tale.Json.Reader
import Tale.Script.Event

/-!
# Scripts

A script takes a story's choices for the reader and says which events to expect.
-/

namespace Tale

structure Script where
  /-- The name of the format, which has to be `Script.format`. -/
  schema : String
  /-- The name of the story's file, without its ending. -/
  entry : String := "main"
  seed : String := "wtcd-tool"
  /-- The indices of the choices to take, in order. -/
  decisions : List Nat := []
  expected : List Event := []
  deriving DecidableEq, Repr

namespace Script

def format : String := "wtcd-tool-case.v1"

def decisionJson (index : Nat) : Json :=
  .obj [("kind", .str "choose"), ("index", .nat index)]

def toJson (s : Script) : Json :=
  .obj [("schemaVersion", .str s.schema), ("entry", .str s.entry), ("randomSeed", .str s.seed),
    ("actions", .arr (s.decisions.map decisionJson)),
    ("expectedEvents", .arr (s.expected.map Event.toJson))]

open Json (strictRecord? needed? given? list? size? tagged?)

def decision? (j : Json) : Option Nat := do
  let (kind, rest) ← tagged? "kind" j
  if kind = "choose" then
    needed? size? "index" (← strictRecord? ["index"] 1 rest)
  else none

/-- The members of a script in JSON. -/
def members : List String :=
  ["schemaVersion", "entry", "randomSeed", "actions", "expectedEvents"]

def ofJson? (j : Json) : Option Script := do
  let ms ← strictRecord? members 1 j
  return {
    schema := ← needed? Json.str? "schemaVersion" ms
    entry := ← given? Json.str? "main" "entry" ms
    seed := ← given? Json.str? "wtcd-tool" "randomSeed" ms
    decisions := ← given? (list? decision?) [] "actions" ms
    expected := ← given? (list? Event.ofJson?) [] "expectedEvents" ms }

def ofText? (s : String) : Option Script :=
  (Json.parseRecord? members s).bind ofJson?

end Script

end Tale
