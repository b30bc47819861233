import Tale.Json.Record

/-!
# Events

What a reader without eyes notices of a telling: the text of a step, the choices it offers, the
error that stops it, and its end.
-/

namespace Tale

inductive Event
  /-- The lines of a step. -/
  | content (paragraphs : List String)
  /-- The choices offered, and the indices of those that cannot be taken. -/
  | choices (texts : List String) (disabled : List Nat)
  | error (code message : String)
  | ending
  deriving DecidableEq, Repr

namespace Event

/-- Whether an event is the one expected. Of an error, the message only has to begin as
expected. -/
def accepts : (expected actual : Event) → Bool
  | error code message, error code' message' =>
    code == code' && message.toList.isPrefixOf message'.toList
  | expected, actual => expected == actual

def toJson : Event → Json
  | content paragraphs => .obj [("kind", .str "content"), ("paragraphs", .strings paragraphs)]
  | choices texts disabled =>
    .obj ([("kind", .str "choices"), ("choices", .strings texts)]
      ++ if disabled.isEmpty then [] else [("disabled", .arr (disabled.map .nat))])
  | error code message =>
    .obj [("kind", .str "error"), ("code", .str code), ("message", .str message)]
  | ending => .obj [("kind", .str "end")]

open Json (strictRecord? needed? given? list? size? tagged?)

def ofJson? (j : Json) : Option Event := do
  let (kind, rest) ← tagged? "kind" j
  match kind with
  | "content" =>
    let ms ← strictRecord? ["paragraphs"] 1 rest
    return content (← needed? Json.strings? "paragraphs" ms)
  | "choices" =>
    let ms ← strictRecord? ["choices", "disabled"] 1 rest
    return choices (← needed? Json.strings? "choices" ms) (← given? (list? size?) [] "disabled" ms)
  | "error" =>
    let ms ← strictRecord? ["code", "message"] 2 rest
    return error (← needed? Json.str? "code" ms) (← needed? Json.str? "message" ms)
  | "end" =>
    let _ ← strictRecord? [] 0 rest
    return ending
  | _ => none

end Event

end Tale
