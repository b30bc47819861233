import Tale.Player.Boundary

/-!
# The screen's state

The rich player shows text as a typewriter does: a line is typed character by character and then
stands among the lines already shown, and the lines that follow wait. No text is lost on the way,
and none changes its order (`Screen.lines`).

Of the choices a few rows are seen at a time, and one of them is selected.
-/

namespace Tale.Player

structure Screen where
  /-- The lines already shown. -/
  shown : List String := []
  /-- The line being typed. -/
  typing : Option String := none
  /-- How many characters of it are typed. -/
  typed : Nat := 0
  /-- The lines still to be typed. -/
  waiting : List String := []
  choices : List Item := []
  stateText : Option String := none
  pinned : List String := []
  /-- The position of the selected choice. -/
  selected : Nat := 0
  /-- The position of the first choice seen. -/
  scroll : Nat := 0
  ended : Bool := false
  helpVisible : Bool := false
  status : String := ""
  deriving DecidableEq, Repr, Inhabited

namespace Screen

/-- How many choices are seen at a time. -/
def choiceRows : Nat := 5

/-- All the text there is, in order. -/
def lines (s : Screen) : List String :=
  s.shown ++ s.typing.toList ++ s.waiting

/-- Whether there is text that is not shown yet. -/
def isTyping (s : Screen) : Bool :=
  s.typing.isSome || !s.waiting.isEmpty

/-- Shows what stands beside the text of a boundary. The first choice that can be taken is
selected. -/
def setBoundary (s : Screen) (b : Boundary) : Screen :=
  { s with
    stateText := b.stateText
    pinned := b.pinned
    ended := b.ended
    choices := b.choices
    selected := (b.choices.findIdx? (!·.disabled)).getD 0
    scroll := 0 }

/-- Goes on with a boundary. Its text comes after an empty line, if there is any. -/
def append (s : Screen) (b : Boundary) : Screen :=
  let added := if b.texts.isEmpty then [] else "" :: b.texts
  { s with waiting := s.waiting ++ added }.setBoundary b

/-- Starts over with a boundary. -/
def replace (s : Screen) (b : Boundary) : Screen :=
  { s with shown := [], waiting := b.texts, typing := none, typed := 0 }.setBoundary b

/-- Types one character more; `none` when everything is shown. An empty line takes no typing. -/
def advance? (s : Screen) : Option Screen :=
  match s.typing with
  | none =>
    match s.waiting with
    | [] => none
    | line :: waiting =>
      if line.isEmpty then some { s with shown := s.shown ++ [line], waiting }
      else some { s with typing := some line, typed := 1, waiting }
  | some line =>
    if line.length ≤ s.typed then
      some { s with shown := s.shown ++ [line], typing := none, typed := 0 }
    else some { s with typed := s.typed + 1 }

/-- Shows all the text at once. -/
def skip (s : Screen) : Screen :=
  { s with shown := s.lines, typing := none, typed := 0, waiting := [] }

def setStatus (s : Screen) (status : String) : Screen :=
  { s with status }

/-- Selects the choice before, and scrolls to it if it is not seen. -/
def up (s : Screen) : Screen :=
  let selected := s.selected - 1
  { s with selected, scroll := min s.scroll selected }

/-- Selects the choice after, and scrolls to it if it is not seen. -/
def down (s : Screen) : Screen :=
  let selected := min (s.selected + 1) (s.choices.length - 1)
  let scroll :=
    if choiceRows < s.choices.length ∧ s.scroll + choiceRows ≤ selected then
      selected - choiceRows + 1
    else s.scroll
  { s with selected, scroll }

end Screen

end Tale.Player
