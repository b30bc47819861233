import Tale.Player.Failure
import Tale.View.Nodes

/-!
# Boundaries

What stands before the reader between two steps: the text of the last step, the choices to go on
with, and what is shown beside them.
-/

namespace Tale.Player

/-- A choice in the list of choices. -/
structure Item where
  index : Nat
  text : String
  disabled : Bool
  deriving DecidableEq, Repr, Inhabited

structure Boundary where
  /-- Whether the story is over. -/
  ended : Bool
  texts : List String
  choices : List Item
  stateText : Option String
  pinned : List String
  deriving DecidableEq, Repr

namespace Boundary

/-- The boundary after a step. -/
def ofStep (s : Step) (t : Telling) : Boundary :=
  { ended := s.isFinished
    texts := View.lines s.output.content
    choices := s.output.offers.zipIdx.map fun (o, i) => ⟨i, o.text, o.disabled⟩
    stateText := t.world.stateText
    pinned := View.lines t.pinned }

/-- A choice, for a reader that is a program. -/
def choiceLine (c : Item) : String :=
  (if c.disabled then "CHOICE_DISABLED:" else "CHOICE:") ++ Text.decimal c.index ++ "|"
    ++ Failure.quoted c.text

/-- The lines that show a boundary to a reader that is a program. -/
def lines (b : Boundary) (stateOut : Option String) : List String :=
  ["RESULT:OK", if b.ended then "EVENT:END" else "EVENT:CHOICES"]
    ++ b.texts.map (fun t => "TEXT_JSON:" ++ Failure.quoted t)
    ++ b.stateText.toList.map (fun t => "STATE_DESC_JSON:" ++ Failure.quoted t)
    ++ b.pinned.map (fun t => "PINNED_JSON:" ++ Failure.quoted t)
    ++ b.choices.map choiceLine
    ++ ["STATE_OUT:" ++ stateOut.getD "NONE"]

end Boundary

end Tale.Player
