import Tale.Library.Answer

/-!
# Functions that speak to the reader

What is shown beside the story: the output of a pinned function, and a line on the state of things.
-/

namespace Tale.Library.Reader

open Arguments

def pin (f : Option Function) : Run Unit :=
  modify fun w => { w with pinned := f }

def describe (text : Option String) : Run Unit :=
  modify fun w => { w with stateText := text }

def setPinned (args : List Value) : Answer := do
  count args 1 (some 1)
  let f ← function args 0
  pin (some f)
  return .null

def setStateText (args : List Value) : Answer := do
  count args 1 (some 1)
  let text ← string args 0
  describe (some text)
  return .null

/-- Takes back what was set. -/
def unset (clear : Run Unit) (args : List Value) : Answer := do
  count args 0 (some 0)
  clear
  return .null

end Tale.Library.Reader
