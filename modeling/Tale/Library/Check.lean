import Tale.Library.Answer

/-!
# Functions that check

Assertions stop a story that went wrong. `assertError` demands that a call fails; a signal is no
failure and passes through it. Timers have names, and each runs once at a time.
-/

namespace Tale.Library.Check

open Arguments

def assert (args : List Value) : Except Refusal Value := do
  count args 1 (some 1)
  if ← boolean args 0 then return .null
  throw .assertion

/-- Whether a call fails. -/
def fails (call : Function → List Value → Run Value) (f : Function) : Run Bool := fun w =>
  match call f [] w with
  | .ok _ w => .ok false w
  | .error (.fault _) w => .ok true w
  | .error (.refused _) w => .ok true w
  | .error e w => .error e w

def assertError (call : Function → List Value → Run Value) (args : List Value) : Answer := do
  count args 1 (some 1)
  let f ← function args 0
  if ← fails call f then return .null
  throw .noError

def timerName (args : List Value) : Except Refusal String := do
  count args 0 (some 1)
  string args 0 (some "default")

def timerRuns (name : String) : Run Bool :=
  return (← get).timers.contains name

def addTimer (name : String) : Run Unit :=
  modify fun w => { w with timers := name :: w.timers }

/-- Takes a timer away, and says whether there was one. -/
def removeTimer (name : String) : Run Bool :=
  modifyGet fun w =>
    (w.timers.contains name, { w with timers := w.timers.filter (· != name) })

def timeStart (args : List Value) : Answer := do
  let name ← timerName args
  if ← timerRuns name then throw (.timerExists name)
  addTimer name
  return .null

def timeEnd (args : List Value) : Answer := do
  let name ← timerName args
  if !(← removeTimer name) then throw (.timerUnknown name)
  return .null

end Tale.Library.Check
