import Tale.Document.Parse
import Tale.Json.Printer
import Tale.Script
import Tale.Telling
import Tale.View.Nodes

/-!
# Running scripts

A run takes the script's choices one after the other and notes each event. It has to end with the
story, or with the fault that stops it, and with no choice of the script left over.
-/

namespace Tale.Script

/-- What was observed. -/
structure Report where
  events : Array Event := #[]
  /-- How many choices were taken. -/
  consumed : Nat := 0
  steps : Nat := 0

/-- Why there is no report, or why it is not as expected. -/
inductive Failure
  | unreadable (path : String)
  | malformed (path : String)
  | format (found : String)
  | storyNotFound (directory entry : String)
  | source (e : SourceError)
  | step (e : StepError)
  /-- The choices of an event were offered when none was left to take. -/
  | choiceMissing (event : Nat)
  | choicesLeft (used total : Nat)
  | unending
  | count (expected : Nat) (observed : List Event)
  | differs (index : Nat) (expected actual : Event)

/-- How many steps a run may take. -/
def maxSteps : Nat := 5000

open Text (decimal inQuotes) in
def Failure.message : Failure → String
  | unreadable path => "Failed to read file " ++ path
  | malformed path => "Failed to parse testcase " ++ path
  | format found =>
    "Invalid testcase schema version " ++ inQuotes found ++ ", expected " ++ inQuotes Script.format
      ++ "."
  | storyNotFound directory entry =>
    "Story " ++ entry ++ ".wtcd not found under " ++ directory ++ "."
  | source e => "Interpreter error: " ++ e.code ++ ": " ++ e.message
  | step e => "Interpreter error: " ++ e.code ++ ": " ++ e.message
  | choiceMissing event =>
    "Story offered choices at event index " ++ decimal event
      ++ ", but no choose action is left."
  | choicesLeft used total =>
    "Story ended after " ++ decimal used ++ " of " ++ decimal total ++ " choose actions."
  | unending => "Story did not end within " ++ decimal maxSteps ++ " steps."
  | count expected observed =>
    "Expected " ++ decimal expected ++ " events, observed " ++ decimal observed.length ++ ":\n"
      ++ (Json.arr (observed.map Event.toJson)).pretty
  | differs index expected actual =>
    "Event " ++ decimal index ++ " differs. expected=" ++ expected.toJson.compact ++ " actual="
      ++ actual.toJson.compact

/-- The choices that a step offers. -/
def offered (offers : List Offer) : Event :=
  let disabled := offers.zipIdx.filterMap fun (o, i) => if o.disabled then some i else none
  .choices (offers.map (·.text)) disabled

/-- The text of a step, if there is any. -/
def shown (nodes : List Node) : Array Event :=
  match View.lines nodes with
  | [] => #[]
  | lines => #[.content lines]

namespace Report

def push (r : Report) (e : Event) : Report :=
  { r with events := r.events.push e }

def append (r : Report) (es : Array Event) : Report :=
  { r with events := r.events ++ es }

/-- The report of a run that is over, with `left` choices not taken. -/
def finish (r : Report) (left : Nat) : Except Failure Report :=
  if left = 0 then .ok r else .error (.choicesLeft r.consumed (r.consumed + left))

end Report

/-- Goes on with a telling for at most `turns` steps, taking `decisions` after `choice`. -/
def follow : (turns : Nat) → Telling → (choice : Option Nat) → (decisions : List Nat) → Report →
    Except Failure Report
  | 0, _, _, _, _ => .error .unending
  | n + 1, t, choice, decisions, r =>
    let r := { r with steps := r.steps + 1 }
    match t.resume choice with
    | (.error (.fault f), _) => (r.push (.error f.code f.message)).finish decisions.length
    | (.error e, _) => .error (.step e)
    | (.ok s, t) =>
      let r := r.append (shown s.output.content)
      if s.isFinished then (r.push .ending).finish decisions.length
      else
        match decisions with
        | [] => .error (.choiceMissing r.events.size)
        | i :: is =>
          follow n t (some i) is
            { r.push (offered s.output.offers) with consumed := r.consumed + 1 }

/-- Tells a story as the script says. -/
def run (s : Script) (source : String) : Except Failure Report :=
  match Document.parse {} source with
  | .error e => .error (.source e)
  | .ok story => follow maxSteps (Telling.ofStory story s.seed) none s.decisions {}

/-- Compares events from an index on, one by one. -/
def compareFrom : (index : Nat) → (expected actual : List Event) → Except Failure Unit
  | i, e :: es, a :: as =>
    if e.accepts a then compareFrom (i + 1) es as else .error (.differs i e a)
  | _, _, _ => .ok ()

/-- Compares what was observed with what was expected. -/
def compareWith (s : Script) (r : Report) : Except Failure Unit :=
  if r.events.size ≠ s.expected.length then .error (.count s.expected.length r.events.toList)
  else compareFrom 0 s.expected r.events.toList

end Tale.Script
