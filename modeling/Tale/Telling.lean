import Tale.Evaluation
import Tale.Language.Tree.Label

/-!
# Telling a story

A story is told in steps. The first step runs its initial statements and enters its first section;
each step then enters section after section, until a selection waits for the reader or no section
is left. A choice that was offered starts the next step.

A section is entered in this order: what it executes, its contents, and what comes next. Of the
contents that the number of the visit admits, one is drawn at random.
-/

namespace Tale

/-- Where a telling stands between two steps. -/
inductive Stage
  | unstarted
  | waiting (choices : List Choice)
  | finished

structure Telling where
  story : Story Nat
  world : World
  /-- The sections still to be entered, the next one first. -/
  pending : List (Section Nat)
  /-- How often sections have been entered, by their names. -/
  visits : List (String × Nat) := []
  /-- The section entered last. -/
  last : Option (Section Nat) := none
  /-- What the pinned function put out at the last step. -/
  pinned : List Node := []
  stage : Stage := .unstarted
  /-- What evaluates and calls; it has a limit. -/
  machine : Machine

/-- What a step comes to. -/
inductive Step
  | waiting (output : Output)
  | finished (output : Output)

def Step.output : Step → Output
  | waiting o => o
  | finished o => o

def Step.isFinished : Step → Bool
  | waiting _ => false
  | finished _ => true

/-- Why a step does not come about. Only a fault or exhaustion happens on the way; the other
errors are found before anything is done. -/
inductive StepError
  | fault (fault : Fault)
  | invalidChoice (index : Nat)
  | choiceRequired
  | finished
  | exhausted

namespace StepError

def code : StepError → String
  | fault f => f.code
  | invalidChoice _ => "WTCD_INVALID_CHOICE"
  | choiceRequired => "WTCD_CHOICE_REQUIRED"
  | finished => "WTCD_FINISHED"
  | exhausted => "WTCD_EXHAUSTED"

def message : StepError → String
  | fault f => f.message
  | invalidChoice i => "Invalid choice " ++ Text.decimal i ++ "."
  | choiceRequired => "The interpreter is waiting for a choice."
  | finished => "Interpretation has already finished."
  | exhausted => "The story took more steps than it was granted."

def detail : StepError → String
  | fault f => f.detail
  | e => e.message

end StepError

def Choice.offer (c : Choice) : Offer :=
  ⟨c.text, c.consequence.isNone⟩

namespace Telling

/-- A limit that no story reaches in a lifetime. -/
def defaultLimit : Nat := Nat.pow 2 48

/-- A story about to be told. -/
def ofStory (story : Story Unit) (seed : String) (provider : Provider := {})
    (limit : Nat := defaultLimit) : Telling :=
  let story := story.labelled
  { story, machine := Tale.machine limit, world := .initial (.ofSeed seed) provider
    pending := story.sections.head?.toList }

def isFinished (t : Telling) : Bool :=
  match t.stage with
  | .finished => true
  | _ => false

/-- A computation on a telling. -/
abbrev Tell := EStateM Stop Telling

/-- How a telling goes on after a section or a choice. -/
inductive Flow
  | goOn
  | wait (output : Output) (choices : List Choice)

/-- Runs a computation on the world. -/
def onWorld {α : Type} (body : Run α) : Tell α := fun t =>
  match body t.world with
  | .ok a world => .ok a { t with world }
  | .error e world => .error e { t with world }

def eval (e : Expr Nat) : Tell Value := do
  onWorld ((← get).machine.eval e)

def call (f : Function) : Tell Value := do
  onWorld ((← get).machine.call f [])

/-- Changes why a computation stops. -/
def adapt {α : Type} (f : Stop → Stop) (body : Tell α) : Tell α := fun t =>
  match body t with
  | .ok a t => .ok a t
  | .error e t => .error (f e) t

def fail {α : Type} (cause : Fault.Cause) (location : Option Location) : Tell α :=
  throw (.fault ⟨cause, location, []⟩)

/-- Takes what has been put out so far. -/
def takeContent : Tell (List Node) := do
  let nodes := (← get).world.content.toList
  modify fun t => { t with world := { t.world with content := #[] } }
  return nodes

/-- Calls the pinned function anew. What it puts out is shown beside the story, not in it. -/
def updatePinned : Tell Unit := do
  match (← get).world.pinned with
  | none => modify fun t => { t with pinned := [] }
  | some f =>
    let located : Stop → Stop
      | .refused e => .fault ⟨.pinnedCall f e, none, []⟩
      | .fault x => .fault (x.passing (.pinned f) none)
      | e => e
    let _ ← adapt located (call f)
    let pinned ← takeContent
    modify fun t => { t with pinned }

/-- The sections of some names, or the last name that there is no section of. -/
def targets (story : Story Nat) : List String → Except String (List (Section Nat))
  | [] => .ok []
  | name :: names => do
    let rest ← targets story names
    match story.section? name with
    | some s => return s :: rest
    | none => throw name

def act : Action → Tell Flow
  | .goto names => do
    match targets (← get).story names with
    | .ok sections =>
      modify fun t => { t with pending := sections ++ t.pending }
      return .goOn
    | .error name => fail (.unknownSection name) none
  | .exit => do
    modify fun t => { t with pending := [] }
    return .goOn
  | .selection choices => do
    let content ← takeContent
    updatePinned
    return .wait ⟨content, choices.map Choice.offer⟩ choices

/-- What comes of a value that should be an action or null. -/
def actOn (otherwise : Value → Tell Flow) : Value → Tell Flow
  | .action a => act a
  | .null => return .goOn
  | v => otherwise v

/-- What comes of a choice that was taken. -/
def perform : Consequence → Tell Flow
  | .act a => act a
  | .call f creator => do
    let located : Stop → Stop
      | .refused e => .fault ⟨.actionCall e, creator, []⟩
      | .fault x => .fault (x.passing .functionAction creator)
      | e => e
    let v ← adapt located (call f)
    actOn (fun v => fail (.actionResult v) creator) v

/-! ## Sections -/

/-- Puts the text of a value into its span. -/
def fillSpan (elementClass text : String) (html : List Char) : List Char :=
  let filled := "<span class=\"" ++ elementClass ++ "\">" ++ Text.escaped text ++ "</span>"
  Text.replaceFirst (Document.emptySpan elementClass).toList filled.toList html

/-- Contents with the values of their variables. -/
def fillSpans (m : Machine) : List Document.Placeholder → List Char → Run (List Char)
  | [], html => pure html
  | p :: ps, html => do
    let v ← Run.read (← m.resolve p.variableName)
    fillSpans m ps (fillSpan p.elementClass v.display html)

/-- Draws one of the contents that the visit admits, if any, and puts it out unless it is blank. -/
def showContents (m : Machine) (contents : List Content) (visit : Nat) : Run Unit := do
  let eligible := contents.filter (·.bounds.admits visit)
  if !eligible.isEmpty then
    let (i, random) := (← get).random.index eligible.length
    modify fun w => { w with random }
    let content := eligible.getD i default
    let html ← fillSpans m content.placeholders content.html.toList
    if !(Text.trim html).isEmpty then
      modify (·.emit (.html (String.ofList html)))

/-- Counts a visit and returns its number. -/
def countVisit (name : String) : Tell Nat := do
  let visits := (← get).visits
  let n := (visits.lookup name).getD 0 + 1
  modify fun t => { t with visits := (name, n) :: visits.filter (·.1 != name) }
  return n

def enter (s : Section Nat) : Tell Flow := do
  if let some e := s.executes then
    let _ ← eval e
  let visit ← countVisit s.name
  onWorld (showContents (← get).machine s.contents visit)
  let v ← eval s.next
  actOn (fun v => fail (.next v) s.next.location) v

/-! ## Steps -/

/-- Notes in a trail which section the telling was in. -/
def locate (t : Telling) : Stop → Stop
  | .fault f => .fault (passing f)
  | .refused e => .fault (passing ⟨.strayCall e, none, []⟩)
  | e => e
where
  passing (f : Fault) : Fault :=
    match t.last with
    | some s => f.passing (.section s.name) s.location
    | none => f.passing .initialization none

def located {α : Type} (body : Tell α) : Tell α := fun t =>
  match body t with
  | .ok a t => .ok a t
  | .error e t => .error (t.locate e) t

/-- Ends a telling that has no section left. -/
def finish : Tell Step := do
  let content ← takeContent
  updatePinned
  modify fun t => { t with stage := .finished }
  return .finished ⟨content, []⟩

/-- Waits for the reader. -/
def suspend (output : Output) (choices : List Choice) : Tell Step := do
  modify fun t => { t with stage := .waiting choices }
  return .waiting output

/-- Enters section after section, at most `turns` of them. -/
def proceed : (turns : Nat) → Tell Step
  | 0 => throw .exhausted
  | n + 1 => do
    match (← get).pending with
    | [] => finish
    | s :: pending =>
      modify fun t => { t with pending, last := some s }
      match ← located (enter s) with
      | .goOn => proceed n
      | .wait output choices => suspend output choices

/-- One step, of which `first` is the beginning. -/
def step (first : Tell Flow) : Tell Step := do
  match ← located first with
  | .goOn => proceed (← get).machine.turns
  | .wait output choices => suspend output choices

def init : Tell Flow := do
  let t ← get
  onWorld (Evaluation.statements t.machine t.story.init)
  return .goOn

def stepError : Stop → StepError
  | .fault f => .fault f
  | .signal s => .fault ⟨.uncaught s, none, []⟩
  | .refused e => .fault ⟨.strayCall e, none, []⟩
  | .exhausted => .exhausted

/-- Takes a step; an error on the way ends the telling. -/
def advance (t : Telling) (first : Tell Flow) : Except StepError Step × Telling :=
  match step first t with
  | .ok s t => (.ok s, t)
  | .error e t => (.error (stepError e), { t with stage := .finished })

/-- Begins a telling, or goes on with the choice of an index. -/
def resume (t : Telling) (choice : Option Nat) : Except StepError Step × Telling :=
  match t.stage, choice with
  | .unstarted, none => t.advance init
  | .unstarted, some i => (.error (.invalidChoice i), t)
  | .waiting _, none => (.error .choiceRequired, t)
  | .waiting choices, some i =>
    match choices[i]?.bind (·.consequence) with
    | some c => t.advance (perform c)
    | none => (.error (.invalidChoice i), t)
  | .finished, _ => (.error .finished, t)

end Telling

end Tale
