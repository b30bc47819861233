import Tale.Player.Arguments
import Tale.Player.Lines

/-!
# Commands

What the program does for its arguments, as a function of the files it finds, of what there is to
read, and of what the clock says, which is the seed where none is given.
-/

namespace Tale.Player

/-- What a run of the program comes to. -/
structure Outcome where
  files : Files
  output : String
  exit : Nat

namespace Command

/-- The status after a failure. -/
def failed : Nat := 1

/-- Shows a boundary to a reader that is a program. A session that can go on is saved before. -/
def conclude (session : Session) (b : Boundary) (storyId stateOut : String) (files : Files) :
    Except Failure (List String) × Files :=
  if b.ended then (.ok (b.lines none), files)
  else
    match session.save storyId stateOut files with
    | (.ok _, files) => (.ok (b.lines (some stateOut)), files)
    | (.error f, files) => (.error f, files)

/-- Begins a story. -/
def agentStart (files : Files) (source : String) (entry : Option String) (stateOut : String)
    (seed : Option String) (clock : String) : Except Failure (List String) × Files :=
  let begun : Except Failure (Book × Session × Boundary) := do
    let book ← Book.ofSource files source entry
    return (book, ← Session.start book seed clock)
  match begun with
  | .ok (book, session, b) => conclude session b book.id stateOut files
  | .error f => (.error f, files)

/-- Goes on with a story that was saved. -/
def agentChoose (files : Files) (stateIn : String) (choice : Nat) (stateOut : String) :
    Except Failure (List String) × Files :=
  match Session.loadAny files stateIn with
  | .error f => (.error f, files)
  | .ok (book, session, _) =>
    match session.choose choice with
    | (.ok b, session) => conclude session b book.id stateOut files
    | (.error f, _) => (.error f, files)

/-- Opens a book to be played. -/
def openBook (files : Files) (source : String) (entry : Option String) (stateFile : String)
    (seed : Option String) (clock : String) : Except Failure (Context × Session × Boundary) := do
  let book ← Book.ofSource files source entry
  return (⟨book, stateFile, seed⟩, ← Session.start book seed clock)

/-- What is written after a play or a step. -/
def ended (output : String) : Except Failure Unit → String × Nat
  | .ok _ => (output, 0)
  | .error f => (output ++ Lines.written f.lines, failed)

/-- The outcome of a command that takes one step. -/
def outcome : Except Failure (List String) × Files → Outcome
  | (.ok lines, files) => ⟨files, Lines.written lines, 0⟩
  | (.error f, files) => ⟨files, Lines.written f.lines, failed⟩

/-- Runs a command. The clock says `clock` at its beginning, and `later` has what it says when a
line is read. Without a terminal the rich player plays by lines as well. -/
def run (clock : String) (later : Nat → String) (files : Files) (input : String) :
    Command → Outcome
  | .start source entry stateOut seed =>
    outcome (agentStart files source entry stateOut seed clock)
  | .choose stateIn choice stateOut => outcome (agentChoose files stateIn choice stateOut)
  | .play source entry stateFile seed _ =>
    match openBook files source entry stateFile seed clock with
    | .error f => ⟨files, Lines.written f.lines, failed⟩
    | .ok (context, session, b) =>
      let play := Lines.run context session files b input later
      let (output, exit) := ended play.output play.ending
      ⟨play.files, output, exit⟩

/-- Runs the command that arguments give. -/
def runArguments (clock : String) (files : Files) (input : String) (arguments : List String)
    (later : Nat → String := fun _ => clock) : Outcome :=
  match Arguments.parse arguments with
  | .ok command => command.run clock later files input
  | .error refusal => ⟨files, "", refusal.exit⟩

end Command

end Tale.Player
