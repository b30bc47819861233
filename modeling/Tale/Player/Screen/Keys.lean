import Tale.Player.Lines
import Tale.Player.Screen

/-!
# Keys

What the rich player does for a key. Some keys always do the same; the others skip the typing
while there is any, and otherwise move among the choices and take one.
-/

namespace Tale.Player

inductive KeyCode
  | up
  | down
  | left
  | enter
  | escape
  | char (c : Char)
  deriving DecidableEq, Repr

structure Key where
  code : KeyCode
  control : Bool := false
  deriving DecidableEq, Repr

/-- All that a key can change. -/
structure Desk where
  files : Files
  session : Session
  screen : Screen

namespace Desk

/-- What comes of a key: whether to quit, or why it could not be done. -/
abbrev Pressed := Except Failure Bool × Desk

def say (d : Desk) (status : String) : Pressed :=
  (.ok false, { d with screen := d.screen.setStatus status })

/-- Goes over to another session, if there is one. -/
def moveTo (d : Desk) (done : String) : Except Failure (Session × Boundary) → Pressed
  | .ok (session, b) => { d with session, screen := d.screen.replace b }.say done
  | .error f => (.error f, d)

def restart (c : Context) (d : Desk) (clock : String) : Pressed :=
  d.moveTo "restarted" (Session.start c.book c.seed clock)

def save (c : Context) (d : Desk) : Pressed :=
  match d.session.save c.book.id c.stateFile d.files with
  | (.ok _, files) => { d with files }.say ("saved to " ++ c.stateFile)
  | (.error f, files) => (.error f, { d with files })

def load (c : Context) (d : Desk) : Pressed :=
  d.moveTo ("loaded from " ++ c.stateFile) (Session.load d.files c.book c.stateFile)

def undo (c : Context) (d : Desk) : Pressed :=
  match d.session.undo c.book with
  | .ok none => d.say "nothing to undo"
  | .ok (some (session, b)) => d.moveTo "undone" (.ok (session, b))
  | .error f => (.error f, d)

/-- Takes the selected choice. -/
def take (d : Desk) : Pressed :=
  match d.screen.choices[d.screen.selected]? with
  | none => d.say "no pending choice"
  | some item =>
    if item.disabled then d.say "choice is disabled"
    else
      match d.session.choose item.index with
      | (.ok b, session) =>
        { d with session, screen := d.screen.append b }.say ("chose " ++ Text.decimal item.index)
      | (.error f, session) => (.error f, { d with session })

/-- What a key does while there is text that is not shown yet. -/
def hurry (k : Key) (d : Desk) : Pressed :=
  if k.code = .enter ∨ k.code = .char ' ' then (.ok false, { d with screen := d.screen.skip })
  else d.say "text streaming..."

/-- What a key does among the choices. -/
def pick (k : Key) (d : Desk) : Pressed :=
  match k.code with
  | .up =>
    if d.screen.choices.isEmpty then d.say "no pending choice"
    else (.ok false, { d with screen := d.screen.up })
  | .down =>
    if d.screen.choices.isEmpty then d.say "no pending choice"
    else (.ok false, { d with screen := d.screen.down })
  | .enter => d.take
  | _ => (.ok false, d)

/-- What a key does that is pressed when the clock says `clock`. -/
def press (c : Context) (k : Key) (d : Desk) (clock : String := "0") : Pressed :=
  if k.code = .escape ∨ k.code = .char 'q' ∨ (k.code = .char 'c' ∧ k.control) then (.ok true, d)
  else
    match k.code with
    | .char 'h' =>
      (.ok false, { d with screen := { d.screen with helpVisible := !d.screen.helpVisible } })
    | .char 'r' => d.restart c clock
    | .char 's' => d.save c
    | .char 'l' => d.load c
    | .char 'u' => d.undo c
    | _ => if d.screen.isTyping then d.hurry k else d.pick k

end Desk

end Tale.Player
