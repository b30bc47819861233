import Tale.Document.Parse
import Tale.Player.Book
import Tale.Player.Boundary
import Tale.Telling.Replay

/-!
# Sessions

A session is a telling together with the seed and the decisions that bring it back. A decision is
recorded once its step has come about, so replaying the decisions shows the boundary shown last.
-/

namespace Tale.Player

structure Session where
  telling : Telling
  seed : String
  decisions : List Nat := []

namespace Session

/-- The session of a book after some decisions, and its boundary. -/
def replay (book : Book) (seed : String) (decisions : List Nat) :
    Except Failure (Session × Boundary) :=
  match Document.parse {} book.source with
  | .error e => .error (.source e)
  | .ok story =>
    match (Telling.ofStory story seed).replay decisions with
    | .error e => .error (.step e)
    | .ok (s, telling) => .ok (⟨telling, seed, decisions⟩, .ofStep s telling)

/-- A session at its beginning. Where no seed is given, it is what the clock says. -/
def start (book : Book) (seed : Option String) (clock : String := "0") :
    Except Failure (Session × Boundary) :=
  replay book (seed.getD clock) []

/-- The session without its last decision; nothing where there is none. -/
def undo (book : Book) (s : Session) : Except Failure (Option (Session × Boundary)) :=
  match s.decisions with
  | [] => .ok none
  | ds => (replay book s.seed ds.dropLast).map some

/-- Takes a choice. -/
def choose (s : Session) (choice : Nat) : Except Failure Boundary × Session :=
  match s.telling.resume (some choice) with
  | (.error e, telling) => (.error (.step e), { s with telling })
  | (.ok step, telling) =>
    (.ok (.ofStep step telling), { s with telling, decisions := s.decisions ++ [choice] })

end Session

end Tale.Player
