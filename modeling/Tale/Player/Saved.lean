import Tale.Json.Reader
import Tale.Json.Record
import Tale.Player.Session

/-!
# Saved sessions

A session is saved as the story's reference, the seed and the decisions. It is loaded by replaying
them.
-/

namespace Tale.Player

structure Saved where
  schema : String
  storyId : String
  seed : String
  decisions : List Nat
  deriving DecidableEq, Repr

namespace Saved

def format : String := "wtcd-player-state.v1"

def ofSession (s : Session) (storyId : String) : Saved :=
  ⟨format, storyId, s.seed, s.decisions⟩

def toJson (s : Saved) : Json :=
  .obj [("schemaVersion", .str s.schema), ("storyId", .str s.storyId),
    ("randomSeed", .str s.seed), ("decisions", .arr (s.decisions.map .nat))]

open Json (strictRecord? needed? list? size?)

/-- The members of a saved session in JSON. -/
def members : List String :=
  ["schemaVersion", "storyId", "randomSeed", "decisions"]

def ofJson? (j : Json) : Option Saved := do
  let ms ← strictRecord? members 4 j
  return ⟨← needed? Json.str? "schemaVersion" ms, ← needed? Json.str? "storyId" ms,
    ← needed? Json.str? "randomSeed" ms, ← needed? (list? size?) "decisions" ms⟩

def ofText? (s : String) : Option Saved :=
  (Json.parseRecord? members s).bind ofJson?

/-- The session saved in a file. -/
def read (fs : Files) (path : String) : Except Failure Saved :=
  if !fs.holds path then .error (.stateNotFound path)
  else
    match fs.read path with
    | .error e => .error (.stateUnreadable e)
    | .ok text =>
      match ofText? text with
      | none => .error .stateMalformed
      | some s => if s.schema = format then .ok s else .error (.stateFormat s.schema)

end Saved

namespace Session

/-- Saves a session in a file. -/
def save (s : Session) (storyId path : String) (fs : Files) : Except Failure Unit × Files :=
  match Files.write path (Saved.ofSession s storyId).toJson.pretty fs with
  | .ok _ fs => (.ok (), fs)
  | .error e fs => (.error (.stateUnwritable e), fs)

/-- The session of a book that is saved in a file. -/
def load (fs : Files) (book : Book) (path : String) : Except Failure (Session × Boundary) := do
  let saved ← Saved.read fs path
  if saved.storyId ≠ book.id then throw (.otherStory book.id saved.storyId)
  else replay book saved.seed saved.decisions

/-- The session saved in a file, with its book. -/
def loadAny (fs : Files) (path : String) : Except Failure (Book × Session × Boundary) := do
  let saved ← Saved.read fs path
  let book ← Book.ofReference fs saved.storyId
  let (session, boundary) ← replay book saved.seed saved.decisions
  return (book, session, boundary)

end Session

end Tale.Player
