import Tale.Player.Saved

/-!
# Playing by lines

The player shows each boundary in lines and reads a line for each decision: the index of a choice,
or a command, which begins with a colon.
-/

namespace Tale.Player

/-- What the player needs to know beside the session. -/
structure Context where
  book : Book
  /-- Where the session is saved. -/
  stateFile : String
  /-- The seed of each new start; if there is none, the clock gives one. -/
  seed : Option String

namespace Lines

/-- What comes of a line that was read. -/
structure Turn where
  session : Session
  files : Files
  output : List String
  /-- Set when the player stops: without a failure, or with one. -/
  ending : Option (Except Failure Unit) := none

def help : String := "commands: :help :save :load :undo :restart :quit"

def greeting (c : Context) : List String :=
  ["WTCD player: " ++ c.book.title, help]

def choiceLine (i : Item) : String :=
  "  [" ++ Text.decimal i.index ++ "] " ++ i.text ++ (if i.disabled then " (disabled)" else "")

/-- A boundary in lines. -/
def present (b : Boundary) : List String :=
  b.stateText.toList.map (fun t => "[" ++ t ++ "]")
    ++ b.pinned.map (fun t => "| " ++ t)
    ++ b.texts.flatMap (fun t => ["", t])
    ++ [""]
    ++ (if b.ended then ["[END]"] else b.choices.map choiceLine)

/-- The turn that ends in a boundary. The player stops where the story does. -/
def arrive (session : Session) (files : Files) (before : List String) (b : Boundary) : Turn :=
  { session, files, output := before ++ present b
    ending := if b.ended then some (.ok ()) else none }

/-- The turn that stops with a failure. -/
def stop (session : Session) (files : Files) (f : Failure) : Turn :=
  { session, files, output := [], ending := some (.error f) }

/-- Goes over to another session, if there is one. -/
def moveTo (session : Session) (files : Files) (done : String) :
    Except Failure (Session × Boundary) → Turn
  | .ok (session, b) => arrive session files [done] b
  | .error f => stop session files f

/-- Takes a choice; one that is not offered is only remarked on. -/
def choose (session : Session) (files : Files) (index : Nat) : Turn :=
  match session.choose index with
  | (.ok b, session) => arrive session files [] b
  | (.error (.step (.invalidChoice i)), session) =>
    { session, files, output := [(StepError.invalidChoice i).message] }
  | (.error f, session) => stop session files f

/-- Answers a line, given without its end, when the clock says `clock`. -/
def respond (c : Context) (session : Session) (files : Files) (raw clock : String) : Turn :=
  match Text.trimmed raw with
  | ":help" => { session, files, output := [help] }
  | ":save" =>
    match session.save c.book.id c.stateFile files with
    | (.ok _, files) => { session, files, output := ["saved: " ++ c.stateFile] }
    | (.error f, files) => stop session files f
  | ":load" =>
    moveTo session files ("loaded: " ++ c.stateFile) (Session.load files c.book c.stateFile)
  | ":undo" =>
    match session.undo c.book with
    | .ok none => { session, files, output := ["nothing to undo"] }
    | .ok (some (session, b)) => arrive session files ["undone"] b
    | .error f => stop session files f
  | ":restart" => moveTo session files "restarted" (Session.start c.book c.seed clock)
  | ":quit" => { session, files, output := ["bye"], ending := some (.ok ()) }
  | trimmed =>
    match Text.numeral? Text.word64 trimmed.toList with
    | some index => choose session files index
    | none => { session, files, output := ["invalid choice index: " ++ raw] }

/-- Lines as they are written. -/
def written (lines : List String) : String :=
  String.join (lines.map (· ++ "\n"))

def prompt : String := "> "

/-- A line without what ends it. -/
def withoutEnd (line : List Char) : String :=
  String.ofList (Text.dropEndWhile (fun c => c == '\r' || c == '\n') line)

/-- What a whole play comes to. -/
structure Play where
  session : Session
  files : Files
  output : String
  ending : Except Failure Unit

/-- The play that a turn ends. -/
def finish (output : String) (t : Turn) (ending : Except Failure Unit) : Play :=
  { session := t.session, files := t.files, output, ending }

/-- Goes on from a turn with the lines that follow, each of which is read when the clock says what
`clock` has for its number. The player stops when there are none left. -/
def goOn (c : Context) : List (List Char) → String → Turn → (clock : Nat → String) → Play
  | lines, output, t, clock =>
    match t.ending, lines with
    | some ending, _ => finish (output ++ written t.output) t ending
    | none, [] => finish (output ++ written t.output ++ prompt) t (.ok ())
    | none, line :: rest =>
      goOn c rest (output ++ written t.output ++ prompt)
        (respond c t.session t.files (withoutEnd line) (clock 0)) fun n => clock (n + 1)

/-- The lines of an input; what follows the last line end is one if there is anything. -/
def inputLines (input : String) : List (List Char) :=
  let all := Text.splitAtChar '\n' input.toList
  if all.getLast? == some [] then all.dropLast else all

/-- Plays from a boundary on, with all there will be to read. -/
def run (c : Context) (session : Session) (files : Files) (b : Boundary) (input : String)
    (clock : Nat → String := fun _ => "0") : Play :=
  goOn c (inputLines input) "" (arrive session files (greeting c) b) clock

end Lines

end Tale.Player
