import Tale.Player.Command

/-!
# The program

Brings in the files that a command looks at, lets the command run on them, and writes back what it
changed before anything is shown. A play goes on line by line.
-/

namespace Tale.Program

open Player

def usage : String :=
  "usage: tale agent start --source PATH --state-out FILE [--entry NAME] [--seed TEXT]\n"
    ++ "       tale agent choose --state-in FILE --choice INDEX --state-out FILE\n"
    ++ "       tale play --source PATH [--entry NAME] [--state-file FILE] [--seed TEXT] [--rich]"

/-- The absolute path of a place. -/
def pathOf (place : Place) : String :=
  "/" ++ "/".intercalate place

/-- The bytes of a file as text, if they can be read and are any. -/
def readText (path : String) : IO (Option String) := do
  try return String.fromUTF8? (← IO.FS.readBinFile path)
  catch _ => return none

/-- Notes what stands at a place, and what stands below it if `deep`. Links below are passed
over. -/
partial def note (deep : Bool) (place : Place) (fs : Files) : IO Files := do
  let path := (← IO.currentDir) / pathOf place
  if ← path.isDir then
    let mut fs := fs.put place .directory
    if deep then
      for entry in ← path.readDir do
        unless (← entry.path.symlinkMetadata).type matches .symlink do
          fs ← note deep (place ++ [entry.fileName]) fs
    return fs
  else if ← path.pathExists then return fs.put place (.file (← readText (pathOf place)))
  else return { fs with entries := fs.entries.filter (·.1 != place) }

/-- The places that a path leads through. -/
def placesOn (fs : Files) (path : String) : List Place :=
  let step (places : List Place) (name : String) : List Place :=
    let here := places.headD []
    if name = "" ∨ name = "." then places
    else if name = ".." then here.dropLast :: places
    else (here ++ [name]) :: places
  ((Path.names (Path.join fs.workingDirectory path)).foldl step []).reverse

/-- Notes what stands on the way to a path and at its end. -/
def visit (deep : Bool) (path : String) (fs : Files) : IO Files := do
  let places := placesOn fs path
  let fs ← places.foldlM (fun fs p => note false p fs) fs
  match places.getLast? with
  | some p => note deep p fs
  | none => return fs

/-- The files that a command looks at. -/
def survey (command : Command) : IO Files := do
  let fs := Files.ofDirectory (toString (← IO.currentDir))
  match command with
  | .start source _ stateOut _ => visit false stateOut (← visit true source fs)
  | .play source _ stateFile _ _ => visit false stateFile (← visit true source fs)
  | .choose stateIn _ stateOut =>
    let fs ← visit false stateOut (← visit false stateIn fs)
    match Saved.read fs stateIn with
    | .ok saved =>
      visit false (String.ofList ((Text.after? Book.scheme.toList saved.storyId.toList).getD [])) fs
    | .error _ => return fs

/-- Writes the files that were changed. -/
def commit (before after : Files) : IO (Except Failure Unit) := do
  try
    for (place, text) in Files.changes before after do
      IO.FS.createDirAll (pathOf place.dropLast)
      IO.FS.writeFile (pathOf place) text
    return .ok ()
  catch e => return .error (.stateUnwritable (.system (toString e)))

/-- What the clock says. -/
def clock : IO String := do
  return Text.decimal (← IO.monoNanosNow)

/-- Writes a text at once. -/
def put (text : String) : IO Unit := do
  IO.print text
  (← IO.getStdout).flush

def report (f : Failure) : IO UInt32 := do
  put (Lines.written f.lines)
  return 1

/-- Plays on from a turn until the reader stops. -/
partial def converse (c : Context) (before : Files) (t : Lines.Turn) : IO UInt32 := do
  if let .error f ← commit before t.files then return ← report f
  put (Lines.written t.output)
  match t.ending with
  | some (.ok _) => return 0
  | some (.error f) => report f
  | none =>
    put Lines.prompt
    let line ← (← IO.getStdin).getLine
    if line.isEmpty then return 0
    let files ← visit false c.stateFile t.files
    converse c files
      (Lines.respond c t.session files (Lines.withoutEnd line.toList) (← clock))

def run (command : Command) : IO UInt32 := do
  let files ← survey command
  let now ← clock
  match command with
  | .play source entry stateFile seed _ =>
    match Command.openBook files source entry stateFile seed now with
    | .error f => report f
    | .ok (c, session, b) => converse c files (Lines.arrive session files (Lines.greeting c) b)
  | command =>
    let o := command.run now (fun _ => now) files ""
    if let .error f ← commit files o.files then return ← report f
    put o.output
    return o.exit.toUInt32

end Tale.Program

/-- Runs the command that the arguments give. -/
def main (arguments : List String) : IO UInt32 := do
  match Tale.Player.Arguments.parse arguments with
  | .ok command => Tale.Program.run command
  | .error .helpWanted =>
    IO.println Tale.Program.usage
    return 0
  | .error .misused =>
    IO.eprintln Tale.Program.usage
    return 2
