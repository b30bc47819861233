import Tale.Files
import Tale.Script.Run

/-!
# Scripts in files

A story and its script stand in one directory.
-/

namespace Tale.Script

def fileName : String := "testcase.json"

/-- The script of a file. -/
def read (fs : Files) (path : String) : Except Failure Script :=
  match fs.read path with
  | .error _ => .error (.unreadable path)
  | .ok text =>
    match ofText? text with
    | none => .error (.malformed path)
    | some s => if s.schema = format then .ok s else .error (.format s.schema)

/-- The text of a directory's story. -/
def readStory (fs : Files) (directory entry : String) : Except Failure String :=
  let path := Path.join directory (entry ++ ".wtcd")
  if !fs.isFile path then .error (.storyNotFound directory entry)
  else (fs.read path).mapError fun _ => .unreadable path

/-- Runs a script on the story of a directory. -/
def runIn (s : Script) (fs : Files) (directory : String) : Except Failure Report := do
  s.run (← readStory fs directory s.entry)

/-- Runs the script of a file and compares what was observed with what it expects. -/
def check (fs : Files) (directory path : String) : Except Failure Unit := do
  let s ← read fs path
  s.compareWith (← s.runIn fs directory)

/-- The directories below `root` that hold a script, in the order of their names. -/
def directories (fs : Files) (root : String) : List String :=
  let found := (fs.below root).filter fun names => names.getLast? == some fileName
  (found.map (·.dropLast)).mergeSort Place.le |>.map fun names =>
    names.foldl Path.join root

end Tale.Script
