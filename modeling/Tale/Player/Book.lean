import Tale.Player.Failure

/-!
# Books

A book is a story's text together with its title and a reference by which it is found again. It is
opened from a file, or from a directory that holds the file somewhere below.
-/

namespace Tale.Player

structure Book where
  id : String
  title : String
  source : String
  deriving DecidableEq, Repr

namespace Book

/-- What a reference begins with; the path of the story's file follows. -/
def scheme : String := "wtcd-file:"

/-- The ending of a story's file, after its dot. -/
def kind : String := "wtcd"

/-- The book of a story's file. -/
def ofFile (fs : Files) (path : String) : Except Failure Book :=
  if !fs.isFile path then .error (.storyNotFound path)
  else
    match fs.read path with
    | .error e => .error (.storyUnreadable e)
    | .ok source => .ok ⟨scheme ++ path, Path.stem (Path.fileName path), source⟩

/-- The file of a name that is least deep below a directory. -/
def findEntry (fs : Files) (directory entry : String) : Except Failure String :=
  let name := entry ++ "." ++ kind
  let stories := (fs.below directory).filter fun names =>
    (names.getLast?.bind Path.kind?) == some kind
  if stories.isEmpty then .error (.noStories directory)
  else
    match (stories.mergeSort fun a b => a.length ≤ b.length).find? (·.getLast? == some name) with
    | some names => .ok (names.foldl Path.join directory)
    | none => .error (.entryNotFound name directory)

/-- The book that a file or directory holds. -/
def ofSource (fs : Files) (source : String) (entry : Option String) : Except Failure Book := do
  let path := Path.join fs.workingDirectory source
  if !fs.holds path then throw (.sourceNotFound path)
  else if fs.isDirectory path then ofFile fs (← findEntry fs path (entry.getD "main"))
  else ofFile fs path

/-- The book that a reference names. -/
def ofReference (fs : Files) (reference : String) : Except Failure Book :=
  match Text.after? scheme.toList reference.toList with
  | some path => ofFile fs (String.ofList path)
  | none => .error (.reference reference)

end Book

end Tale.Player
