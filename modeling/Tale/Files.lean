import Tale.Files.Path
import Tale.Text.Order

/-!
# Files

Directories and text files, as a value. An entry is found at the names that lead to it from the
root; a path leads to it name by name, each but the last the name of a directory.

What was written at a path is what is read there.
-/

namespace Tale

/-- The names that lead to an entry from the root. -/
abbrev Place := List String

/-- Whether a place comes before another or is the same. -/
def Place.le : Place → Place → Bool :=
  Text.lexLE Text.nameLE

inductive Entry
  | directory
  /-- A file, with its text unless its bytes are none. -/
  | file (text : Option String)
  deriving DecidableEq, Inhabited

inductive FileError
  | notFound
  | isDirectory
  | notDirectory
  | notText
  /-- Anything else that the system reports. -/
  | system (message : String)
  deriving DecidableEq, Repr

def FileError.message : FileError → String
  | notFound => "No such file or directory"
  | isDirectory => "Is a directory"
  | notDirectory => "Not a directory"
  | notText => "The file does not hold text"
  | system message => message

structure Files where
  /-- The directory that paths start from. -/
  workingDirectory : String
  entries : List (Place × Entry)

namespace Files

def contents? (fs : Files) : Place → Option Entry
  | [] => some .directory
  | p => fs.entries.lookup p

def isDirectoryAt (fs : Files) (p : Place) : Bool :=
  fs.contents? p == some .directory

def put (fs : Files) (p : Place) (e : Entry) : Files :=
  { fs with entries := (p, e) :: fs.entries.filter (·.1 != p) }

/-- Where names lead from a place. -/
def walk (fs : Files) : Place → List String → Option Place
  | p, [] => some p
  | p, n :: ns =>
    if !fs.isDirectoryAt p then none
    else if n = "" ∨ n = "." then fs.walk p ns
    else if n = ".." then fs.walk p.dropLast ns
    else fs.walk (p ++ [n]) ns

/-- Where a path leads; the place need not hold anything. -/
def place? (fs : Files) (path : String) : Option Place :=
  if path.isEmpty then none
  else fs.walk [] (Path.names (Path.join fs.workingDirectory path))

def find? (fs : Files) (path : String) : Option Entry :=
  (fs.place? path).bind fs.contents?

def holds (fs : Files) (path : String) : Bool :=
  (fs.find? path).isSome

def isDirectory (fs : Files) (path : String) : Bool :=
  match fs.find? path with
  | some .directory => true
  | _ => false

def isFile (fs : Files) (path : String) : Bool :=
  match fs.find? path with
  | some (.file _) => true
  | _ => false

/-- The text of a file. -/
def read (fs : Files) (path : String) : Except FileError String :=
  match fs.find? path with
  | some (.file (some text)) => .ok text
  | some (.file none) => .error .notText
  | some .directory => .error .isDirectory
  | none => .error .notFound

/-- The files below a directory, each by the names that lead there from it. The names of an earlier
file come first in the order of texts. -/
def below (fs : Files) (directory : String) : List (List String) :=
  match fs.place? directory with
  | none => []
  | some p =>
    let inside : Place × Entry → Option (List String)
      | (q, .file _) => if p.isPrefixOf q then some (q.drop p.length) else none
      | _ => none
    (fs.entries.filterMap inside).mergeSort Place.le

/-- A computation that changes files. What was changed before it fails stays changed. -/
abbrev Change := EStateM FileError Files

/-- Makes the directories that names lead through from a place. -/
def makeDirectories : Place → List String → Change Unit
  | _, [] => pure ()
  | p, n :: ns => do
    if n = ".." then makeDirectories p.dropLast ns
    else
      match (← get).contents? (p ++ [n]) with
      | some .directory => makeDirectories (p ++ [n]) ns
      | some (.file _) => throw .notDirectory
      | none =>
        modify (·.put (p ++ [n]) .directory)
        makeDirectories (p ++ [n]) ns

/-- Writes an entry in place of the file at a path, if there is one. -/
def create (path : String) (e : Entry) : Change Unit := do
  let fs ← get
  match fs.place? path with
  | none => throw .notFound
  | some p =>
    match fs.contents? p with
    | some .directory => throw .isDirectory
    | _ => set (fs.put p e)

/-- Makes the directories on the way to a path. -/
def makeWay (path : String) : Change Unit := do
  let fs ← get
  makeDirectories [] (Path.directories (Path.join fs.workingDirectory path))

/-- Writes a file, together with the directories on the way to it. -/
def write (path text : String) : Change Unit := do
  makeWay path
  create path (.file (some text))

/-- A working directory that holds nothing. -/
def ofDirectory (path : String) : Files :=
  let ways := (Path.names path).filter (· ≠ "")
  { workingDirectory := path
    entries := (List.range ways.length).map fun i => (ways.take (i + 1), .directory) }

/-- The files with a text that they did not have before. -/
def changes (before after : Files) : List (Place × String) :=
  after.entries.filterMap fun (p, e) =>
    match e with
    | .file (some text) => if before.contents? p = some e then none else some (p, text)
    | _ => none

end Files

end Tale
