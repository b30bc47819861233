import Tale.Text.Search

/-!
# Paths

A path is a text of names divided by slashes. One that begins with a slash is absolute; any other
starts from a directory.
-/

namespace Tale.Path

def isAbsolute (path : String) : Bool :=
  path.toList.head? == some '/'

/-- A path as it is meant in a directory. -/
def join (directory path : String) : String :=
  if isAbsolute path then path
  else if directory.isEmpty || directory.toList.getLast? == some '/' then directory ++ path
  else directory ++ "/" ++ path

/-- The names of a path. A slash at an end, or right after another, has an empty name beside
it. -/
def names (path : String) : List String :=
  (Text.splitAtChar '/' path.toList).map String.ofList

/-- The directories that a path leads through on its way to its last name, without the names that
lead nowhere. -/
def directories (path : String) : List String :=
  ((names path).filter fun n => n ≠ "" ∧ n ≠ ".").dropLast

/-- The last name of a path. -/
def fileName (path : String) : String :=
  match Text.splitLast? '/' path.toList with
  | some (_, name) => String.ofList name
  | none => path

/-- A name in two parts, divided by its last dot. A dot in front does not divide. -/
def splitName (name : String) : String × Option String :=
  match Text.splitLast? '.' name.toList with
  | none | some ([], _) => (name, none)
  | some (stem, kind) => (String.ofList stem, some (String.ofList kind))

/-- A name without what follows its last dot. -/
def stem (name : String) : String :=
  (splitName name).1

/-- What follows the last dot of a name. -/
def kind? (name : String) : Option String :=
  (splitName name).2

end Tale.Path
