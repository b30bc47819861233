import Tale.Language.ValueType
import Tale.Library.Name

/-!
# Names in sight

While a document is read, a stack of scopes tells which names and registers can be used. A name
that is looked up through the scope of a function, and not declared in it, is a capture of that
function; captures are kept in the order of their first use.
-/

namespace Tale

/-- The names and registers of one block, loop or function. -/
structure LexicalScope where
  declared : List String := []
  registers : List Register := []
  /-- Only the scope of a function has captures. -/
  captures : Option (List String) := none
  deriving DecidableEq, Repr, Inhabited

/-- Adds a capture once. -/
def LexicalScope.capture (s : LexicalScope) (name : String) : LexicalScope :=
  { s with captures := s.captures.map fun cs => if cs.contains name then cs else cs ++ [name] }

/-- The scopes around a point of a document, innermost first. -/
abbrev LexicalScopes := List LexicalScope

namespace LexicalScopes

/-- The scope of the library and, inside it, the scope of the document. -/
def initial : LexicalScopes :=
  [{}, { declared := Library.names }]

def enter (ss : LexicalScopes) : LexicalScopes :=
  {} :: ss

def enterFunction (ss : LexicalScopes) : LexicalScopes :=
  { registers := [.return], captures := some [] } :: ss

def exit (ss : LexicalScopes) : LexicalScopes :=
  ss.tail

/-- What the innermost scope captured. -/
def captures (ss : LexicalScopes) : List String :=
  (ss.head?.bind LexicalScope.captures).getD []

def declare (name : String) : LexicalScopes → LexicalScopes
  | [] => []
  | s :: ss => { s with declared := name :: s.declared } :: ss

def declareAll (names : List String) (ss : LexicalScopes) : LexicalScopes :=
  names.foldl (fun ss n => ss.declare n) ss

def addRegister (r : Register) : LexicalScopes → LexicalScopes
  | [] => []
  | s :: ss => { s with registers := r :: s.registers } :: ss

/-- Whether the innermost scope declares a name. -/
def declaresHere (ss : LexicalScopes) (name : String) : Bool :=
  ss.head?.any (·.declared.contains name)

def hasRegister (ss : LexicalScopes) (r : Register) : Bool :=
  ss.any (·.registers.contains r)

/-- Looks a name up from the innermost scope outwards. Each function scope on the way captures
it. -/
def resolve (name : String) : LexicalScopes → Bool × LexicalScopes
  | [] => (false, [])
  | s :: ss =>
    if s.declared.contains name then (true, s :: ss)
    else
      let (found, ss) := resolve name ss
      (found, s.capture name :: ss)

end LexicalScopes

end Tale
