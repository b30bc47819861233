import Tale.Language.Lexer
import Tale.Language.Scope

/-!
# Reading tokens

A parser takes tokens off the front of what is left to read, and keeps track of the names in sight
and of the sections that were named as targets. It stops at the first error.
-/

namespace Tale

/-- What a parser works on. -/
structure Reading where
  tokens : List Token
  ending : Except SourceError Location
  /-- Whether the tree keeps the places of its parts. -/
  mapped : Bool
  scopes : LexicalScopes := .initial
  /-- The names given as targets, the latest first. -/
  targets : List Token := []

abbrev Parser := StateT Reading (Except SourceError)

namespace Parser

variable {α : Type}

def fail (cause : SourceError.Cause) (location : Option Location) : Parser α :=
  throw ⟨cause, location⟩

/-- An error at a token. -/
def failAt (t : Token) (cause : SourceError.Cause) : Parser α :=
  fail cause (some t.location)

def exhausted : Parser α :=
  fail .exhausted none

/-- The place where the text ends. -/
def endLocation : Parser (Option Location) := do
  return (← get).ending.toOption

def peek? : Parser (Option Token) := do
  return (← get).tokens.head?

/-- What comes next is not what is needed. -/
def unexpected (expected : String) : Parser α := do
  match ← peek? with
  | some t => failAt t (.token t.kind t.content expected)
  | none => fail (.character none (some expected)) (← endLocation)

/-- Takes a token. The one after it has to be readable. -/
def next : Parser Token := do
  let r ← get
  match r.tokens with
  | [] => fail .ended (← endLocation)
  | [t] =>
    match r.ending with
    | .error e => throw e
    | .ok _ =>
      set { r with tokens := [] }
      return t
  | t :: ts =>
    set { r with tokens := ts }
    return t

/-- Whether a token of a kind and content comes next. -/
def sees (kind : TokenKind) (content : String) : Parser Bool := do
  return (← peek?).any fun t => t.kind == kind && t.content == content

/-- Takes a token of a kind. -/
def take (kind : TokenKind) : Parser Token := do
  if (← peek?).any (·.kind == kind) then next else unexpected kind.name

/-- Takes a token of a kind and content. -/
def expect (kind : TokenKind) (content : String) : Parser Token := do
  if ← sees kind content then next else unexpected (kind.name ++ " " ++ Text.inQuotes content)

/-- Takes a token of a kind and content if it comes next. -/
def accept (kind : TokenKind) (content : String) : Parser Bool := do
  if ← sees kind content then
    let _ ← next
    return true
  return false

def seesClose : Parser Bool :=
  sees .punctuation "]"

/-- The place of a token, if places are kept. -/
def located (t : Token) : Parser (Option Location) := do
  return if (← get).mapped then some t.location else none

/-- One item after the other while there are more. -/
def repeatWhile (more : Parser Bool) (item : Parser α) (turns : Nat) : Parser (List α) := do
  if !(← more) then return []
  match turns with
  | 0 => exhausted
  | n + 1 =>
    let a ← item
    return a :: (← repeatWhile more item n)

/-- Items up to a closing token, which stays. -/
def upTo (close : String) (item : Parser α) (turns : Nat) : Parser (List α) :=
  repeatWhile (do return !(← sees .punctuation close)) item turns

def modifyScopes (f : LexicalScopes → LexicalScopes) : Parser Unit :=
  modify fun r => { r with scopes := f r.scopes }

/-- Reads inside a scope of its own. -/
def inScope (register : Register) (p : Parser α) : Parser α := do
  modifyScopes fun ss => ss.enter.addRegister register
  let a ← p
  modifyScopes .exit
  return a

/-- Reads a function, and returns also what it captured. -/
def inFunction (p : Parser α) : Parser (α × List String) := do
  modifyScopes .enterFunction
  let a ← p
  let captures := (← get).scopes.captures
  modifyScopes .exit
  return (a, captures)

/-- Looks a name up. -/
def resolve (name : String) : Parser Bool := do
  let r ← get
  let (found, scopes) := r.scopes.resolve name
  set { r with scopes }
  return found

end Parser

end Tale
