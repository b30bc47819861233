import Tale.Language.Location
import Tale.Language.Operator

/-!
# Tokens

The words of the language. The content of a string is what it means, with quotes and escapes
taken off, and that of a tag comes without its number sign; all other tokens are as written.
-/

namespace Tale

inductive TokenKind
  | identifier
  | keyword
  | operator
  | punctuation
  | string
  | number
  | tag
  deriving DecidableEq, Repr, Inhabited

def TokenKind.name : TokenKind → String
  | identifier => "identifier"
  | keyword => "keyword"
  | operator => "operator"
  | punctuation => "punctuation"
  | string => "string"
  | number => "number"
  | tag => "tag"

structure Token where
  kind : TokenKind
  content : String
  location : Location
  deriving DecidableEq, Repr, Inhabited

namespace Token

/-- Words that are no identifiers. The last eight have no meaning yet. -/
def keywords : List String :=
  ["declare", "section", "then", "goto", "null", "true", "false", "number", "boolean", "string",
    "action", "choice", "selection", "yield", "exit", "function", "return", "switch", "while",
    "do", "continue", "break", "if", "else", "list",
    "for", "in", "of", "enum", "dict", "dictionary", "const", "mixed"]

def isNameStart (c : Char) : Bool :=
  ('a' ≤ c && c ≤ 'z') || ('A' ≤ c && c ≤ 'Z') || c == '_'

def isNamePart (c : Char) : Bool :=
  isNameStart c || Text.isDigit c

def isOperatorChar (c : Char) : Bool :=
  "+-*/^&|=><!?:%~.".toList.contains c

def isPunctuation (c : Char) : Bool :=
  ['[', ']', '(', ')', '\x7b', '\x7d', '$'].contains c

def isQuote (c : Char) : Bool :=
  c == '"' || c == '\'' || c == '\x60'

/-- What a backslash and a character mean in a string. -/
def unescape? (c : Char) : Option Char :=
  if c = 'n' then some '\n'
  else if c = 't' then some '\t'
  else if isQuote c || c == '\\' then some c
  else none

/-- A token as messages name it. -/
def describe (t : Token) : String :=
  t.kind.name ++ " \"" ++ t.content ++ "\""

end Token

end Tale
