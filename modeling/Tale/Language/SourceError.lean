import Tale.Language.Token
import Tale.Language.ValueType
import Tale.Text.Listing

/-!
# Errors in documents

Why a text is no document. Each cause has its wording in `SourceError.Cause.text`; the message
adds where it was met, which is known for all causes but those of section contents.
-/

namespace Tale

namespace SourceError

inductive Cause
  /-- A character, or none at the end of the text, where something else is needed. -/
  | character (found : Option Char) (expected : Option String)
  | unknownOperator (symbol : String)
  | unescapable (found : Option Char)
  /-- A token where something else is needed. -/
  | token (kind : TokenKind) (content : String) (expected : String)
  /-- A token was asked for at the end of the text. -/
  | ended
  | version (content : String)
  | sectionRepeated (name : String)
  | sectionUnknown (name : String)
  | variableRepeated (name : String)
  | variableUnknown (name : String)
  | registerUnknown (register : Register)
  | unaryOperator (symbol : String)
  | parameterRepeated (name : String)
  /-- The contents of a section refer to a name that the document does not declare. -/
  | reference (name : String) («section» : String)
  | bound (bound : String) («section» : String)
  | contentUnclaimed («section» : String)
  /-- The reader stopped before it was through; a document always leaves it steps enough. -/
  | exhausted
  deriving DecidableEq, Repr, Inhabited

/-- A character as messages name it. -/
def describeChar : Option Char → String
  | none => "<EOF>"
  | some c =>
    if c = '\t' then "<TAB>" else if c = '\n' then "<LF>" else Text.inQuotes c.toString

def expecting : Option String → String
  | none => ""
  | some e => ", expecting " ++ e

def Cause.text : Cause → String
  | character found expected => "Unexpected character " ++ describeChar found ++ expecting expected
  | unknownOperator s => "Unknown operator: " ++ Text.inQuotes s
  | unescapable found => "Unescapable character " ++ describeChar found
  | token kind content expected =>
    "Unexpected token " ++ kind.name ++ " " ++ Text.inQuotes content ++ expecting (some expected)
  | ended => "Unexpected <EOF>"
  | version s => "Invalid WTCD version " ++ s
  | sectionRepeated s => "Cannot redefine section " ++ Text.inQuotes s
  | sectionUnknown s => "Unknown section " ++ Text.inQuotes s
  | variableRepeated s =>
    "Variable " ++ Text.inQuotes s ++ " has already been declared within the same lexical scope"
  | variableUnknown s => "Cannot locate lexical scope for variable " ++ Text.inQuotes s
  | registerUnknown r => "Cannot locate lexical scope for " ++ r.name ++ " register"
  | unaryOperator s => "Invalid unary operator: " ++ s
  | parameterRepeated s => "Argument " ++ Text.inQuotes s ++ " already existed."
  | reference s t =>
    "Cannot resolve variable reference " ++ Text.inQuotes s ++ " in section " ++ Text.inQuotes t
  | bound s t => "Invalid bound " ++ Text.inQuotes s ++ " of section content " ++ t
  | contentUnclaimed s => "Cannot find a logic declaration for section content " ++ s
  | exhausted => "Document too deep"

/-- Whether the words themselves are wrong, or what they say. -/
def Cause.isLexical : Cause → Bool
  | character .. | unknownOperator _ | unescapable _ | token .. | ended => true
  | _ => false

end SourceError

structure SourceError where
  cause : SourceError.Cause
  location : Option Location
  deriving DecidableEq, Repr, Inhabited

namespace SourceError

def code (e : SourceError) : String :=
  if e.cause.isLexical then "WTCD_LEX" else "WTCD_PARSE"

def message (e : SourceError) : String :=
  match e.location with
  | some l => e.cause.text ++ " at " ++ l.text ++ "."
  | none =>
    e.cause.text
      ++ " at unknown location. (Location info is not available for this type of error)"

end SourceError

end Tale
