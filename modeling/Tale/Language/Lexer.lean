import Tale.Language.SourceError
import Tale.Text.Search

/-!
# From text to tokens

`Lexeme.read` reads what stands at the head of a text: a blank, a comment or a token. It says how
many characters after the first one belong to it, so that reading on always takes a character or
more, and `Tokens.scan` needs no other bound than the text itself.

A text may stop being readable in the middle. `Tokens` then holds the tokens up to there, and why
there are no more.
-/

namespace Tale

/-- A text with what is left to read of it. -/
structure Cursor where
  location : Location
  rest : List Char
  deriving Repr, Inhabited

namespace Cursor

/-- All line breaks count as line feeds. -/
def ofText (s : String) : Cursor :=
  ⟨.start, Text.replaceAll ['\r'] ['\n'] (Text.replaceAll ['\r', '\n'] ['\n'] s.toList)⟩

def skip (k : Cursor) (n : Nat) : Cursor :=
  ⟨k.location.past (k.rest.take n), k.rest.drop n⟩

end Cursor

/-- Why nothing can be read, and after how many characters. -/
structure Misread where
  cause : SourceError.Cause
  offset : Nat
  deriving Repr, Inhabited

/-- What stands at the head of a text: a gap between tokens, or a token. -/
inductive Lexeme
  | gap
  | token (kind : TokenKind) (content : List Char)
  deriving DecidableEq, Repr, Inhabited

namespace Lexeme

/-- The length of what is left of a block comment, its end included. A star takes the character
after it along, so an end is only seen where an even number of stars precedes its own. -/
def blockComment : List Char → Option Nat
  | [] => none
  | ['*'] => none
  | '*' :: c :: cs => if c = '/' then some 2 else (blockComment cs).map (· + 2)
  | _ :: cs => (blockComment cs).map (· + 1)

/-- The length of what is left of a line comment, its line break included. -/
def lineComment : List Char → Nat
  | [] => 0
  | c :: cs => if c = '\n' then 1 else lineComment cs + 1

/-- The rest of a number, which may have one dot in all; else the offset of the second one. -/
def numberTail (dot : Bool) : List Char → Except Nat (List Char)
  | [] => .ok []
  | c :: cs =>
    if Text.isDigit c then
      match numberTail dot cs with
      | .ok ds => .ok (c :: ds)
      | .error n => .error (n + 1)
    else if c = '.' then
      if dot then .error 0
      else
        match numberTail true cs with
        | .ok ds => .ok (c :: ds)
        | .error n => .error (n + 1)
    else .ok []

/-- What a string means after its opening quote, and its length, closing quote included. -/
def stringTail (quote : Char) : List Char → Except Misread (List Char × Nat)
  | [] => .error ⟨.character none (some quote.toString), 0⟩
  | c :: cs =>
    if c = quote then .ok ([], 1)
    else if c = '\\' then
      match cs with
      | [] => .error ⟨.unescapable none, 1⟩
      | d :: ds =>
        match Token.unescape? d with
        | none => .error ⟨.unescapable (some d), 1⟩
        | some e =>
          match stringTail quote ds with
          | .ok (s, n) => .ok (e :: s, n + 2)
          | .error m => .error { m with offset := m.offset + 2 }
    else
      match stringTail quote cs with
      | .ok (s, n) => .ok (c :: s, n + 1)
      | .error m => .error { m with offset := m.offset + 1 }

/-- What begins with `c` and goes on in `cs`, and the number of characters it takes of `cs`. -/
def read (c : Char) (cs : List Char) : Except Misread (Lexeme × Nat) :=
  if c = ' ' ∨ c = '\t' ∨ c = '\n' then .ok (.gap, 0)
  else if c = '/' ∧ cs.head? = some '*' then
    match blockComment cs.tail with
    | some n => .ok (.gap, n + 1)
    | none => .error ⟨.character none none, cs.length + 1⟩
  else if c = '/' ∧ cs.head? = some '/' then .ok (.gap, lineComment cs)
  else if Token.isNameStart c then
    let name := c :: cs.takeWhile Token.isNamePart
    let kind := if Token.keywords.contains (String.ofList name) then .keyword else .identifier
    .ok (.token kind name, name.length - 1)
  else if Text.isDigit c || (c == '.' && cs.head?.any Text.isDigit) then
    match numberTail (c == '.') cs with
    | .ok ds => .ok (.token .number (c :: ds), ds.length)
    | .error n => .error ⟨.character (some '.') (some "number"), n + 1⟩
  else if Token.isOperatorChar c then
    let symbol := c :: cs.takeWhile Token.isOperatorChar
    if isOperator (String.ofList symbol) then .ok (.token .operator symbol, symbol.length - 1)
    else .error ⟨.unknownOperator (String.ofList symbol), 0⟩
  else if Token.isPunctuation c then .ok (.token .punctuation [c], 0)
  else if Token.isQuote c then
    match stringTail c cs with
    | .ok (s, n) => .ok (.token .string s, n)
    | .error m => .error { m with offset := m.offset + 1 }
  else if c = '#' then
    let name := cs.takeWhile Token.isNamePart
    .ok (.token .tag name, name.length)
  else .error ⟨.character (some c) none, 0⟩

end Lexeme

/-- Tokens, and how they end: at the end of the text, or where it can no longer be read. -/
structure Tokens where
  tokens : List Token
  ending : Except SourceError Location
  deriving Inhabited

namespace Tokens

def cons (t : Token) (ts : Tokens) : Tokens :=
  { ts with tokens := t :: ts.tokens }

theorem skip_rest_lt {k : Cursor} {c : Char} {cs : List Char} (h : k.rest = c :: cs) (n : Nat) :
    (k.skip (n + 1)).rest.length < k.rest.length := by
  simp only [Cursor.skip, h, List.drop_succ_cons, List.length_drop, List.length_cons]
  omega

/-- All tokens from a cursor on. -/
def scan (k : Cursor) : Tokens :=
  match _ : k.rest with
  | [] => ⟨[], .ok k.location⟩
  | c :: cs =>
    match Lexeme.read c cs with
    | .error m => ⟨[], .error ⟨m.cause, some (k.skip m.offset).location⟩⟩
    | .ok (.gap, n) => scan (k.skip (n + 1))
    | .ok (.token kind content, n) =>
      cons ⟨kind, String.ofList content, k.location⟩ (scan (k.skip (n + 1)))
termination_by k.rest.length
decreasing_by all_goals exact skip_rest_lt ‹_› _

def ofText (s : String) : Tokens :=
  scan (.ofText s)

/-- The tokens that can be taken: one whose successor cannot be read cannot be taken either. -/
def taken (ts : Tokens) : List Token :=
  match ts.ending with
  | .ok _ => ts.tokens
  | .error _ => ts.tokens.dropLast

end Tokens

end Tale
