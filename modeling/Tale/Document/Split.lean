import Tale.Document.Name
import Tale.Text.Search

/-!
# The parts of a document

A document begins with its logic. After it come the contents of sections, each under a header
`---<<< name >>>---` or `---<<< name@bound >>>---` that fills the line it begins on; the blanks in
it may be line breaks.
-/

namespace Tale.Document

/-- The contents written under one header. -/
structure RawContent where
  name : String
  bound : Option String
  markdown : String
  deriving DecidableEq, Repr, Inhabited

/-- The name and bound, as the header writes them. -/
def RawContent.fullName (r : RawContent) : String :=
  match r.bound with
  | some b => r.name ++ "@" ++ b
  | none => r.name

structure Header where
  name : List Char
  bound : Option (List Char)
  /-- The number of characters of the header. -/
  width : Nat
  deriving DecidableEq, Repr, Inhabited

def isBoundChar (c : Char) : Bool :=
  Text.isDigit c || c == '-'

/-- A bound after a name, if one is written. -/
def bound? : List Char → Option (Option (List Char) × List Char)
  | '@' :: cs =>
    match cs.span isBoundChar with
    | ([], _) => none
    | (b, rest) => some (some b, rest)
  | s => some (none, s)

/-- The header at the head of a text that begins a line. -/
def header? (s : List Char) : Option Header := do
  let rest ← Text.after? "---<<<".toList s
  let rest ← blanks? rest
  let (name, rest) ← name? rest
  let (bound, rest) ← bound? rest
  let rest ← blanks? rest
  let rest ← Text.after? ">>>---".toList rest
  if rest.head?.all (· == '\n') then
    some ⟨name, bound, s.length - rest.length⟩
  else none

/-- The text up to the next header, and the contents from there on. The first `skip` characters
belong to a header already read. -/
def splitFrom : (skip : Nat) → (lineStart : Bool) → List Char → List Char × List RawContent
  | _, _, [] => ([], [])
  | skip + 1, _, c :: cs => splitFrom skip (c == '\n') cs
  | 0, lineStart, c :: cs =>
    match if lineStart then header? (c :: cs) else none with
    | some h =>
      let (text, more) := splitFrom (h.width - 1) (c == '\n') cs
      ([], ⟨String.ofList h.name, h.bound.map String.ofList, String.ofList text⟩ :: more)
    | none =>
      let (text, more) := splitFrom 0 (c == '\n') cs
      (c :: text, more)

/-- The logic of a document, and the contents of its sections. -/
def split (s : String) : String × List RawContent :=
  let (logic, contents) := splitFrom 0 true s.toList
  (String.ofList logic, contents)

end Tale.Document
