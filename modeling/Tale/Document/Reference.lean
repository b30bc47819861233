import Tale.Document.Name
import Tale.Language.SourceError
import Tale.Text.Search

/-!
# References in contents

Contents refer to a variable as `<$ name $>`, which reaches this module with its angle brackets
escaped. Each reference becomes an empty span of a class of its own, so that the value can be put
in when the contents are shown.
-/

namespace Tale.Document

/-- The span that stands for a variable. -/
structure Placeholder where
  elementClass : String
  variableName : String
  deriving DecidableEq, Repr, Inhabited

/-- The letters of the span names, in order. -/
def alphabet : List Char :=
  "abcdefghijklmnopqrstuvwxyzABCDEFGHIJKLMNOPQRSTUVWXYZ1234567890".toList

/-- The `n`-th name, by length and then by the order of the alphabet, counted from 0. -/
def idChars (n : Nat) : List Char :=
  if 62 ≤ n then idChars (n / 62 - 1) ++ [alphabet.getD (n % 62) 'a'] else [alphabet.getD n 'a']
termination_by n
decreasing_by omega

def id (n : Nat) : String :=
  String.ofList (idChars n)

/-- The class of the `n`-th span of a document. -/
def spanClass (n : Nat) : String :=
  "wtcd-variable-" ++ id n

/-- An empty span. -/
def emptySpan (elementClass : String) : String :=
  "<span class=\"" ++ elementClass ++ "\"></span>"

/-- A character of contents, or a reference in them. -/
inductive Piece
  | char (c : Char)
  | reference (name : String)
  deriving DecidableEq, Repr, Inhabited

/-- The reference at the head of a text: its name, and the number of its characters. -/
def reference? (s : List Char) : Option (List Char × Nat) := do
  let rest ← Text.after? "&lt;$".toList s
  let rest ← blanks? rest
  let (name, rest) ← name? rest
  let rest ← blanks? rest
  let rest ← Text.after? "$&gt;".toList rest
  return (name, s.length - rest.length)

/-- The pieces of contents, of which the first `skip` characters belong to a reference already
read. -/
def piecesFrom : (skip : Nat) → List Char → List Piece
  | _, [] => []
  | skip + 1, _ :: cs => piecesFrom skip cs
  | 0, c :: cs =>
    match reference? (c :: cs) with
    | some (name, width) => .reference (String.ofList name) :: piecesFrom (width - 1) cs
    | none => .char c :: piecesFrom 0 cs

/-- Contents with a span for each reference, numbered from `next` on. -/
def fill (fullName : String) (declared : List String) :
    (next : Nat) → List Piece → Except SourceError (List Char × List Placeholder)
  | _, [] => .ok ([], [])
  | next, .char c :: ps => do
    let (html, vars) ← fill fullName declared next ps
    return (c :: html, vars)
  | next, .reference name :: ps => do
    if !declared.contains name then throw ⟨.reference name fullName, none⟩
    let elementClass := spanClass next
    let (html, vars) ← fill fullName declared (next + 1) ps
    return ((emptySpan elementClass).toList ++ html, ⟨elementClass, name⟩ :: vars)

/-- Contents with spans in place of references, and what the spans stand for. -/
def parameterize (html : String) (fullName : String) (declared : List String) (next : Nat) :
    Except SourceError (String × List Placeholder) := do
  let (html, vars) ← fill fullName declared next (piecesFrom 0 html.toList)
  return (String.ofList html, vars)

end Tale.Document
