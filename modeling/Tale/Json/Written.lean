import Tale.Text.Numeral

/-!
# JSON as it is written

A value as its text spells it: the digits of a number of any size, and the code units that escapes
name, whether or not they make up characters. `Written.ofText?` holds a text to the grammar and to
nothing else, at any depth of nesting; what is written stands for a value only if it fits one.

Each reader returns what is left of the text. The number of characters bounds how often the readers
call each other.
-/

namespace Tale.Json

/-- What a text is written with: a character, or a code unit as four hexadecimal digits. -/
inductive Glyph
  | char (c : Char)
  | unit (u : Nat)
  deriving DecidableEq, Repr

/-- A number as its sign, its digits before and after the point and its power of ten. -/
structure WrittenNumber where
  negative : Bool
  whole : List Char
  fraction : Option (List Char)
  exponent : Option Int
  deriving DecidableEq, Repr

inductive Written
  | null
  | bool (b : Bool)
  | number (n : WrittenNumber)
  | text (glyphs : List Glyph)
  | arr (elements : List Written)
  | obj (members : List (List Glyph × Written))
  deriving Inhabited

namespace Written

def isSpace (c : Char) : Bool :=
  c == ' ' || c == '\n' || c == '\t' || c == '\r'

def skipSpace (s : List Char) : List Char :=
  s.dropWhile isSpace

/-- The digits at the head of a text, of which there has to be one. -/
def digits1? (s : List Char) : Option (List Char × List Char) :=
  match s.span Text.isDigit with
  | ([], _) => none
  | (ds, rest) => some (ds, rest)

/-- A power of ten after a number, if one is written. -/
def exponent? : List Char → Option (Option Int × List Char)
  | c :: rest =>
    if c = 'e' ∨ c = 'E' then
      let (negative, rest) :=
        match rest with
        | '-' :: r => (true, r)
        | '+' :: r => (false, r)
        | r => (false, r)
      (digits1? rest).map fun (ds, rest) =>
        let n : Int := Text.digitsValue ds
        (some (if negative then -n else n), rest)
    else some (none, c :: rest)
  | [] => some (none, [])

/-- The digits after a point, if one is written. -/
def fraction? : List Char → Option (Option (List Char) × List Char)
  | '.' :: rest => (digits1? rest).map fun (ds, rest) => (some ds, rest)
  | s => some (none, s)

/-- A number, which starts with a zero only if nothing else stands before its point. -/
def number? (s : List Char) : Option (WrittenNumber × List Char) := do
  let (negative, s) :=
    match s with
    | '-' :: r => (true, r)
    | r => (false, r)
  let (whole, s) ← digits1? s
  if whole.length ≠ 1 ∧ whole.head? = some '0' then none
  let (fraction, s) ← fraction? s
  let (exponent, s) ← exponent? s
  return (⟨negative, whole, fraction, exponent⟩, s)

def hexValue? (c : Char) : Option Nat :=
  if '0' ≤ c && c ≤ '9' then some (c.toNat - '0'.toNat)
  else if 'a' ≤ c && c ≤ 'f' then some (c.toNat - 'a'.toNat + 10)
  else if 'A' ≤ c && c ≤ 'F' then some (c.toNat - 'A'.toNat + 10)
  else none

/-- The code unit of four hexadecimal digits. -/
def unit? (a b c d : Char) : Option Nat := do
  let a ← hexValue? a
  let b ← hexValue? b
  let c ← hexValue? c
  let d ← hexValue? d
  return ((a * 16 + b) * 16 + c) * 16 + d

/-- The character that a letter after a backslash stands for. -/
def escape? : Char → Option Char
  | '"' => some '"'
  | '\\' => some '\\'
  | '/' => some '/'
  | 'b' => some '\x08'
  | 'f' => some '\x0c'
  | 'n' => some '\n'
  | 'r' => some '\r'
  | 't' => some '\t'
  | _ => none

/-- The rest of a text after its opening quote, behind the glyphs that are `done`, last one
first. -/
def glyphs? (done : List Glyph) : List Char → Option (List Glyph × List Char)
  | [] => none
  | '"' :: r => some (done.reverse, r)
  | '\\' :: 'u' :: a :: b :: c :: d :: r => do
    let u ← unit? a b c d
    glyphs? (.unit u :: done) r
  | '\\' :: c :: r => do
    let c ← escape? c
    glyphs? (.char c :: done) r
  | c :: r => if c.toNat < 0x20 then none else glyphs? (.char c :: done) r

mutual

def value? : (fuel : Nat) → List Char → Option (Written × List Char)
  | 0, _ => none
  | n + 1, s =>
    match s with
    | 'n' :: 'u' :: 'l' :: 'l' :: r => some (.null, r)
    | 't' :: 'r' :: 'u' :: 'e' :: r => some (.bool true, r)
    | 'f' :: 'a' :: 'l' :: 's' :: 'e' :: r => some (.bool false, r)
    | '"' :: r => (glyphs? [] r).map fun (gs, r) => (.text gs, r)
    | '[' :: r =>
      match skipSpace r with
      | ']' :: r => some (.arr [], r)
      | r => (elements? n r).map fun (xs, r) => (.arr xs, r)
    | '\x7b' :: r =>
      match skipSpace r with
      | '\x7d' :: r => some (.obj [], r)
      | r => (members? n r).map fun (ms, r) => (.obj ms, r)
    | s => (number? s).map fun (n, r) => (.number n, r)

/-- One element or more, up to the closing bracket. -/
def elements? : (fuel : Nat) → List Char → Option (List Written × List Char)
  | 0, _ => none
  | n + 1, s => do
    let (x, s) ← value? n (skipSpace s)
    match skipSpace s with
    | ']' :: r => return ([x], r)
    | ',' :: r =>
      let (xs, r) ← elements? n r
      return (x :: xs, r)
    | _ => none

/-- One member or more, up to the closing brace. -/
def members? : (fuel : Nat) → List Char → Option (List (List Glyph × Written) × List Char)
  | 0, _ => none
  | n + 1, s => do
    match skipSpace s with
    | '"' :: r =>
      let (k, r) ← glyphs? [] r
      match skipSpace r with
      | ':' :: r =>
        let (v, r) ← value? n (skipSpace r)
        match skipSpace r with
        | '\x7d' :: r => return ([(k, v)], r)
        | ',' :: r =>
          let (ms, r) ← members? n r
          return ((k, v) :: ms, r)
        | _ => none
      | _ => none
    | _ => none

end

/-- One value, with blanks around it and nothing else. -/
def ofText? (s : String) : Option Written := do
  let cs := s.toList
  let (w, rest) ← value? (cs.length + 1) (skipSpace cs)
  if (skipSpace rest).isEmpty then some w else none

end Written

end Tale.Json
