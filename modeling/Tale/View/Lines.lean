import Tale.Text.Blank
import Tale.Text.Markup

/-!
# HTML as lines

A reader without a browser gets one line for each block of the HTML. The ends of blocks break the
line, a rule becomes a line of its own, items and cells are marked, and all other tags go. The
entities are read back last.
-/

namespace Tale.View

/-- The elements whose end is the end of a line. -/
def blockNames : List (List Char) :=
  ["p", "h1", "h2", "h3", "h4", "h5", "h6", "li", "tr", "ul", "ol", "table", "div",
    "blockquote"].map String.toList

/-- Whether a character is a given small letter, in either case. The Kelvin sign is a case of
`k`. -/
def isLetter (letter c : Char) : Bool :=
  c == letter || c == letter.toUpper || (letter == 'k' && c.toNat == 0x212a)

/-- What follows a word of small letters, written in any case. -/
def afterWord? : (word s : List Char) → Option (List Char)
  | [], s => some s
  | _ :: _, [] => none
  | w :: ws, c :: cs => if isLetter w c then afterWord? ws cs else none

/-- The rest after the end of a block, if the text begins with one. -/
def afterBlockEnd? (s : List Char) : Option (List Char) := do
  let s ← Text.after? ['<', '/'] s
  blockNames.findSome? fun name => (afterWord? name s).bind (Text.after? ['>'])

/-- The rest after an empty element of a name. -/
def afterEmpty? (name s : List Char) : Option (List Char) := do
  let s ← Text.after? ['<'] s
  let s ← afterWord? name s
  let s := s.dropWhile Text.isBlank
  Text.after? ['>'] ((Text.after? ['/'] s).getD s)

/-- What breaks the line at the head of a text: the text it becomes, and its length. -/
def lineBreak? (s : List Char) : Option (List Char × Nat) :=
  match afterEmpty? ['h', 'r'] s with
  | some rest => some ("\n---\n".toList, s.length - rest.length)
  | none =>
    match afterBlockEnd? s <|> afterEmpty? ['b', 'r'] s with
    | some rest => some (['\n'], s.length - rest.length)
    | none => none

def breakLinesFrom : (skip : Nat) → List Char → List Char
  | _, [] => []
  | skip + 1, _ :: cs => breakLinesFrom skip cs
  | 0, c :: cs =>
    match lineBreak? (c :: cs) with
    | some (text, width) => text ++ breakLinesFrom (width - 1) cs
    | none => c :: breakLinesFrom 0 cs

/-- The text with line breaks in place of what ends a block. -/
def breakLines (s : List Char) : List Char :=
  breakLinesFrom 0 s

/-- Items get a dash, and cells a bar. -/
def markItems (s : List Char) : List Char :=
  let s := Text.replaceAll "<li>".toList "- ".toList s
  let s := Text.replaceAll "</th>".toList " | ".toList s
  Text.replaceAll "</td>".toList " | ".toList s

/-- The text without tags; `inside` while a tag is being left out. An angle bracket that nothing
closes is no tag. -/
def stripTagsFrom : (inside : Bool) → List Char → List Char
  | _, [] => []
  | true, c :: cs => stripTagsFrom (c != '>') cs
  | false, c :: cs =>
    if c == '<' && cs.contains '>' then stripTagsFrom true cs else c :: stripTagsFrom false cs

def stripTags (s : List Char) : List Char :=
  stripTagsFrom false s

/-- One line as it is shown. -/
def tidyLine (l : List Char) : List Char :=
  Text.unescape (Text.trimEnd (Text.dropEndWhile (· == '|') (Text.trim l)))

/-- The lines of HTML; a line without text does not count. -/
def htmlLines (html : String) : List String :=
  let stripped := stripTags (markItems (breakLines html.toList))
  let lines := (Text.lines stripped).map tidyLine
  (lines.filter (!·.isEmpty)).map String.ofList

end Tale.View
