import Tale.Text.Blank
import Tale.Text.Markup
import Tale.Text.Numeral
import Tale.Text.Search

/-!
# Paragraphs

The little markdown that contents are written in: blocks between empty lines are paragraphs, a
block that begins with one to six number signs and a space is a heading, and a block of three or
more dashes or stars is a rule. All text is escaped.
-/

namespace Tale.Document

/-- The lines of a block, trimmed and joined by spaces. -/
def joinLines (block : List Char) : List Char :=
  [' '].intercalate ((Text.lines block).map Text.trim)

def element (tag : List Char) (body : List Char) : List Char :=
  '<' :: tag ++ '>' :: body ++ '<' :: '/' :: tag ++ ['>']

/-- The HTML of one block. -/
def renderBlock (block : List Char) : List Char :=
  let block := Text.trim block
  if block.isEmpty then []
  else
    let level := (block.takeWhile (· == '#')).length
    let text := joinLines block
    let body := text.drop level
    if 1 ≤ level ∧ level ≤ 6 ∧ body.head? = some ' ' then
      element ('h' :: Text.digits level) (Text.escape (Text.trim body))
    else if block.all (fun c => c == '-' || c == '*') && 3 ≤ block.length then "<hr>".toList
    else element ['p'] (Text.escape text)

/-- The HTML of contents. -/
def renderParagraphs (markdown : String) : String :=
  String.ofList ((Text.pieces ['\n', '\n'] markdown.toList).flatMap renderBlock)

end Tale.Document
