import Tale.Language.Token
import Tale.Text.Blank

/-!
# Names between blanks

Section headers and references to variables both hold a name with blanks around it.
-/

namespace Tale.Document

/-- The rest of a text after one blank or more. -/
def blanks? (s : List Char) : Option (List Char) :=
  match s with
  | c :: cs => if Text.isBlank c then some (cs.dropWhile Text.isBlank) else none
  | [] => none

/-- A name at the head of a text, and the rest. -/
def name? (s : List Char) : Option (List Char × List Char) :=
  match s with
  | c :: cs =>
    if Token.isNameStart c then
      some (c :: cs.takeWhile Token.isNamePart, cs.dropWhile Token.isNamePart)
    else none
  | [] => none

end Tale.Document
