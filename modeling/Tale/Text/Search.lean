/-!
# Finding and replacing

Occurrences are looked for from left to right, and none overlaps the one before it. `pieces` cuts
a text at each occurrence of a separator, `replaceAll` puts another text in place of each, and
`replaceFirst` in place of the first one only.

An empty pattern occurs before every character and at the end.
-/

namespace Tale.Text

/-- What follows `pat` in a text that begins with it. -/
def after? : (pat s : List Char) → Option (List Char)
  | [], s => some s
  | _ :: _, [] => none
  | p :: ps, c :: cs => if p = c then after? ps cs else none

/-- Replaces from the `skip`-th character on; the characters before it belong to an occurrence
already replaced. -/
def replaceFrom (pat new : List Char) : (skip : Nat) → List Char → List Char
  | _, [] => if pat.isEmpty then new else []
  | skip + 1, _ :: cs => replaceFrom pat new skip cs
  | 0, c :: cs =>
    if pat.isEmpty then new ++ c :: replaceFrom pat new 0 cs
    else if pat.isPrefixOf (c :: cs) then new ++ replaceFrom pat new (pat.length - 1) cs
    else c :: replaceFrom pat new 0 cs

/-- The text with `new` in place of every occurrence of `pat`. -/
def replaceAll (pat new s : List Char) : List Char :=
  replaceFrom pat new 0 s

/-- The text with `new` in place of the first occurrence of `pat`, if there is one. -/
def replaceFirst (pat new : List Char) : List Char → List Char
  | [] => if pat.isEmpty then new else []
  | c :: cs =>
    match after? pat (c :: cs) with
    | some rest => new ++ rest
    | none => c :: replaceFirst pat new cs

/-- The pieces between the characters `sep`; a text without one is its only piece. -/
def splitAtChar (sep : Char) : List Char → List (List Char)
  | [] => [[]]
  | c :: cs =>
    if c = sep then [] :: splitAtChar sep cs
    else
      match splitAtChar sep cs with
      | [] => [[c]]
      | p :: ps => (c :: p) :: ps

/-- What stands before and after the last `sep` of a text. -/
def splitLast? (sep : Char) : List Char → Option (List Char × List Char)
  | [] => none
  | c :: cs =>
    match splitLast? sep cs with
    | some (before, after) => some (c :: before, after)
    | none => if c = sep then some ([], cs) else none

/-- Cuts from the `skip`-th character on; `word` is the piece begun, read backwards. -/
def piecesFrom (sep : List Char) :
    (skip : Nat) → (word : List Char) → List Char → List (List Char)
  | _, word, [] => [word.reverse]
  | skip + 1, word, _ :: cs => piecesFrom sep skip word cs
  | 0, word, c :: cs =>
    if sep.isPrefixOf (c :: cs) then
      word.reverse :: piecesFrom sep (sep.length - 1) [] cs
    else piecesFrom sep 0 (c :: word) cs

/-- The pieces between the occurrences of a separator that is not empty. -/
def pieces (sep s : List Char) : List (List Char) :=
  piecesFrom sep 0 [] s

/-- Whether `pat` occurs in the text. -/
def occurs (pat : List Char) : List Char → Bool
  | [] => pat.isEmpty
  | c :: cs => pat.isPrefixOf (c :: cs) || occurs pat cs

/-- The lines of a text: a line feed ends a line, together with a carriage return right before
it, and a last line that is empty does not count. -/
def lines (s : List Char) : List (List Char) :=
  let all := splitAtChar '\n' s
  let ended := if all.getLast? == some [] then all.dropLast else all
  let strip (l : List Char) := if l.getLast? == some '\r' then l.dropLast else l
  ended.map strip

end Tale.Text
