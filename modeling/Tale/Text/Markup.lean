import Tale.Text.Search

/-!
# Text in markup

Five characters mean something in HTML and are written as entities where they are meant as text.
`unescape` reads these entities back, and the entity of the no-break space as a plain space.
-/

namespace Tale.Text

/-- How a character is written where markup is read. -/
def entity (c : Char) : List Char :=
  if c = '&' then "&amp;".toList
  else if c = '<' then "&lt;".toList
  else if c = '>' then "&gt;".toList
  else if c = '"' then "&quot;".toList
  else if c = '\'' then "&#39;".toList
  else [c]

def escape (s : List Char) : List Char :=
  s.flatMap entity

/-- `escape` on strings. -/
def escaped (s : String) : String :=
  String.ofList (escape s.toList)

/-- The entities read back, in the order in which they are looked for. The ampersand comes last,
so that none of its texts is read twice. -/
def entities : List (List Char × List Char) :=
  [("&lt;".toList, ['<']), ("&gt;".toList, ['>']), ("&quot;".toList, ['"']),
    ("&#39;".toList, ['\'']), ("&nbsp;".toList, [' ']), ("&amp;".toList, ['&'])]

def unescape (s : List Char) : List Char :=
  entities.foldl (fun t e => replaceAll e.1 e.2 t) s

end Tale.Text
