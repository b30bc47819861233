import Tale.Language.Parser.Expression

/-!
# The logic of a document

A version, and then declarations and sections in any order. Section names are unique, and every
target of a goto is the name of a section, be it declared before or after.
-/

namespace Tale

/-- What the logic of a document says, contents apart. -/
structure Logic where
  story : Story Unit
  /-- The names that contents may refer to. -/
  declared : List String

namespace Logic

open Tale.Parser Grammar

def version : Parser Version := do
  let _ ← expect .identifier "WTCD"
  let t ← take .number
  let word := Text.numeral? Text.word32
  match Text.splitAtChar '.' t.content.toList with
  | [major, minor] =>
    match word major, word minor with
    | some major, some minor => return ⟨major, minor⟩
    | _, _ => failAt t (.version t.content)
  | _ => failAt t (.version t.content)

/-- A section, which is none of those before it. -/
def «section» (sub : Operand) (earlier : List String) : Parser (Section Unit) := do
  let word ← expect .keyword "section"
  let t ← take .identifier
  if earlier.contains t.content then failAt t (.sectionRepeated t.content)
  let executes ← if ← sees .keyword "then" then pure none else some <$> expression sub
  let _ ← expect .keyword "then"
  let next ← expression sub
  return ⟨t.content, executes, next, [], ← located word⟩

/-- Declarations and sections up to the end. -/
def blocks (sub : Operand) (turns : Nat) (earlier : List String) :
    Parser (List (Statement Unit) × List (Section Unit)) := do
  if (← peek?).isNone then return ([], [])
  match turns with
  | 0 => exhausted
  | n + 1 =>
    if ← sees .keyword "declare" then
      let s ← declarations sub n
      let (init, sections) ← blocks sub n earlier
      return (s :: init, sections)
    else if ← sees .keyword "section" then
      let s ← «section» sub earlier
      let (init, sections) ← blocks sub n (s.name :: earlier)
      return (init, s :: sections)
    else
      unexpected (TokenKind.keyword.name ++ " "
        ++ Text.listing "or" (["declare", "section"].map Text.inQuotes))

/-- The names that statements declare. -/
def declaredNames (init : List (Statement Unit)) : List String :=
  init.flatMap fun s =>
    match s.shape with
    | .declare ds => ds.map (·.name)
    | _ => []

/-- The logic that tokens write, read with room for `room` levels. -/
def logic (room : Nat) : Parser Logic := do
  let version ← version
  let (init, sections) ← blocks (operand room) room []
  for t in (← get).targets.reverse do
    if !sections.any (·.name = t.content) then failAt t (.sectionUnknown t.content)
  return ⟨⟨version, init, sections⟩, declaredNames init⟩

/-- The logic that a text writes. -/
def parse (source : String) (mapped : Bool) : Except SourceError Logic :=
  let ts := Tokens.ofText source
  match ts.tokens, ts.ending with
  | [], .error e => .error e
  | tokens, ending => (logic (tokens.length + 1)).run' { tokens, ending, mapped }

end Logic

end Tale
