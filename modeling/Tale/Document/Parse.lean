import Tale.Document.Paragraphs
import Tale.Document.Split
import Tale.Language.Parser.Logic

/-!
# Documents

A document is its logic and the contents of its sections. The logic is read first; then the
contents are rendered, one after the other, and given to the section they are named for.
-/

namespace Tale.Document

/-- How a document is read. -/
structure Options where
  /-- Whether the story keeps the places of its parts. -/
  mapped : Bool := true
  /-- From markdown to HTML. -/
  render : String → String := renderParagraphs
  /-- Applied to the markdown before it is rendered. -/
  before : String → String := fun s => s
  /-- Applied to the HTML after references became spans. -/
  after : String → String := fun s => s

/-- Gives contents to the first section of a name. -/
def attach (name : String) (c : Content) : List (Section Unit) → Option (List (Section Unit))
  | [] => none
  | s :: ss =>
    if s.name = name then some ({ s with contents := s.contents ++ [c] } :: ss)
    else (attach name c ss).map (s :: ·)

/-- Attaches all contents; spans are numbered from `next` on. -/
def attachAll (options : Options) (declared : List String) :
    (next : Nat) → List RawContent → List (Section Unit) →
      Except SourceError (List (Section Unit))
  | _, [], sections => .ok sections
  | next, raw :: raws, sections => do
    let html := options.render (options.before raw.markdown)
    let (html, placeholders) ← parameterize html raw.fullName declared next
    let bounds ← Bounds.parse raw.bound raw.fullName
    match attach raw.name ⟨options.after html, placeholders, bounds⟩ sections with
    | none => throw ⟨.contentUnclaimed raw.fullName, none⟩
    | some sections => attachAll options declared (next + placeholders.length) raws sections

/-- The story that a document tells. -/
def parse (options : Options) (source : String) : Except SourceError (Story Unit) := do
  let source := String.ofList (Text.replaceAll ['\r', '\n'] ['\n'] source.toList)
  let (logic, raws) := split source
  let logic ← Logic.parse logic options.mapped
  let sections ← attachAll options logic.declared 0 raws logic.story.sections
  return { logic.story with sections }

end Tale.Document
