import Tale.Proofs.Numerals

/-!
# Trees as words

A tree is written with every expression inside another one in parentheses, all targets and all
declarations in brackets, and every function with its parameters. `Expr.bare` is what a tree says
without the places of its parts and without captures, which are not written.
-/

namespace Tale

variable {ι : Type}

/-- A token apart from its place. -/
abbrev Word := TokenKind × String

def Token.word (t : Token) : Word :=
  (t.kind, t.content)

namespace Words

def keyword (s : String) : Word :=
  (.keyword, s)

def mark (s : String) : Word :=
  (.punctuation, s)

def operator (s : String) : Word :=
  (.operator, s)

def identifier (s : String) : Word :=
  (.identifier, s)

def enclosed (ws : List Word) : List Word :=
  mark "(" :: (ws ++ [mark ")"])

def listed (ws : List Word) : List Word :=
  mark "[" :: (ws ++ [mark "]"])

def types : TypeBound → List Word
  | none => []
  | some ts => ts.map fun t => keyword t.name

def rest : Option String → List Word
  | none => []
  | some name => [operator "...", identifier name]

end Words

open Words

mutual

def Expr.words : Expr ι → List Word
  | ⟨shape, _⟩ => shape.words

def Shape.words : Shape ι → List Word
  | .number x => [(.number, Decimal.numeral x)]
  | .boolean b => [keyword (if b then "true" else "false")]
  | .string s => [(.string, s)]
  | .null => [keyword "null"]
  | .binary op l r => enclosed l.words ++ operator op.symbol :: enclosed r.words
  | .unary op e => operator op.symbol :: enclosed e.words
  | .conditional c y n =>
    enclosed c.words ++ operator "?" :: (enclosed y.words ++ operator ":" :: enclosed n.words)
  | .goto names => keyword "goto" :: listed (names.map identifier)
  | .exit => [keyword "exit"]
  | .selection e => keyword "selection" :: enclosed e.words
  | .choice t a => keyword "choice" :: (enclosed t.words ++ enclosed a.words)
  | .block ss => mark "\x7b" :: (wordsOfStatements ss ++ [mark "\x7d"])
  | .reference name => [identifier name]
  | .function f => keyword "function" :: f.words
  | .list es => listed (wordsOfElements es)
  | .switch e cs d =>
    keyword "switch" :: (enclosed e.words ++ listed (wordsOfCases cs ++ wordsOfOption [] d))
  | .loop none c a => keyword "while" :: (enclosed c.words ++ wordsOfOption [] a)
  | .loop (some b) c a =>
    keyword "do" :: (enclosed b.words
      ++ keyword "while" :: (enclosed c.words ++ wordsOfOption [keyword "then"] a))
  | .cond c y n =>
    keyword "if" :: (enclosed c.words ++ (enclosed y.words ++ wordsOfOption [keyword "else"] n))
  | .tag name => [(.tag, name)]

/-- An expression that may be missing, after what announces it. -/
def wordsOfOption (before : List Word) : Option (Expr ι) → List Word
  | none => []
  | some e => before ++ enclosed e.words

def FunctionExpr.words : FunctionExpr ι → List Word
  | ⟨_, ps, name, _, body⟩ => listed (wordsOfParameters ps ++ rest name) ++ enclosed body.words

def wordsOfParameters : List (Parameter ι) → List Word
  | [] => []
  | ⟨name, bound, fallback, _⟩ :: ps =>
    types bound ++ identifier name
      :: (wordsOfOption [operator "="] fallback ++ wordsOfParameters ps)

def wordsOfElements : List (Element ι) → List Word
  | [] => []
  | .item e :: es => enclosed e.words ++ wordsOfElements es
  | .spread e _ :: es => operator "..." :: (enclosed e.words ++ wordsOfElements es)

def wordsOfCases : List (SwitchCase ι) → List Word
  | [] => []
  | ⟨p, r⟩ :: cs => enclosed p.words ++ (enclosed r.words ++ wordsOfCases cs)

def wordsOfStatements : List (Statement ι) → List Word
  | [] => []
  | ⟨shape, _⟩ :: ss => shape.words ++ wordsOfStatements ss

def StatementShape.words : StatementShape ι → List Word
  | .declare ds => keyword "declare" :: listed (wordsOfDeclarations ds)
  | .expression e => enclosed e.words
  | .leave r e => keyword r.name :: enclosed e.words
  | .set r e => keyword r.name :: operator "=" :: enclosed e.words
  | .continue => [keyword "continue"]

def wordsOfDeclarations : List (Declaration ι) → List Word
  | [] => []
  | ⟨name, bound, initial, _⟩ :: ds =>
    types bound ++ identifier name
      :: (wordsOfOption [operator "="] initial ++ wordsOfDeclarations ds)

end

def Section.words (s : Section ι) : List Word :=
  keyword "section" :: identifier s.name
    :: (wordsOfOption [] s.executes ++ keyword "then" :: enclosed s.next.words)

def Version.numeral (v : Version) : String :=
  String.ofList (Text.digits v.major ++ '.' :: Text.digits v.minor)

def Story.words (s : Story ι) : List Word :=
  identifier "WTCD" :: (.number, s.version.numeral)
    :: (wordsOfStatements s.init ++ s.sections.flatMap Section.words)

/-! ## What is written -/

mutual

def Expr.bare : Expr ι → Expr ι
  | ⟨shape, _⟩ => ⟨shape.bare, none⟩

def Shape.bare : Shape ι → Shape ι
  | .number x => .number x
  | .boolean b => .boolean b
  | .string s => .string s
  | .null => .null
  | .binary op l r => .binary op l.bare r.bare
  | .unary op e => .unary op e.bare
  | .conditional c y n => .conditional c.bare y.bare n.bare
  | .goto names => .goto names
  | .exit => .exit
  | .selection e => .selection e.bare
  | .choice t a => .choice t.bare a.bare
  | .block ss => .block (bareStatements ss)
  | .reference name => .reference name
  | .function f => .function f.bare
  | .list es => .list (bareElements es)
  | .switch e cs d => .switch e.bare (bareCases cs) (bareOption d)
  | .loop b c a => .loop (bareOption b) c.bare (bareOption a)
  | .cond c y n => .cond c.bare y.bare (bareOption n)
  | .tag name => .tag name

def bareOption : Option (Expr ι) → Option (Expr ι)
  | none => none
  | some e => some e.bare

def FunctionExpr.bare : FunctionExpr ι → FunctionExpr ι
  | ⟨label, ps, name, _, body⟩ => ⟨label, bareParameters ps, name, [], body.bare⟩

def bareParameters : List (Parameter ι) → List (Parameter ι)
  | [] => []
  | ⟨name, bound, fallback, _⟩ :: ps =>
    ⟨name, bound, bareOption fallback, none⟩ :: bareParameters ps

def bareElements : List (Element ι) → List (Element ι)
  | [] => []
  | .item e :: es => .item e.bare :: bareElements es
  | .spread e _ :: es => .spread e.bare none :: bareElements es

def bareCases : List (SwitchCase ι) → List (SwitchCase ι)
  | [] => []
  | ⟨p, r⟩ :: cs => ⟨p.bare, r.bare⟩ :: bareCases cs

def bareStatements : List (Statement ι) → List (Statement ι)
  | [] => []
  | ⟨shape, _⟩ :: ss => ⟨shape.bare, none⟩ :: bareStatements ss

def StatementShape.bare : StatementShape ι → StatementShape ι
  | .declare ds => .declare (bareDeclarations ds)
  | .expression e => .expression e.bare
  | .leave r e => .leave r e.bare
  | .set r e => .set r e.bare
  | .continue => .continue

def bareDeclarations : List (Declaration ι) → List (Declaration ι)
  | [] => []
  | ⟨name, bound, initial, _⟩ :: ds =>
    ⟨name, bound, bareOption initial, none⟩ :: bareDeclarations ds

end

theorem bareParameters_names (ps : List (Parameter ι)) :
    (bareParameters ps).map (·.name) = ps.map (·.name) := by
  induction ps with
  | nil => rfl
  | cons p ps ih =>
    cases p
    rw [bareParameters, List.map_cons, List.map_cons, ih]

def Section.bare (s : Section ι) : Section ι :=
  ⟨s.name, bareOption s.executes, s.next.bare, s.contents, none⟩

def Story.bare (s : Story ι) : Story ι :=
  ⟨s.version, bareStatements s.init, s.sections.map Section.bare⟩

end Tale
