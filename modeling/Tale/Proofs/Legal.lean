import Tale.Proofs.FreeNames
import Tale.Proofs.Numerals

/-!
# Trees that can be written

A tree is legal where it stands if each name it uses is in sight there, each register belongs to
something around it, each target is a section, and no name is declared twice in one scope. What no
text writes is not legal either: a number with a sign, a loop with neither first nor last step, an
empty row of declarations or of types.
-/

namespace Tale

/-- The names and the registers of one scope. -/
structure Level where
  names : List String := []
  registers : List Register := []

/-- The scopes around a place, innermost first. -/
abbrev Levels := List Level

namespace Levels

variable (P : Levels)

def Sees (name : String) : Prop :=
  ∃ l ∈ P, name ∈ l.names

def Has (r : Register) : Prop :=
  ∃ l ∈ P, r ∈ l.registers

def DeclaresHere (name : String) : Prop :=
  ∃ l ∈ P.head?, name ∈ l.names

def enter (r : Register) : Levels :=
  ⟨[], [r]⟩ :: P

def declare (name : String) : Levels → Levels
  | [] => []
  | l :: P => { l with names := name :: l.names } :: P

def declareAll (names : List String) : Levels :=
  names.foldl (fun P n => P.declare n) P

/-- Around a document there is the library. -/
def initial : Levels :=
  [{}, { names := Library.names }]

end Levels

variable {ι : Type}

section Definitions

variable (targets : List String)

mutual

def Expr.Legal (P : Levels) : Expr ι → Prop
  | ⟨shape, _⟩ => shape.Legal P

def Shape.Legal (P : Levels) : Shape ι → Prop
  | .number x => Decimal.isNegative x = false ∧ ∃ m, Decimal.magnitude x = .finite m
  | .boolean _ => True
  | .string _ => True
  | .null => True
  | .binary _ l r => l.Legal P ∧ r.Legal P
  | .unary _ e => e.Legal P
  | .conditional c y n => c.Legal P ∧ y.Legal P ∧ n.Legal P
  | .goto names => names ⊆ targets
  | .exit => True
  | .selection e => e.Legal P
  | .choice t a => t.Legal P ∧ a.Legal P
  | .block ss => statementsLegal (P.enter .yield) ss
  | .reference name => P.Sees name
  | .function f => f.Legal P
  | .list es => elementsLegal P es
  | .switch e cs d => e.Legal P ∧ casesLegal P cs ∧ optionLegal P d
  | .loop b c a => (b.isSome ∨ a.isSome) ∧ optionLegal (P.enter .break) b
    ∧ c.Legal (P.enter .break) ∧ optionLegal (P.enter .break) a
  | .cond c y n => c.Legal P ∧ y.Legal P ∧ optionLegal P n
  | .tag _ => True

def optionLegal (P : Levels) : Option (Expr ι) → Prop
  | none => True
  | some e => e.Legal P

/-- The defaults do not see the parameters. -/
def FunctionExpr.Legal (P : Levels) : FunctionExpr ι → Prop
  | ⟨_, ps, rest, _, body⟩ => (ps.map (·.name) ++ rest.toList).Nodup
    ∧ parametersLegal (P.enter .return) ps
    ∧ body.Legal ((P.enter .return).declareAll (ps.map (·.name) ++ rest.toList))

def parametersLegal (P : Levels) : List (Parameter ι) → Prop
  | [] => True
  | ⟨_, bound, fallback, _⟩ :: ps => bound ≠ some [] ∧ optionLegal P fallback ∧ parametersLegal P ps

def elementsLegal (P : Levels) : List (Element ι) → Prop
  | [] => True
  | .item e :: es => e.Legal P ∧ elementsLegal P es
  | .spread e _ :: es => e.Legal P ∧ elementsLegal P es

def casesLegal (P : Levels) : List (SwitchCase ι) → Prop
  | [] => True
  | ⟨p, r⟩ :: cs => p.Legal P ∧ r.Legal P ∧ casesLegal P cs

/-- What is declared can be used by all statements after it. -/
def statementsLegal (P : Levels) : List (Statement ι) → Prop
  | [] => True
  | ⟨shape, _⟩ :: ss => shape.Legal P ∧ statementsLegal (P.declareAll shape.names) ss

def StatementShape.Legal (P : Levels) : StatementShape ι → Prop
  | .declare ds => ds ≠ [] ∧ declarationsLegal P ds
  | .expression e => e.Legal P
  | .leave r e => P.Has r ∧ e.Legal P
  | .set r e => P.Has r ∧ e.Legal P
  | .continue => True

def declarationsLegal (P : Levels) : List (Declaration ι) → Prop
  | [] => True
  | ⟨name, bound, initial, _⟩ :: ds => bound ≠ some [] ∧ optionLegal P initial
    ∧ ¬ P.DeclaresHere name ∧ declarationsLegal (P.declare name) ds

end

/-- A section has no contents yet. -/
def Section.Legal (P : Levels) (s : Section ι) : Prop :=
  optionLegal targets P s.executes ∧ s.next.Legal targets P ∧ s.contents = []

end Definitions

/-- Sections may come before declarations in a text, but they are written after all of them and see
all that is declared. -/
structure Story.Legal (s : Story ι) : Prop where
  major : s.version.major < Text.word32
  minor : s.version.minor < Text.word32
  declares (x : Statement ι) (h : x ∈ s.init) : ∃ ds, x.shape = .declare ds
  init : statementsLegal (s.sections.map (·.name)) .initial s.init
  distinct : (s.sections.map (·.name)).Nodup
  sections (x : Section ι) (h : x ∈ s.sections) : x.Legal (s.sections.map (·.name))
    (Levels.initial.declareAll (s.init.flatMap (·.shape.names)))

end Tale
