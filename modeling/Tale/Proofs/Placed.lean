import Tale.Language.Tree.Label
import Tale.Proofs.Operators

/-!
# Where registers are used

A statement with `yield`, `return` or `break` is placed if it stands in a block, a function or a
loop, and in the same function as that. `Placed spare rs` says so of all statements of a tree,
except for the registers that may be used anywhere; `rs` are the registers of the blocks, the loops
and the function around the tree, innermost first. Beyond a function nothing counts.
-/

namespace Tale

variable {ι : Type}

section Definitions

variable (spare : Register → Prop)

mutual

def Expr.Placed (rs : List Register) : Expr ι → Prop
  | ⟨shape, _⟩ => shape.Placed rs

def Shape.Placed (rs : List Register) : Shape ι → Prop
  | .number _ => True
  | .boolean _ => True
  | .string _ => True
  | .null => True
  | .binary _ l r => l.Placed rs ∧ r.Placed rs
  | .unary _ e => e.Placed rs
  | .conditional c y n => c.Placed rs ∧ y.Placed rs ∧ n.Placed rs
  | .goto _ => True
  | .exit => True
  | .selection e => e.Placed rs
  | .choice t a => t.Placed rs ∧ a.Placed rs
  | .block ss => statementsPlaced (.yield :: rs) ss
  | .reference _ => True
  | .function f => f.Placed
  | .list es => elementsPlaced rs es
  | .switch e cs d => e.Placed rs ∧ casesPlaced rs cs ∧ optionPlaced rs d
  | .loop b c a =>
    optionPlaced (.break :: rs) b ∧ c.Placed (.break :: rs) ∧ optionPlaced (.break :: rs) a
  | .cond c y n => c.Placed rs ∧ y.Placed rs ∧ optionPlaced rs n
  | .tag _ => True

def optionPlaced (rs : List Register) : Option (Expr ι) → Prop
  | none => True
  | some e => e.Placed rs

def FunctionExpr.Placed : FunctionExpr ι → Prop
  | ⟨_, ps, _, _, body⟩ => parametersPlaced ps ∧ body.Placed [.return]

def parametersPlaced : List (Parameter ι) → Prop
  | [] => True
  | ⟨_, _, fallback, _⟩ :: ps => optionPlaced [.return] fallback ∧ parametersPlaced ps

def elementsPlaced (rs : List Register) : List (Element ι) → Prop
  | [] => True
  | .item e :: es => e.Placed rs ∧ elementsPlaced rs es
  | .spread e _ :: es => e.Placed rs ∧ elementsPlaced rs es

def casesPlaced (rs : List Register) : List (SwitchCase ι) → Prop
  | [] => True
  | ⟨p, r⟩ :: cs => p.Placed rs ∧ r.Placed rs ∧ casesPlaced rs cs

def statementsPlaced (rs : List Register) : List (Statement ι) → Prop
  | [] => True
  | ⟨shape, _⟩ :: ss => shape.Placed rs ∧ statementsPlaced rs ss

def StatementShape.Placed (rs : List Register) : StatementShape ι → Prop
  | .declare ds => declarationsPlaced rs ds
  | .expression e => e.Placed rs
  | .leave r e => (r ∈ rs ∨ spare r) ∧ e.Placed rs
  | .set r e => (r ∈ rs ∨ spare r) ∧ e.Placed rs
  | .continue => True

def declarationsPlaced (rs : List Register) : List (Declaration ι) → Prop
  | [] => True
  | ⟨_, _, initial, _⟩ :: ds => optionPlaced rs initial ∧ declarationsPlaced rs ds

end

/-- Around the initial statements and the sections of a story there is nothing to be left. -/
def Story.Placed (s : Story ι) : Prop :=
  statementsPlaced spare [] s.init
    ∧ ∀ x ∈ s.sections, optionPlaced spare [] x.executes ∧ x.next.Placed spare []

end Definitions

/-! ## Rows -/

section Rows

variable {spare : Register → Prop} {rs : List Register}

theorem optionPlaced_iff {e : Option (Expr ι)} :
    optionPlaced spare rs e ↔ ∀ e' ∈ e.toList, e'.Placed spare rs := by
  cases e <;> simp [optionPlaced]

theorem parametersPlaced_iff {ps : List (Parameter ι)} :
    parametersPlaced spare ps ↔ ∀ p ∈ ps, optionPlaced spare [.return] p.fallback := by
  induction ps with
  | nil => simp [parametersPlaced]
  | cons p ps ih => rcases p; simp [parametersPlaced, ih]

theorem elementsPlaced_iff {es : List (Element ι)} :
    elementsPlaced spare rs es ↔ ∀ e ∈ es, e.expr.Placed spare rs := by
  induction es with
  | nil => simp [elementsPlaced]
  | cons e es ih => cases e <;> simp [elementsPlaced, Element.expr, ih]

theorem casesPlaced_iff {cs : List (SwitchCase ι)} :
    casesPlaced spare rs cs ↔ ∀ c ∈ cs, ∀ e ∈ c.exprs, e.Placed spare rs := by
  induction cs with
  | nil => simp [casesPlaced]
  | cons c cs ih => rcases c; simp [casesPlaced, SwitchCase.exprs, ih, and_assoc]

theorem statementsPlaced_iff {ss : List (Statement ι)} :
    statementsPlaced spare rs ss ↔ ∀ s ∈ ss, s.shape.Placed spare rs := by
  induction ss with
  | nil => simp [statementsPlaced]
  | cons s ss ih => rcases s; simp [statementsPlaced, ih]

theorem declarationsPlaced_iff {ds : List (Declaration ι)} :
    declarationsPlaced spare rs ds ↔ ∀ d ∈ ds, optionPlaced spare rs d.initial := by
  induction ds with
  | nil => simp [declarationsPlaced]
  | cons d ds ih => rcases d; simp [declarationsPlaced, ih]

end Rows

/-! ## Numbering -/

section Numbering

variable {spare : Register → Prop}

mutual

theorem Expr.label_placed (n : Nat) (rs : List Register) : ∀ e : Expr Unit,
    (e.label n).1.Placed spare rs ↔ e.Placed spare rs
  | ⟨shape, _⟩ => by
    have h := Shape.label_placed n rs shape
    simp only [Expr.label, Expr.Placed, h]

theorem Shape.label_placed (n : Nat) (rs : List Register) : ∀ s : Shape Unit,
    (s.label n).1.Placed spare rs ↔ s.Placed spare rs
  | .number _ => Iff.rfl
  | .boolean _ => Iff.rfl
  | .string _ => Iff.rfl
  | .null => Iff.rfl
  | .goto _ => Iff.rfl
  | .exit => Iff.rfl
  | .reference _ => Iff.rfl
  | .tag _ => Iff.rfl
  | .binary _ l r => by
    have hl := Expr.label_placed n rs l
    have hr := Expr.label_placed (l.label n).2 rs r
    simp only [Shape.label, Shape.Placed, hl, hr]
  | .unary _ e => by
    have h := Expr.label_placed n rs e
    simp only [Shape.label, Shape.Placed, h]
  | .conditional c y o => by
    have hc := Expr.label_placed n rs c
    have hy := Expr.label_placed (c.label n).2 rs y
    have ho := Expr.label_placed (y.label (c.label n).2).2 rs o
    simp only [Shape.label, Shape.Placed, hc, hy, ho]
  | .selection e => by
    have h := Expr.label_placed n rs e
    simp only [Shape.label, Shape.Placed, h]
  | .choice t a => by
    have ht := Expr.label_placed n rs t
    have ha := Expr.label_placed (t.label n).2 rs a
    simp only [Shape.label, Shape.Placed, ht, ha]
  | .block ss => by
    have h := labelStatements_placed n (.yield :: rs) ss
    simp only [Shape.label, Shape.Placed, h]
  | .function f => by
    have h := labelFunction_placed n f
    simp only [Shape.label, Shape.Placed, h]
  | .list es => by
    have h := labelElements_placed n rs es
    simp only [Shape.label, Shape.Placed, h]
  | .switch e cs d => by
    have he := Expr.label_placed n rs e
    have hc := labelCases_placed (e.label n).2 rs cs
    have hd := labelOption_placed (labelCases (e.label n).2 cs).2 rs d
    simp only [Shape.label, Shape.Placed, he, hc, hd]
  | .loop b c a => by
    have hb := labelOption_placed n (.break :: rs) b
    have hc := Expr.label_placed (labelOption n b).2 (.break :: rs) c
    have ha := labelOption_placed (c.label (labelOption n b).2).2 (.break :: rs) a
    simp only [Shape.label, Shape.Placed, hb, hc, ha]
  | .cond c y o => by
    have hc := Expr.label_placed n rs c
    have hy := Expr.label_placed (c.label n).2 rs y
    have ho := labelOption_placed (y.label (c.label n).2).2 rs o
    simp only [Shape.label, Shape.Placed, hc, hy, ho]

theorem labelOption_placed (n : Nat) (rs : List Register) : ∀ e : Option (Expr Unit),
    optionPlaced spare rs (labelOption n e).1 ↔ optionPlaced spare rs e
  | none => Iff.rfl
  | some e => by
    have h := Expr.label_placed n rs e
    simp only [labelOption, optionPlaced, h]

theorem labelFunction_placed (n : Nat) : ∀ f : FunctionExpr Unit,
    (labelFunction n f).1.Placed spare ↔ f.Placed spare
  | ⟨_, ps, rest, captures, body⟩ => by
    have hp := labelParameters_placed (n + 1) ps
    have hb := Expr.label_placed (labelParameters (n + 1) ps).2 [.return] body
    simp only [labelFunction, FunctionExpr.Placed, hp, hb]

theorem labelParameters_placed (n : Nat) : ∀ ps : List (Parameter Unit),
    parametersPlaced spare (labelParameters n ps).1 ↔ parametersPlaced spare ps
  | [] => Iff.rfl
  | ⟨_, _, fallback, _⟩ :: ps => by
    have hf := labelOption_placed n [.return] fallback
    have hp := labelParameters_placed (labelOption n fallback).2 ps
    simp only [labelParameters, parametersPlaced, hf, hp]

theorem labelElements_placed (n : Nat) (rs : List Register) : ∀ es : List (Element Unit),
    elementsPlaced spare rs (labelElements n es).1 ↔ elementsPlaced spare rs es
  | [] => Iff.rfl
  | .item e :: es => by
    have he := Expr.label_placed n rs e
    have hs := labelElements_placed (e.label n).2 rs es
    simp only [labelElements, elementsPlaced, he, hs]
  | .spread e _ :: es => by
    have he := Expr.label_placed n rs e
    have hs := labelElements_placed (e.label n).2 rs es
    simp only [labelElements, elementsPlaced, he, hs]

theorem labelCases_placed (n : Nat) (rs : List Register) : ∀ cs : List (SwitchCase Unit),
    casesPlaced spare rs (labelCases n cs).1 ↔ casesPlaced spare rs cs
  | [] => Iff.rfl
  | ⟨p, r⟩ :: cs => by
    have hp := Expr.label_placed n rs p
    have hr := Expr.label_placed (p.label n).2 rs r
    have hs := labelCases_placed (r.label (p.label n).2).2 rs cs
    simp only [labelCases, casesPlaced, hp, hr, hs]

theorem labelStatements_placed (n : Nat) (rs : List Register) : ∀ ss : List (Statement Unit),
    statementsPlaced spare rs (labelStatements n ss).1 ↔ statementsPlaced spare rs ss
  | [] => Iff.rfl
  | ⟨shape, _⟩ :: ss => by
    have h := StatementShape.label_placed n rs shape
    have hs := labelStatements_placed (shape.label n).2 rs ss
    simp only [labelStatements, statementsPlaced, h, hs]

theorem StatementShape.label_placed (n : Nat) (rs : List Register) :
    ∀ s : StatementShape Unit, (s.label n).1.Placed spare rs ↔ s.Placed spare rs
  | .declare ds => by
    have h := labelDeclarations_placed n rs ds
    simp only [StatementShape.label, StatementShape.Placed, h]
  | .expression e => by
    have h := Expr.label_placed n rs e
    simp only [StatementShape.label, StatementShape.Placed, h]
  | .leave _ e => by
    have h := Expr.label_placed n rs e
    simp only [StatementShape.label, StatementShape.Placed, h]
  | .set _ e => by
    have h := Expr.label_placed n rs e
    simp only [StatementShape.label, StatementShape.Placed, h]
  | .continue => Iff.rfl

theorem labelDeclarations_placed (n : Nat) (rs : List Register) : ∀ ds : List (Declaration Unit),
    declarationsPlaced spare rs (labelDeclarations n ds).1 ↔ declarationsPlaced spare rs ds
  | [] => Iff.rfl
  | ⟨_, _, initial, _⟩ :: ds => by
    have hi := labelOption_placed n rs initial
    have hs := labelDeclarations_placed (labelOption n initial).2 rs ds
    simp only [labelDeclarations, declarationsPlaced, hi, hs]

end

theorem labelSections_placed : ∀ (n : Nat) (ss : List (Section Unit)),
    (∀ x ∈ (labelSections n ss).1, optionPlaced spare [] x.executes ∧ x.next.Placed spare [])
      ↔ ∀ x ∈ ss, optionPlaced spare [] x.executes ∧ x.next.Placed spare []
  | _, [] => by simp only [labelSections, List.not_mem_nil, false_imp_iff, implies_true]
  | n, ⟨name, executes, next, contents, location⟩ :: ss => by
    have he : optionPlaced spare [] (labelOption n executes).1 ↔ optionPlaced spare [] executes :=
      labelOption_placed n [] executes
    have hn : (next.label (labelOption n executes).2).1.Placed spare [] ↔ next.Placed spare [] :=
      Expr.label_placed _ [] next
    have hs := labelSections_placed (next.label (labelOption n executes).2).2 ss
    simp only [labelSections, List.mem_cons, forall_eq_or_imp, he, hn, hs]

theorem Story.labelled_placed {s : Story Unit} : s.labelled.Placed spare ↔ s.Placed spare := by
  simp only [Story.labelled, Story.Placed, labelStatements_placed, labelSections_placed]

end Numbering

end Tale
