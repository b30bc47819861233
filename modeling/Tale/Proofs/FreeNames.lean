import Tale.Language.Tree.Label

/-!
# The free names of a tree

A name is free in a part of a tree if the part refers to it where neither a parameter nor a
declaration before it binds it. A function is captured if the names it keeps are its free names,
each once and in the order of their first use, and a tree is captured if all functions in it are.

What an evaluation needs to know of a tree is that it is within the names in sight: it is
captured, and its free names are among them. Numbering the functions of a tree changes none of
this.
-/

namespace Tale

variable {ι : Type}

/-- The names a statement declares. -/
def StatementShape.names : StatementShape ι → List String
  | .declare ds => ds.map (·.name)
  | _ => []

/-- The names of the parameters of a function. -/
def FunctionExpr.names (f : FunctionExpr ι) : List String :=
  f.parameters.map (·.name) ++ f.restName.toList

mutual

def Expr.free : Expr ι → List String
  | ⟨shape, _⟩ => shape.free

def Shape.free : Shape ι → List String
  | .number _ => []
  | .boolean _ => []
  | .string _ => []
  | .null => []
  | .binary _ l r => l.free ++ r.free
  | .unary _ e => e.free
  | .conditional c y n => c.free ++ (y.free ++ n.free)
  | .goto _ => []
  | .exit => []
  | .selection e => e.free
  | .choice t a => t.free ++ a.free
  | .block ss => freeInStatements ss
  | .reference name => [name]
  | .function f => f.free
  | .list es => freeInElements es
  | .switch e cs d => e.free ++ (freeInCases cs ++ freeInOption d)
  | .loop b c a => freeInOption b ++ (c.free ++ freeInOption a)
  | .cond c y n => c.free ++ (y.free ++ freeInOption n)
  | .tag _ => []

def freeInOption : Option (Expr ι) → List String
  | none => []
  | some e => e.free

def FunctionExpr.free : FunctionExpr ι → List String
  | ⟨_, ps, rest, _, body⟩ =>
    freeInParameters ps ++ body.free.removeAll (ps.map (·.name) ++ rest.toList)

def freeInParameters : List (Parameter ι) → List String
  | [] => []
  | ⟨_, _, fallback, _⟩ :: ps => freeInOption fallback ++ freeInParameters ps

def freeInElements : List (Element ι) → List String
  | [] => []
  | .item e :: es => e.free ++ freeInElements es
  | .spread e _ :: es => e.free ++ freeInElements es

def freeInCases : List (SwitchCase ι) → List String
  | [] => []
  | ⟨p, r⟩ :: cs => p.free ++ (r.free ++ freeInCases cs)

def freeInStatements : List (Statement ι) → List String
  | [] => []
  | ⟨shape, _⟩ :: ss => shape.free ++ (freeInStatements ss).removeAll shape.names

def StatementShape.free : StatementShape ι → List String
  | .declare ds => freeInDeclarations ds
  | .expression e => e.free
  | .leave _ e => e.free
  | .set _ e => e.free
  | .continue => []

def freeInDeclarations : List (Declaration ι) → List String
  | [] => []
  | ⟨name, _, initial, _⟩ :: ds =>
    freeInOption initial ++ (freeInDeclarations ds).removeAll [name]

end

mutual

def Expr.Captured : Expr ι → Prop
  | ⟨shape, _⟩ => shape.Captured

def Shape.Captured : Shape ι → Prop
  | .number _ => True
  | .boolean _ => True
  | .string _ => True
  | .null => True
  | .binary _ l r => l.Captured ∧ r.Captured
  | .unary _ e => e.Captured
  | .conditional c y n => c.Captured ∧ y.Captured ∧ n.Captured
  | .goto _ => True
  | .exit => True
  | .selection e => e.Captured
  | .choice t a => t.Captured ∧ a.Captured
  | .block ss => statementsCaptured ss
  | .reference _ => True
  | .function f => f.Captured
  | .list es => elementsCaptured es
  | .switch e cs d => e.Captured ∧ casesCaptured cs ∧ optionCaptured d
  | .loop b c a => optionCaptured b ∧ c.Captured ∧ optionCaptured a
  | .cond c y n => c.Captured ∧ y.Captured ∧ optionCaptured n
  | .tag _ => True

def optionCaptured : Option (Expr ι) → Prop
  | none => True
  | some e => e.Captured

def FunctionExpr.Captured : FunctionExpr ι → Prop
  | ⟨label, ps, rest, captures, body⟩ =>
    captures = (FunctionExpr.free ⟨label, ps, rest, captures, body⟩).eraseDups
      ∧ parametersCaptured ps ∧ body.Captured

def parametersCaptured : List (Parameter ι) → Prop
  | [] => True
  | ⟨_, _, fallback, _⟩ :: ps => optionCaptured fallback ∧ parametersCaptured ps

def elementsCaptured : List (Element ι) → Prop
  | [] => True
  | .item e :: es => e.Captured ∧ elementsCaptured es
  | .spread e _ :: es => e.Captured ∧ elementsCaptured es

def casesCaptured : List (SwitchCase ι) → Prop
  | [] => True
  | ⟨p, r⟩ :: cs => p.Captured ∧ r.Captured ∧ casesCaptured cs

def statementsCaptured : List (Statement ι) → Prop
  | [] => True
  | ⟨shape, _⟩ :: ss => shape.Captured ∧ statementsCaptured ss

def StatementShape.Captured : StatementShape ι → Prop
  | .declare ds => declarationsCaptured ds
  | .expression e => e.Captured
  | .leave _ e => e.Captured
  | .set _ e => e.Captured
  | .continue => True

def declarationsCaptured : List (Declaration ι) → Prop
  | [] => True
  | ⟨_, _, initial, _⟩ :: ds => optionCaptured initial ∧ declarationsCaptured ds

end

/-! ## Numbering -/

mutual

theorem Expr.label_names (n : Nat) : ∀ e : Expr Unit,
    (e.label n).1.free = e.free ∧ ((e.label n).1.Captured ↔ e.Captured)
  | ⟨shape, _⟩ => by
    have h := Shape.label_names n shape
    simp only [Expr.label, Expr.free, Expr.Captured, h, and_self]

theorem Shape.label_names (n : Nat) : ∀ s : Shape Unit,
    (s.label n).1.free = s.free ∧ ((s.label n).1.Captured ↔ s.Captured)
  | .number _ => by simp only [Shape.label, Shape.free, Shape.Captured, and_self]
  | .boolean _ => by simp only [Shape.label, Shape.free, Shape.Captured, and_self]
  | .string _ => by simp only [Shape.label, Shape.free, Shape.Captured, and_self]
  | .null => by simp only [Shape.label, Shape.free, Shape.Captured, and_self]
  | .goto _ => by simp only [Shape.label, Shape.free, Shape.Captured, and_self]
  | .exit => by simp only [Shape.label, Shape.free, Shape.Captured, and_self]
  | .reference _ => by simp only [Shape.label, Shape.free, Shape.Captured, and_self]
  | .tag _ => by simp only [Shape.label, Shape.free, Shape.Captured, and_self]
  | .binary _ l r => by
    have hl := Expr.label_names n l
    have hr := Expr.label_names (l.label n).2 r
    simp only [Shape.label, Shape.free, Shape.Captured, hl, hr, and_self]
  | .unary _ e => by
    have h := Expr.label_names n e
    simp only [Shape.label, Shape.free, Shape.Captured, h, and_self]
  | .conditional c y o => by
    have hc := Expr.label_names n c
    have hy := Expr.label_names (c.label n).2 y
    have ho := Expr.label_names (y.label (c.label n).2).2 o
    simp only [Shape.label, Shape.free, Shape.Captured, hc, hy, ho, and_self]
  | .selection e => by
    have h := Expr.label_names n e
    simp only [Shape.label, Shape.free, Shape.Captured, h, and_self]
  | .choice t a => by
    have ht := Expr.label_names n t
    have ha := Expr.label_names (t.label n).2 a
    simp only [Shape.label, Shape.free, Shape.Captured, ht, ha, and_self]
  | .block ss => by
    have h := labelStatements_names n ss
    simp only [Shape.label, Shape.free, Shape.Captured, h, and_self]
  | .function f => by
    have h := labelFunction_names n f
    simp only [Shape.label, Shape.free, Shape.Captured, h, and_self]
  | .list es => by
    have h := labelElements_names n es
    simp only [Shape.label, Shape.free, Shape.Captured, h, and_self]
  | .switch e cs d => by
    have he := Expr.label_names n e
    have hc := labelCases_names (e.label n).2 cs
    have hd := labelOption_names (labelCases (e.label n).2 cs).2 d
    simp only [Shape.label, Shape.free, Shape.Captured, he, hc, hd, and_self]
  | .loop b c a => by
    have hb := labelOption_names n b
    have hc := Expr.label_names (labelOption n b).2 c
    have ha := labelOption_names (c.label (labelOption n b).2).2 a
    simp only [Shape.label, Shape.free, Shape.Captured, hb, hc, ha, and_self]
  | .cond c y o => by
    have hc := Expr.label_names n c
    have hy := Expr.label_names (c.label n).2 y
    have ho := labelOption_names (y.label (c.label n).2).2 o
    simp only [Shape.label, Shape.free, Shape.Captured, hc, hy, ho, and_self]

theorem labelOption_names (n : Nat) : ∀ e : Option (Expr Unit),
    freeInOption (labelOption n e).1 = freeInOption e
      ∧ (optionCaptured (labelOption n e).1 ↔ optionCaptured e)
  | none => by simp only [labelOption, freeInOption, optionCaptured, and_self]
  | some e => by
    have h := Expr.label_names n e
    simp only [labelOption, freeInOption, optionCaptured, h, and_self]

theorem labelFunction_names (n : Nat) : ∀ f : FunctionExpr Unit,
    (labelFunction n f).1.free = f.free ∧ ((labelFunction n f).1.Captured ↔ f.Captured)
  | ⟨_, ps, rest, captures, body⟩ => by
    have hp := labelParameters_names (n + 1) ps
    have hb := Expr.label_names (labelParameters (n + 1) ps).2 body
    simp only [labelFunction, FunctionExpr.free, FunctionExpr.Captured, hp, hb, and_self]

theorem labelParameters_names (n : Nat) : ∀ ps : List (Parameter Unit),
    (labelParameters n ps).1.map (·.name) = ps.map (·.name)
      ∧ freeInParameters (labelParameters n ps).1 = freeInParameters ps
      ∧ (parametersCaptured (labelParameters n ps).1 ↔ parametersCaptured ps)
  | [] => by
    simp only [labelParameters, List.map_nil, freeInParameters, parametersCaptured, and_self]
  | ⟨_, _, fallback, _⟩ :: ps => by
    have hf := labelOption_names n fallback
    have hp := labelParameters_names (labelOption n fallback).2 ps
    simp only [labelParameters, List.map_cons, freeInParameters, parametersCaptured, hf, hp,
      and_self]

theorem labelElements_names (n : Nat) : ∀ es : List (Element Unit),
    freeInElements (labelElements n es).1 = freeInElements es
      ∧ (elementsCaptured (labelElements n es).1 ↔ elementsCaptured es)
  | [] => by simp only [labelElements, freeInElements, elementsCaptured, and_self]
  | .item e :: es => by
    have he := Expr.label_names n e
    have hs := labelElements_names (e.label n).2 es
    simp only [labelElements, freeInElements, elementsCaptured, he, hs, and_self]
  | .spread e _ :: es => by
    have he := Expr.label_names n e
    have hs := labelElements_names (e.label n).2 es
    simp only [labelElements, freeInElements, elementsCaptured, he, hs, and_self]

theorem labelCases_names (n : Nat) : ∀ cs : List (SwitchCase Unit),
    freeInCases (labelCases n cs).1 = freeInCases cs
      ∧ (casesCaptured (labelCases n cs).1 ↔ casesCaptured cs)
  | [] => by simp only [labelCases, freeInCases, casesCaptured, and_self]
  | ⟨p, r⟩ :: cs => by
    have hp := Expr.label_names n p
    have hr := Expr.label_names (p.label n).2 r
    have hs := labelCases_names (r.label (p.label n).2).2 cs
    simp only [labelCases, freeInCases, casesCaptured, hp, hr, hs, and_self]

theorem labelStatements_names (n : Nat) : ∀ ss : List (Statement Unit),
    freeInStatements (labelStatements n ss).1 = freeInStatements ss
      ∧ (statementsCaptured (labelStatements n ss).1 ↔ statementsCaptured ss)
  | [] => by simp only [labelStatements, freeInStatements, statementsCaptured, and_self]
  | ⟨shape, _⟩ :: ss => by
    have h := StatementShape.label_names n shape
    have hs := labelStatements_names (shape.label n).2 ss
    simp only [labelStatements, freeInStatements, statementsCaptured, h, hs, and_self]

theorem StatementShape.label_names (n : Nat) : ∀ s : StatementShape Unit,
    (s.label n).1.names = s.names ∧ (s.label n).1.free = s.free
      ∧ ((s.label n).1.Captured ↔ s.Captured)
  | .declare ds => by
    have h := labelDeclarations_names n ds
    simp only [StatementShape.label, StatementShape.names, StatementShape.free,
      StatementShape.Captured, h, and_self]
  | .expression e => by
    have h := Expr.label_names n e
    simp only [StatementShape.label, StatementShape.names, StatementShape.free,
      StatementShape.Captured, h, and_self]
  | .leave _ e => by
    have h := Expr.label_names n e
    simp only [StatementShape.label, StatementShape.names, StatementShape.free,
      StatementShape.Captured, h, and_self]
  | .set _ e => by
    have h := Expr.label_names n e
    simp only [StatementShape.label, StatementShape.names, StatementShape.free,
      StatementShape.Captured, h, and_self]
  | .continue => by
    simp only [StatementShape.label, StatementShape.names, StatementShape.free,
      StatementShape.Captured, and_self]

theorem labelDeclarations_names (n : Nat) : ∀ ds : List (Declaration Unit),
    (labelDeclarations n ds).1.map (·.name) = ds.map (·.name)
      ∧ freeInDeclarations (labelDeclarations n ds).1 = freeInDeclarations ds
      ∧ (declarationsCaptured (labelDeclarations n ds).1 ↔ declarationsCaptured ds)
  | [] => by
    simp only [labelDeclarations, List.map_nil, freeInDeclarations, declarationsCaptured, and_self]
  | ⟨_, _, initial, _⟩ :: ds => by
    have hi := labelOption_names n initial
    have hs := labelDeclarations_names (labelOption n initial).2 ds
    simp only [labelDeclarations, List.map_cons, freeInDeclarations, declarationsCaptured, hi, hs,
      and_self]

end

/-! ## Names in sight -/

theorem removeAll_subset_iff {xs ns Γ : List String} : xs.removeAll ns ⊆ Γ ↔ xs ⊆ ns ++ Γ := by
  simp only [List.subset_def, List.removeAll, List.mem_filter, List.mem_append,
    List.elem_eq_contains, List.contains_eq_mem, Bool.not_eq_true', decide_eq_false_iff_not]
  grind

def Expr.Within (Γ : List String) (e : Expr ι) : Prop :=
  e.free ⊆ Γ ∧ e.Captured

def optionWithin (Γ : List String) (e : Option (Expr ι)) : Prop :=
  freeInOption e ⊆ Γ ∧ optionCaptured e

def parametersWithin (Γ : List String) (ps : List (Parameter ι)) : Prop :=
  freeInParameters ps ⊆ Γ ∧ parametersCaptured ps

def elementsWithin (Γ : List String) (es : List (Element ι)) : Prop :=
  freeInElements es ⊆ Γ ∧ elementsCaptured es

def casesWithin (Γ : List String) (cs : List (SwitchCase ι)) : Prop :=
  freeInCases cs ⊆ Γ ∧ casesCaptured cs

def statementsWithin (Γ : List String) (ss : List (Statement ι)) : Prop :=
  freeInStatements ss ⊆ Γ ∧ statementsCaptured ss

def StatementShape.Within (Γ : List String) (s : StatementShape ι) : Prop :=
  s.free ⊆ Γ ∧ s.Captured

def declarationsWithin (Γ : List String) (ds : List (Declaration ι)) : Prop :=
  freeInDeclarations ds ⊆ Γ ∧ declarationsCaptured ds

section Within

variable {Γ : List String} {location : Option Location}

theorem Expr.within_binary {op : BinaryOp} {l r : Expr ι} :
    Expr.Within Γ ⟨.binary op l r, location⟩ ↔ l.Within Γ ∧ r.Within Γ := by
  simp only [Expr.Within, Expr.free, Shape.free, Expr.Captured, Shape.Captured,
    List.append_subset]
  grind

theorem Expr.within_unary {op : UnaryOp} {e : Expr ι} :
    Expr.Within Γ ⟨.unary op e, location⟩ ↔ e.Within Γ := by
  simp only [Expr.Within, Expr.free, Shape.free, Expr.Captured, Shape.Captured]

theorem Expr.within_conditional {a y n : Expr ι} :
    Expr.Within Γ ⟨.conditional a y n, location⟩ ↔ a.Within Γ ∧ y.Within Γ ∧ n.Within Γ := by
  simp only [Expr.Within, Expr.free, Shape.free, Expr.Captured, Shape.Captured,
    List.append_subset]
  grind

theorem Expr.within_selection {e : Expr ι} :
    Expr.Within Γ ⟨.selection e, location⟩ ↔ e.Within Γ := by
  simp only [Expr.Within, Expr.free, Shape.free, Expr.Captured, Shape.Captured]

theorem Expr.within_choice {t a : Expr ι} :
    Expr.Within Γ ⟨.choice t a, location⟩ ↔ t.Within Γ ∧ a.Within Γ := by
  simp only [Expr.Within, Expr.free, Shape.free, Expr.Captured, Shape.Captured,
    List.append_subset]
  grind

theorem Expr.within_block {ss : List (Statement ι)} :
    Expr.Within Γ ⟨.block ss, location⟩ ↔ statementsWithin Γ ss := by
  simp only [Expr.Within, Expr.free, Shape.free, Expr.Captured, Shape.Captured, statementsWithin]

theorem Expr.within_reference {name : String} :
    Expr.Within Γ (⟨.reference name, location⟩ : Expr ι) ↔ name ∈ Γ := by
  simp [Expr.Within, Expr.free, Shape.free, Expr.Captured, Shape.Captured]

theorem FunctionExpr.Captured.mem_captures {f : FunctionExpr ι} (h : f.Captured) {x : String} :
    x ∈ f.captures ↔ x ∈ f.free := by
  obtain ⟨label, ps, rest, captures, body⟩ := f
  rw [FunctionExpr.Captured] at h
  exact iff_of_eq (congrArg (x ∈ ·) h.1) |>.trans List.mem_eraseDups

theorem Expr.within_function {f : FunctionExpr ι} :
    Expr.Within Γ ⟨.function f, location⟩ ↔ f.captures ⊆ Γ ∧ f.Captured := by
  simp only [Expr.Within, Expr.free, Shape.free, Expr.Captured, Shape.Captured]
  refine and_congr_left fun h => ?_
  simp only [List.subset_def, h.mem_captures]

theorem Expr.within_list {es : List (Element ι)} :
    Expr.Within Γ ⟨.list es, location⟩ ↔ elementsWithin Γ es := by
  simp only [Expr.Within, Expr.free, Shape.free, Expr.Captured, Shape.Captured, elementsWithin]

theorem Expr.within_switch {e : Expr ι} {cs : List (SwitchCase ι)} {d : Option (Expr ι)} :
    Expr.Within Γ ⟨.switch e cs d, location⟩
      ↔ e.Within Γ ∧ casesWithin Γ cs ∧ optionWithin Γ d := by
  simp only [Expr.Within, Expr.free, Shape.free, Expr.Captured, Shape.Captured,
    List.append_subset, casesWithin, optionWithin]
  grind

theorem Expr.within_loop {b a : Option (Expr ι)} {e : Expr ι} :
    Expr.Within Γ ⟨.loop b e a, location⟩
      ↔ optionWithin Γ b ∧ e.Within Γ ∧ optionWithin Γ a := by
  simp only [Expr.Within, Expr.free, Shape.free, Expr.Captured, Shape.Captured,
    List.append_subset, optionWithin]
  grind

theorem Expr.within_cond {a y : Expr ι} {n : Option (Expr ι)} :
    Expr.Within Γ ⟨.cond a y n, location⟩ ↔ a.Within Γ ∧ y.Within Γ ∧ optionWithin Γ n := by
  simp only [Expr.Within, Expr.free, Shape.free, Expr.Captured, Shape.Captured,
    List.append_subset, optionWithin]
  grind

theorem optionWithin_some {e : Expr ι} : optionWithin Γ (some e) ↔ e.Within Γ := by
  simp only [optionWithin, freeInOption, optionCaptured, Expr.Within]

theorem parametersWithin_cons {p : Parameter ι} {ps : List (Parameter ι)} :
    parametersWithin Γ (p :: ps) ↔ optionWithin Γ p.fallback ∧ parametersWithin Γ ps := by
  obtain ⟨name, bound, fallback, location⟩ := p
  simp only [parametersWithin, freeInParameters, parametersCaptured, List.append_subset,
    optionWithin]
  grind

theorem parametersWithin.mono {Δ : List String} {ps : List (Parameter ι)}
    (h : parametersWithin Γ ps) (hs : Γ ⊆ Δ) : parametersWithin Δ ps :=
  ⟨List.Subset.trans h.1 hs, h.2⟩

theorem elementsWithin_item {e : Expr ι} {es : List (Element ι)} :
    elementsWithin Γ (.item e :: es) ↔ e.Within Γ ∧ elementsWithin Γ es := by
  simp only [elementsWithin, freeInElements, elementsCaptured, List.append_subset, Expr.Within]
  grind

theorem elementsWithin_spread {e : Expr ι} {es : List (Element ι)} :
    elementsWithin Γ (.spread e location :: es) ↔ e.Within Γ ∧ elementsWithin Γ es := by
  simp only [elementsWithin, freeInElements, elementsCaptured, List.append_subset, Expr.Within]
  grind

theorem casesWithin_cons {s : SwitchCase ι} {cs : List (SwitchCase ι)} :
    casesWithin Γ (s :: cs) ↔ s.pattern.Within Γ ∧ s.result.Within Γ ∧ casesWithin Γ cs := by
  obtain ⟨p, r⟩ := s
  simp only [casesWithin, freeInCases, casesCaptured, List.append_subset, Expr.Within]
  grind

/-- A statement is evaluated before what it declares can be used. -/
theorem statementsWithin_cons {s : Statement ι} {ss : List (Statement ι)} :
    statementsWithin Γ (s :: ss)
      ↔ s.shape.Within Γ ∧ statementsWithin (s.shape.names ++ Γ) ss := by
  obtain ⟨shape, location⟩ := s
  simp only [statementsWithin, freeInStatements, statementsCaptured, List.append_subset,
    removeAll_subset_iff, StatementShape.Within]
  grind

theorem statementsWithin.mono {Δ : List String} {ss : List (Statement ι)}
    (h : statementsWithin Γ ss) (hs : Γ ⊆ Δ) : statementsWithin Δ ss :=
  ⟨List.Subset.trans h.1 hs, h.2⟩

theorem declarationsWithin_cons {d : Declaration ι} {ds : List (Declaration ι)} :
    declarationsWithin Γ (d :: ds)
      ↔ optionWithin Γ d.initial ∧ declarationsWithin (d.name :: Γ) ds := by
  obtain ⟨name, bound, initial, location⟩ := d
  simp only [declarationsWithin, freeInDeclarations, declarationsCaptured, List.append_subset,
    removeAll_subset_iff, optionWithin, List.cons_append, List.nil_append]
  grind

/-- The defaults of a captured function use what it keeps, and its body the parameters too. -/
theorem FunctionExpr.Captured.within {f : FunctionExpr ι} (h : f.Captured) :
    parametersWithin f.captures f.parameters ∧ f.body.Within (f.names ++ f.captures) := by
  have hc := @h.mem_captures
  obtain ⟨label, ps, rest, captures, body⟩ := f
  rw [FunctionExpr.Captured] at h
  simp only [FunctionExpr.free, List.mem_append] at hc
  refine ⟨⟨fun x hx => hc.mpr (.inl hx), h.2.1⟩, ?_, h.2.2⟩
  exact removeAll_subset_iff.mp fun x hx => hc.mpr (.inr hx)

theorem Expr.Within.mono {Δ : List String} {e : Expr ι} (h : e.Within Γ) (hs : Γ ⊆ Δ) :
    e.Within Δ :=
  ⟨List.Subset.trans h.1 hs, h.2⟩

end Within

end Tale
