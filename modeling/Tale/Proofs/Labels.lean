import Tale.Language.Tree.Label

/-!
# The labels of functions

The function expressions of a tree in reading order, wherever in it they are. The numbers that a
story's functions are labelled with count them in this order, so that a label tells where in the
story its function stands (`Story.labelled_label`).
-/

namespace Tale

variable {ι : Type}

mutual

def Expr.functions : Expr ι → List (FunctionExpr ι)
  | ⟨shape, _⟩ => shape.functions

def Shape.functions : Shape ι → List (FunctionExpr ι)
  | .number _ => []
  | .boolean _ => []
  | .string _ => []
  | .null => []
  | .binary _ l r => l.functions ++ r.functions
  | .unary _ e => e.functions
  | .conditional c y n => c.functions ++ (y.functions ++ n.functions)
  | .goto _ => []
  | .exit => []
  | .selection e => e.functions
  | .choice t a => t.functions ++ a.functions
  | .block ss => functionsInStatements ss
  | .reference _ => []
  | .function f => f.functions
  | .list es => functionsInElements es
  | .switch e cs d => e.functions ++ (functionsInCases cs ++ functionsInOption d)
  | .loop b c a => functionsInOption b ++ (c.functions ++ functionsInOption a)
  | .cond c y n => c.functions ++ (y.functions ++ functionsInOption n)
  | .tag _ => []

def functionsInOption : Option (Expr ι) → List (FunctionExpr ι)
  | none => []
  | some e => e.functions

/-- A function, and those in it. -/
def FunctionExpr.functions : FunctionExpr ι → List (FunctionExpr ι)
  | ⟨label, ps, restName, captures, body⟩ =>
    ⟨label, ps, restName, captures, body⟩ :: (functionsInParameters ps ++ body.functions)

def functionsInParameters : List (Parameter ι) → List (FunctionExpr ι)
  | [] => []
  | ⟨_, _, fallback, _⟩ :: ps => functionsInOption fallback ++ functionsInParameters ps

def functionsInElements : List (Element ι) → List (FunctionExpr ι)
  | [] => []
  | .item e :: es => e.functions ++ functionsInElements es
  | .spread e _ :: es => e.functions ++ functionsInElements es

def functionsInCases : List (SwitchCase ι) → List (FunctionExpr ι)
  | [] => []
  | ⟨p, r⟩ :: cs => p.functions ++ (r.functions ++ functionsInCases cs)

def functionsInStatements : List (Statement ι) → List (FunctionExpr ι)
  | [] => []
  | ⟨shape, _⟩ :: ss => shape.functions ++ functionsInStatements ss

def StatementShape.functions : StatementShape ι → List (FunctionExpr ι)
  | .declare ds => functionsInDeclarations ds
  | .expression e => e.functions
  | .leave _ e => e.functions
  | .set _ e => e.functions
  | .continue => []

def functionsInDeclarations : List (Declaration ι) → List (FunctionExpr ι)
  | [] => []
  | ⟨_, _, initial, _⟩ :: ds => functionsInOption initial ++ functionsInDeclarations ds

end

def functionsInSections : List (Section ι) → List (FunctionExpr ι)
  | [] => []
  | s :: ss => functionsInOption s.executes ++ (s.next.functions ++ functionsInSections ss)

/-- All function expressions of a story. -/
def Story.functions (s : Story ι) : List (FunctionExpr ι) :=
  functionsInStatements s.init ++ functionsInSections s.sections

/-! ## Counting -/

/-- Functions that are labelled one after the other, from a number up to another one. -/
inductive Counted : Nat → List (FunctionExpr Nat) → Nat → Prop
  | nil {n : Nat} : Counted n [] n
  | cons {f : FunctionExpr Nat} {fs : List (FunctionExpr Nat)} {m : Nat}
      (h : Counted (f.label + 1) fs m) : Counted f.label (f :: fs) m

namespace Counted

variable {fs gs : List (FunctionExpr Nat)} {n k m : Nat}

theorem append (h : Counted n fs k) (h' : Counted k gs m) : Counted n (fs ++ gs) m := by
  induction h with
  | nil => exact h'
  | cons _ ih => exact .cons (ih h')

theorem label (h : Counted n fs m) {i : Nat} {f : FunctionExpr Nat} (hf : fs[i]? = some f) :
    f.label = n + i := by
  induction h generalizing i with
  | nil => cases hf
  | @cons g fs m h ih =>
    cases i with
    | zero => cases hf; rfl
    | succ i => rw [ih hf, Nat.add_assoc, Nat.add_comm 1]

end Counted

mutual

theorem Expr.label_counted (n : Nat) : ∀ e : Expr Unit,
    Counted n (e.label n).1.functions (e.label n).2
  | ⟨shape, _⟩ => Shape.label_counted n shape

theorem Shape.label_counted (n : Nat) : ∀ s : Shape Unit,
    Counted n (s.label n).1.functions (s.label n).2
  | .number _ => .nil
  | .boolean _ => .nil
  | .string _ => .nil
  | .null => .nil
  | .goto _ => .nil
  | .exit => .nil
  | .reference _ => .nil
  | .tag _ => .nil
  | .binary _ l r =>
    (Expr.label_counted n l).append (Expr.label_counted (l.label n).2 r)
  | .unary _ e => Expr.label_counted n e
  | .conditional c y o =>
    (Expr.label_counted n c).append <| (Expr.label_counted (c.label n).2 y).append <|
      Expr.label_counted (y.label (c.label n).2).2 o
  | .selection e => Expr.label_counted n e
  | .choice t a => (Expr.label_counted n t).append (Expr.label_counted (t.label n).2 a)
  | .block ss => labelStatements_counted n ss
  | .function f => labelFunction_counted n f
  | .list es => labelElements_counted n es
  | .switch e cs d =>
    (Expr.label_counted n e).append <| (labelCases_counted (e.label n).2 cs).append <|
      labelOption_counted (labelCases (e.label n).2 cs).2 d
  | .loop b c a =>
    (labelOption_counted n b).append <| (Expr.label_counted (labelOption n b).2 c).append <|
      labelOption_counted (c.label (labelOption n b).2).2 a
  | .cond c y o =>
    (Expr.label_counted n c).append <| (Expr.label_counted (c.label n).2 y).append <|
      labelOption_counted (y.label (c.label n).2).2 o

theorem labelOption_counted (n : Nat) : ∀ e : Option (Expr Unit),
    Counted n (functionsInOption (labelOption n e).1) (labelOption n e).2
  | none => .nil
  | some e => Expr.label_counted n e

theorem labelFunction_counted (n : Nat) : ∀ f : FunctionExpr Unit,
    Counted n (labelFunction n f).1.functions (labelFunction n f).2
  | ⟨label, ps, restName, captures, body⟩ =>
    .cons (f := (labelFunction n ⟨label, ps, restName, captures, body⟩).1) <|
      (labelParameters_counted (n + 1) ps).append <|
        Expr.label_counted (labelParameters (n + 1) ps).2 body

theorem labelParameters_counted (n : Nat) : ∀ ps : List (Parameter Unit),
    Counted n (functionsInParameters (labelParameters n ps).1) (labelParameters n ps).2
  | [] => .nil
  | ⟨_, _, fallback, _⟩ :: ps =>
    (labelOption_counted n fallback).append (labelParameters_counted (labelOption n fallback).2 ps)

theorem labelElements_counted (n : Nat) : ∀ es : List (Element Unit),
    Counted n (functionsInElements (labelElements n es).1) (labelElements n es).2
  | [] => .nil
  | .item e :: es | .spread e _ :: es =>
    (Expr.label_counted n e).append (labelElements_counted (e.label n).2 es)

theorem labelCases_counted (n : Nat) : ∀ cs : List (SwitchCase Unit),
    Counted n (functionsInCases (labelCases n cs).1) (labelCases n cs).2
  | [] => .nil
  | ⟨p, r⟩ :: cs =>
    (Expr.label_counted n p).append <| (Expr.label_counted (p.label n).2 r).append <|
      labelCases_counted (r.label (p.label n).2).2 cs

theorem labelStatements_counted (n : Nat) : ∀ ss : List (Statement Unit),
    Counted n (functionsInStatements (labelStatements n ss).1) (labelStatements n ss).2
  | [] => .nil
  | ⟨shape, _⟩ :: ss =>
    (StatementShape.label_counted n shape).append (labelStatements_counted (shape.label n).2 ss)

theorem StatementShape.label_counted (n : Nat) : ∀ s : StatementShape Unit,
    Counted n (s.label n).1.functions (s.label n).2
  | .declare ds => labelDeclarations_counted n ds
  | .expression e => Expr.label_counted n e
  | .leave _ e => Expr.label_counted n e
  | .set _ e => Expr.label_counted n e
  | .continue => .nil

theorem labelDeclarations_counted (n : Nat) : ∀ ds : List (Declaration Unit),
    Counted n (functionsInDeclarations (labelDeclarations n ds).1) (labelDeclarations n ds).2
  | [] => .nil
  | ⟨_, _, initial, _⟩ :: ds =>
    (labelOption_counted n initial).append (labelDeclarations_counted (labelOption n initial).2 ds)

end

theorem labelSections_counted : ∀ (n : Nat) (ss : List (Section Unit)),
    Counted n (functionsInSections (labelSections n ss).1) (labelSections n ss).2
  | _, [] => .nil
  | n, ⟨_, executes, next, _, _⟩ :: ss =>
    (labelOption_counted n executes).append <|
      (Expr.label_counted (labelOption n executes).2 next).append <|
        labelSections_counted (next.label (labelOption n executes).2).2 ss

/-- The label of a function is its place among the functions of the story. -/
theorem Story.labelled_label {s : Story Unit} {i : Nat} {f : FunctionExpr Nat}
    (h : s.labelled.functions[i]? = some f) : f.label = i := by
  have hc := (labelStatements_counted 0 s.init).append
    (labelSections_counted (labelStatements 0 s.init).2 s.sections)
  rw [hc.label h, Nat.zero_add]

end Tale
