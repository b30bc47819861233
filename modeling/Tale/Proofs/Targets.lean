import Tale.Language.Tree.Label
import Tale.Proofs.Exits

/-!
# The targets of a tree

Where the gotos of a tree lead, wherever in it they are: in functions and the defaults of their
parameters, in the cases of a switch, in the members of a list. The targets are listed in reading
order, and numbering the functions of a tree does not change them.
-/

namespace Tale

variable {ι : Type}

mutual

def Expr.targets : Expr ι → List String
  | ⟨shape, _⟩ => shape.targets

def Shape.targets : Shape ι → List String
  | .number _ => []
  | .boolean _ => []
  | .string _ => []
  | .null => []
  | .binary _ l r => l.targets ++ r.targets
  | .unary _ e => e.targets
  | .conditional c y n => c.targets ++ (y.targets ++ n.targets)
  | .goto names => names
  | .exit => []
  | .selection e => e.targets
  | .choice t a => t.targets ++ a.targets
  | .block ss => targetsInStatements ss
  | .reference _ => []
  | .function f => f.targets
  | .list es => targetsInElements es
  | .switch e cs d => e.targets ++ (targetsInCases cs ++ targetsInOption d)
  | .loop b c a => targetsInOption b ++ (c.targets ++ targetsInOption a)
  | .cond c y n => c.targets ++ (y.targets ++ targetsInOption n)
  | .tag _ => []

def targetsInOption : Option (Expr ι) → List String
  | none => []
  | some e => e.targets

def FunctionExpr.targets : FunctionExpr ι → List String
  | ⟨_, ps, _, _, body⟩ => targetsInParameters ps ++ body.targets

def targetsInParameters : List (Parameter ι) → List String
  | [] => []
  | ⟨_, _, fallback, _⟩ :: ps => targetsInOption fallback ++ targetsInParameters ps

def targetsInElements : List (Element ι) → List String
  | [] => []
  | .item e :: es => e.targets ++ targetsInElements es
  | .spread e _ :: es => e.targets ++ targetsInElements es

def targetsInCases : List (SwitchCase ι) → List String
  | [] => []
  | ⟨p, r⟩ :: cs => p.targets ++ (r.targets ++ targetsInCases cs)

def targetsInStatements : List (Statement ι) → List String
  | [] => []
  | ⟨shape, _⟩ :: ss => shape.targets ++ targetsInStatements ss

def StatementShape.targets : StatementShape ι → List String
  | .declare ds => targetsInDeclarations ds
  | .expression e => e.targets
  | .leave _ e => e.targets
  | .set _ e => e.targets
  | .continue => []

def targetsInDeclarations : List (Declaration ι) → List String
  | [] => []
  | ⟨_, _, initial, _⟩ :: ds => targetsInOption initial ++ targetsInDeclarations ds

end

def Section.targets (s : Section ι) : List String :=
  targetsInOption s.executes ++ s.next.targets

def Story.targets (s : Story ι) : List String :=
  targetsInStatements s.init ++ s.sections.flatMap (·.targets)

/-! ## Rows -/

theorem targetsInOption_eq {e : Option (Expr ι)} :
    targetsInOption e = e.toList.flatMap Expr.targets := by
  cases e <;> simp [targetsInOption]

theorem targetsInParameters_eq {ps : List (Parameter ι)} :
    targetsInParameters ps = ps.flatMap fun p => targetsInOption p.fallback := by
  induction ps with
  | nil => rfl
  | cons p ps ih =>
    cases p
    rw [List.flatMap_cons, ← ih, targetsInParameters]

theorem targetsInElements_eq {es : List (Element ι)} :
    targetsInElements es = es.flatMap (·.expr.targets) := by
  induction es with
  | nil => rfl
  | cons e es ih => cases e <;> rw [List.flatMap_cons, ← ih, targetsInElements, Element.expr]

theorem targetsInCases_eq {cs : List (SwitchCase ι)} :
    targetsInCases cs = cs.flatMap fun c => c.exprs.flatMap Expr.targets := by
  induction cs with
  | nil => rfl
  | cons c cs ih =>
    cases c
    simp [ih, targetsInCases, SwitchCase.exprs]

theorem targetsInStatements_eq {ss : List (Statement ι)} :
    targetsInStatements ss = ss.flatMap (·.shape.targets) := by
  induction ss with
  | nil => rfl
  | cons s ss ih =>
    cases s
    rw [List.flatMap_cons, ← ih, targetsInStatements]

theorem targetsInDeclarations_eq {ds : List (Declaration ι)} :
    targetsInDeclarations ds = ds.flatMap fun d => targetsInOption d.initial := by
  induction ds with
  | nil => rfl
  | cons d ds ih =>
    cases d
    rw [List.flatMap_cons, ← ih, targetsInDeclarations]

/-! ## Parts -/

theorem Expr.targets_part {e e' : Expr ι} (h : e' ∈ e.shape.parts) : e'.targets ⊆ e.targets := by
  obtain ⟨shape, location⟩ := e
  intro x hx
  cases shape <;>
    simp only [Shape.parts, List.mem_cons, List.not_mem_nil, or_false, List.mem_map,
      List.mem_append, List.mem_flatMap] at h <;>
    simp only [Expr.targets, Shape.targets, targetsInElements_eq, targetsInCases_eq,
      targetsInOption_eq, List.mem_append, List.mem_flatMap]
  all_goals grind

theorem StatementShape.targets_part {s : StatementShape ι} {e : Expr ι} (h : e ∈ s.parts) :
    e.targets ⊆ s.targets := by
  intro x hx
  cases s <;>
    simp only [StatementShape.parts, List.mem_singleton, List.not_mem_nil,
      List.mem_flatMap] at h <;>
    simp only [StatementShape.targets, targetsInDeclarations_eq, targetsInOption_eq,
      List.mem_flatMap]
  all_goals grind

theorem targets_of_statement {ss : List (Statement ι)} {s : Statement ι} (hs : s ∈ ss)
    {e : Expr ι} (h : e ∈ s.shape.parts) : e.targets ⊆ targetsInStatements ss := by
  intro x hx
  rw [targetsInStatements_eq]
  exact List.mem_flatMap.mpr ⟨s, hs, StatementShape.targets_part h hx⟩

theorem Shape.targets_loop {b a : Option (Expr ι)} {c e : Expr ι}
    (h : e ∈ b.toList ++ c :: a.toList) : e.targets ⊆ (Shape.loop b c a).targets := by
  intro x hx
  simp only [List.mem_append, List.mem_cons] at h
  simp only [Shape.targets, targetsInOption_eq, List.mem_append, List.mem_flatMap]
  grind

theorem FunctionExpr.targets_part {f : FunctionExpr ι} {e : Expr ι} (h : e ∈ f.parts) :
    e.targets ⊆ f.targets := by
  obtain ⟨_, ps, _, _, body⟩ := f
  intro x hx
  simp only [FunctionExpr.parts, List.mem_append, List.mem_flatMap, List.mem_singleton] at h
  simp only [FunctionExpr.targets, targetsInParameters_eq, targetsInOption_eq, List.mem_append,
    List.mem_flatMap]
  grind

/-! ## Numbering -/

mutual

theorem Expr.label_targets (n : Nat) : ∀ e : Expr Unit, (e.label n).1.targets = e.targets
  | ⟨shape, _⟩ => by
    have h := Shape.label_targets n shape
    simp only [Expr.label, Expr.targets, h]

theorem Shape.label_targets (n : Nat) : ∀ s : Shape Unit, (s.label n).1.targets = s.targets
  | .number _ => rfl
  | .boolean _ => rfl
  | .string _ => rfl
  | .null => rfl
  | .binary _ l r => by
    have hl := Expr.label_targets n l
    have hr := Expr.label_targets (l.label n).2 r
    simp only [Shape.label, Shape.targets, hl, hr]
  | .unary _ e => by
    have h := Expr.label_targets n e
    simp only [Shape.label, Shape.targets, h]
  | .conditional c y o => by
    have hc := Expr.label_targets n c
    have hy := Expr.label_targets (c.label n).2 y
    have ho := Expr.label_targets (y.label (c.label n).2).2 o
    simp only [Shape.label, Shape.targets, hc, hy, ho]
  | .goto _ => rfl
  | .exit => rfl
  | .selection e => by
    have h := Expr.label_targets n e
    simp only [Shape.label, Shape.targets, h]
  | .choice t a => by
    have ht := Expr.label_targets n t
    have ha := Expr.label_targets (t.label n).2 a
    simp only [Shape.label, Shape.targets, ht, ha]
  | .block ss => by
    have h := labelStatements_targets n ss
    simp only [Shape.label, Shape.targets, h]
  | .reference _ => rfl
  | .function f => by
    have h := labelFunction_targets n f
    simp only [Shape.label, Shape.targets, h]
  | .list es => by
    have h := labelElements_targets n es
    simp only [Shape.label, Shape.targets, h]
  | .switch e cs d => by
    have he := Expr.label_targets n e
    have hc := labelCases_targets (e.label n).2 cs
    have hd := labelOption_targets (labelCases (e.label n).2 cs).2 d
    simp only [Shape.label, Shape.targets, he, hc, hd]
  | .loop b c a => by
    have hb := labelOption_targets n b
    have hc := Expr.label_targets (labelOption n b).2 c
    have ha := labelOption_targets (c.label (labelOption n b).2).2 a
    simp only [Shape.label, Shape.targets, hb, hc, ha]
  | .cond c y o => by
    have hc := Expr.label_targets n c
    have hy := Expr.label_targets (c.label n).2 y
    have ho := labelOption_targets (y.label (c.label n).2).2 o
    simp only [Shape.label, Shape.targets, hc, hy, ho]
  | .tag _ => rfl

theorem labelOption_targets (n : Nat) : ∀ e : Option (Expr Unit),
    targetsInOption (labelOption n e).1 = targetsInOption e
  | none => rfl
  | some e => by
    have h := Expr.label_targets n e
    simp only [labelOption, targetsInOption, h]

theorem labelFunction_targets (n : Nat) : ∀ f : FunctionExpr Unit,
    (labelFunction n f).1.targets = f.targets
  | ⟨_, ps, _, _, body⟩ => by
    have hp := labelParameters_targets (n + 1) ps
    have hb := Expr.label_targets (labelParameters (n + 1) ps).2 body
    simp only [labelFunction, FunctionExpr.targets, hp, hb]

theorem labelParameters_targets (n : Nat) : ∀ ps : List (Parameter Unit),
    targetsInParameters (labelParameters n ps).1 = targetsInParameters ps
  | [] => rfl
  | ⟨_, _, fallback, _⟩ :: ps => by
    have hf := labelOption_targets n fallback
    have hp := labelParameters_targets (labelOption n fallback).2 ps
    simp only [labelParameters, targetsInParameters, hf, hp]

theorem labelElements_targets (n : Nat) : ∀ es : List (Element Unit),
    targetsInElements (labelElements n es).1 = targetsInElements es
  | [] => rfl
  | .item e :: es => by
    have he := Expr.label_targets n e
    have hs := labelElements_targets (e.label n).2 es
    simp only [labelElements, targetsInElements, he, hs]
  | .spread e _ :: es => by
    have he := Expr.label_targets n e
    have hs := labelElements_targets (e.label n).2 es
    simp only [labelElements, targetsInElements, he, hs]

theorem labelCases_targets (n : Nat) : ∀ cs : List (SwitchCase Unit),
    targetsInCases (labelCases n cs).1 = targetsInCases cs
  | [] => rfl
  | ⟨p, r⟩ :: cs => by
    have hp := Expr.label_targets n p
    have hr := Expr.label_targets (p.label n).2 r
    have hs := labelCases_targets (r.label (p.label n).2).2 cs
    simp only [labelCases, targetsInCases, hp, hr, hs]

theorem labelStatements_targets (n : Nat) : ∀ ss : List (Statement Unit),
    targetsInStatements (labelStatements n ss).1 = targetsInStatements ss
  | [] => rfl
  | ⟨shape, _⟩ :: ss => by
    have h := StatementShape.label_targets n shape
    have hs := labelStatements_targets (shape.label n).2 ss
    simp only [labelStatements, targetsInStatements, h, hs]

theorem StatementShape.label_targets (n : Nat) : ∀ s : StatementShape Unit,
    (s.label n).1.targets = s.targets
  | .declare ds => by
    have h := labelDeclarations_targets n ds
    simp only [StatementShape.label, StatementShape.targets, h]
  | .expression e => by
    have h := Expr.label_targets n e
    simp only [StatementShape.label, StatementShape.targets, h]
  | .leave _ e => by
    have h := Expr.label_targets n e
    simp only [StatementShape.label, StatementShape.targets, h]
  | .set _ e => by
    have h := Expr.label_targets n e
    simp only [StatementShape.label, StatementShape.targets, h]
  | .continue => rfl

theorem labelDeclarations_targets (n : Nat) : ∀ ds : List (Declaration Unit),
    targetsInDeclarations (labelDeclarations n ds).1 = targetsInDeclarations ds
  | [] => rfl
  | ⟨_, _, initial, _⟩ :: ds => by
    have hi := labelOption_targets n initial
    have hs := labelDeclarations_targets (labelOption n initial).2 ds
    simp only [labelDeclarations, targetsInDeclarations, hi, hs]

end

theorem labelSections_targets : ∀ (n : Nat) (ss : List (Section Unit)),
    (labelSections n ss).1.map (fun x => (x.name, x.targets)) = ss.map fun x => (x.name, x.targets)
  | _, [] => rfl
  | n, ⟨name, executes, next, contents, location⟩ :: ss => by
    have he := labelOption_targets n executes
    have hn := Expr.label_targets (labelOption n executes).2 next
    have hs := labelSections_targets (next.label (labelOption n executes).2).2 ss
    simp only [Section.targets] at hs
    simp only [labelSections, List.map_cons, Section.targets, he, hn, hs]

/-- The story that is told has the sections and the targets of the one that was read. -/
theorem Story.labelled_names {s : Story Unit} :
    s.labelled.sections.map (·.name) = s.sections.map (·.name) := by
  have h := labelSections_targets (labelStatements 0 s.init).2 s.sections
  have := congrArg (List.map Prod.fst) h
  simpa only [Story.labelled, List.map_map, Function.comp_def] using this

theorem Story.labelled_targets {s : Story Unit} : s.labelled.targets = s.targets := by
  have hi := labelStatements_targets 0 s.init
  have h := congrArg (List.map Prod.snd)
    (labelSections_targets (labelStatements 0 s.init).2 s.sections)
  simp only [List.map_map, Function.comp_def] at h
  simp only [Story.labelled, Story.targets, hi, List.flatMap, h]

end Tale
