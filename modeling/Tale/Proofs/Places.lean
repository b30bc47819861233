import Tale.Language.Tree.Label

/-!
# Places and references in a tree

`relocate` moves every place of a tree and changes nothing else. `references` lists the names a
tree refers to, wherever they are bound; the names that functions capture only repeat some of
them. Numbering the functions of a tree touches neither its places nor its references.
-/

namespace Tale

variable {ι : Type}

section Relocate

variable (σ : Option Location → Option Location)

mutual

def Expr.relocate : Expr ι → Expr ι
  | ⟨shape, location⟩ => ⟨shape.relocate, σ location⟩

def Shape.relocate : Shape ι → Shape ι
  | .number x => .number x
  | .boolean b => .boolean b
  | .string s => .string s
  | .null => .null
  | .binary op l r => .binary op l.relocate r.relocate
  | .unary op e => .unary op e.relocate
  | .conditional c y n => .conditional c.relocate y.relocate n.relocate
  | .goto names => .goto names
  | .exit => .exit
  | .selection e => .selection e.relocate
  | .choice t a => .choice t.relocate a.relocate
  | .block ss => .block (relocateStatements ss)
  | .reference name => .reference name
  | .function f => .function f.relocate
  | .list es => .list (relocateElements es)
  | .switch e cs d => .switch e.relocate (relocateCases cs) (relocateOption d)
  | .loop b c a => .loop (relocateOption b) c.relocate (relocateOption a)
  | .cond c y n => .cond c.relocate y.relocate (relocateOption n)
  | .tag name => .tag name

def relocateOption : Option (Expr ι) → Option (Expr ι)
  | none => none
  | some e => some e.relocate

def FunctionExpr.relocate : FunctionExpr ι → FunctionExpr ι
  | ⟨label, ps, rest, captures, body⟩ =>
    ⟨label, relocateParameters ps, rest, captures, body.relocate⟩

def relocateParameters : List (Parameter ι) → List (Parameter ι)
  | [] => []
  | ⟨name, bound, fallback, location⟩ :: ps =>
    ⟨name, bound, relocateOption fallback, σ location⟩ :: relocateParameters ps

def relocateElements : List (Element ι) → List (Element ι)
  | [] => []
  | .item e :: es => .item e.relocate :: relocateElements es
  | .spread e location :: es => .spread e.relocate (σ location) :: relocateElements es

def relocateCases : List (SwitchCase ι) → List (SwitchCase ι)
  | [] => []
  | ⟨p, r⟩ :: cs => ⟨p.relocate, r.relocate⟩ :: relocateCases cs

def relocateStatements : List (Statement ι) → List (Statement ι)
  | [] => []
  | ⟨shape, location⟩ :: ss => ⟨shape.relocate, σ location⟩ :: relocateStatements ss

def StatementShape.relocate : StatementShape ι → StatementShape ι
  | .declare ds => .declare (relocateDeclarations ds)
  | .expression e => .expression e.relocate
  | .leave r e => .leave r e.relocate
  | .set r e => .set r e.relocate
  | .continue => .continue

def relocateDeclarations : List (Declaration ι) → List (Declaration ι)
  | [] => []
  | ⟨name, bound, initial, location⟩ :: ds =>
    ⟨name, bound, relocateOption initial, σ location⟩ :: relocateDeclarations ds

end

def Section.relocate (s : Section ι) : Section ι :=
  ⟨s.name, relocateOption σ s.executes, s.next.relocate σ, s.contents, σ s.location⟩

def Story.relocate (s : Story ι) : Story ι :=
  ⟨s.version, relocateStatements σ s.init, s.sections.map (Section.relocate σ)⟩

end Relocate

mutual

def Expr.references : Expr ι → List String
  | ⟨shape, _⟩ => shape.references

def Shape.references : Shape ι → List String
  | .binary _ l r => l.references ++ r.references
  | .unary _ e => e.references
  | .conditional c y n => c.references ++ (y.references ++ n.references)
  | .selection e => e.references
  | .choice t a => t.references ++ a.references
  | .block ss => referencesInStatements ss
  | .reference name => [name]
  | .function f => f.references
  | .list es => referencesInElements es
  | .switch e cs d => e.references ++ (referencesInCases cs ++ referencesInOption d)
  | .loop b c a => referencesInOption b ++ (c.references ++ referencesInOption a)
  | .cond c y n => c.references ++ (y.references ++ referencesInOption n)
  | .number _ | .boolean _ | .string _ | .null | .goto _ | .exit | .tag _ => []

def referencesInOption : Option (Expr ι) → List String
  | none => []
  | some e => e.references

def FunctionExpr.references : FunctionExpr ι → List String
  | ⟨_, ps, _, _, body⟩ => referencesInParameters ps ++ body.references

def referencesInParameters : List (Parameter ι) → List String
  | [] => []
  | ⟨_, _, fallback, _⟩ :: ps => referencesInOption fallback ++ referencesInParameters ps

def referencesInElements : List (Element ι) → List String
  | [] => []
  | .item e :: es => e.references ++ referencesInElements es
  | .spread e _ :: es => e.references ++ referencesInElements es

def referencesInCases : List (SwitchCase ι) → List String
  | [] => []
  | ⟨p, r⟩ :: cs => p.references ++ (r.references ++ referencesInCases cs)

def referencesInStatements : List (Statement ι) → List String
  | [] => []
  | ⟨shape, _⟩ :: ss => shape.references ++ referencesInStatements ss

def StatementShape.references : StatementShape ι → List String
  | .declare ds => referencesInDeclarations ds
  | .expression e => e.references
  | .leave _ e => e.references
  | .set _ e => e.references
  | .continue => []

def referencesInDeclarations : List (Declaration ι) → List String
  | [] => []
  | ⟨_, _, initial, _⟩ :: ds => referencesInOption initial ++ referencesInDeclarations ds

end

/-- Contents are no expressions; they only show what variables hold. -/
def Section.references (s : Section ι) : List String :=
  referencesInOption s.executes ++ s.next.references

def Story.references (s : Story ι) : List String :=
  referencesInStatements s.init ++ s.sections.flatMap Section.references

/-! ## Places that stay -/

mutual

theorem Expr.relocate_id : ∀ e : Expr ι, e.relocate id = e
  | ⟨shape, _⟩ => by rw [Expr.relocate, Shape.relocate_id shape, id]

theorem Shape.relocate_id : ∀ s : Shape ι, s.relocate id = s
  | .number _ | .boolean _ | .string _ | .null | .goto _ | .exit | .reference _ | .tag _ => by
    rw [Shape.relocate]
  | .binary _ l r => by rw [Shape.relocate, l.relocate_id, r.relocate_id]
  | .unary _ e => by rw [Shape.relocate, e.relocate_id]
  | .conditional c y n => by rw [Shape.relocate, c.relocate_id, y.relocate_id, n.relocate_id]
  | .selection e => by rw [Shape.relocate, e.relocate_id]
  | .choice t a => by rw [Shape.relocate, t.relocate_id, a.relocate_id]
  | .block ss => by rw [Shape.relocate, relocateStatements_id ss]
  | .function f => by rw [Shape.relocate, f.relocate_id]
  | .list es => by rw [Shape.relocate, relocateElements_id es]
  | .switch e cs d => by
    rw [Shape.relocate, e.relocate_id, relocateCases_id cs, relocateOption_id d]
  | .loop b c a => by rw [Shape.relocate, relocateOption_id b, c.relocate_id, relocateOption_id a]
  | .cond c y n => by rw [Shape.relocate, c.relocate_id, y.relocate_id, relocateOption_id n]

theorem relocateOption_id : ∀ e : Option (Expr ι), relocateOption id e = e
  | none => rfl
  | some e => by rw [relocateOption, e.relocate_id]

theorem FunctionExpr.relocate_id : ∀ f : FunctionExpr ι, f.relocate id = f
  | ⟨_, ps, _, _, body⟩ => by
    rw [FunctionExpr.relocate, relocateParameters_id ps, body.relocate_id]

theorem relocateParameters_id : ∀ ps : List (Parameter ι), relocateParameters id ps = ps
  | [] => rfl
  | ⟨_, _, fallback, _⟩ :: ps => by
    rw [relocateParameters, relocateOption_id fallback, relocateParameters_id ps, id]

theorem relocateElements_id : ∀ es : List (Element ι), relocateElements id es = es
  | [] => rfl
  | .item e :: es => by rw [relocateElements, e.relocate_id, relocateElements_id es]
  | .spread e _ :: es => by rw [relocateElements, e.relocate_id, relocateElements_id es, id]

theorem relocateCases_id : ∀ cs : List (SwitchCase ι), relocateCases id cs = cs
  | [] => rfl
  | ⟨p, r⟩ :: cs => by rw [relocateCases, p.relocate_id, r.relocate_id, relocateCases_id cs]

theorem relocateStatements_id : ∀ ss : List (Statement ι), relocateStatements id ss = ss
  | [] => rfl
  | ⟨shape, _⟩ :: ss => by
    rw [relocateStatements, shape.relocate_id, relocateStatements_id ss, id]

theorem StatementShape.relocate_id : ∀ s : StatementShape ι, s.relocate id = s
  | .declare ds => by rw [StatementShape.relocate, relocateDeclarations_id ds]
  | .expression e => by rw [StatementShape.relocate, e.relocate_id]
  | .leave _ e => by rw [StatementShape.relocate, e.relocate_id]
  | .set _ e => by rw [StatementShape.relocate, e.relocate_id]
  | .continue => rfl

theorem relocateDeclarations_id : ∀ ds : List (Declaration ι), relocateDeclarations id ds = ds
  | [] => rfl
  | ⟨_, _, initial, _⟩ :: ds => by
    rw [relocateDeclarations, relocateOption_id initial, relocateDeclarations_id ds, id]

end

theorem Section.relocate_id (s : Section ι) : s.relocate id = s := by
  rw [Section.relocate, relocateOption_id, Expr.relocate_id, id]

theorem Story.relocate_id (s : Story ι) : s.relocate id = s := by
  have h : Section.relocate id = (id : Section ι → Section ι) := funext Section.relocate_id
  rw [Story.relocate, relocateStatements_id, h, List.map_id]

/-! ## What has no place -/

section Kept

variable (σ : Option Location → Option Location)

theorem FunctionExpr.relocate_label (f : FunctionExpr ι) : (f.relocate σ).label = f.label := by
  cases f
  rfl

theorem relocateParameters_names (ps : List (Parameter ι)) :
    (relocateParameters σ ps).map (·.name) = ps.map (·.name) := by
  induction ps with
  | nil => rfl
  | cons p ps ih =>
    cases p
    rw [relocateParameters, List.map_cons, List.map_cons, ih]

end Kept

/-! ## Numbering -/

section Label

variable (σ : Option Location → Option Location)

mutual

theorem Expr.label_relocate (n : Nat) : ∀ e : Expr Unit,
    (e.relocate σ).label n = ((e.label n).1.relocate σ, (e.label n).2)
      ∧ (e.label n).1.references = e.references
  | ⟨shape, _⟩ => by
    have h := Shape.label_relocate n shape
    simp only [Expr.relocate, Expr.label, Expr.references, h, and_self]

theorem Shape.label_relocate (n : Nat) : ∀ s : Shape Unit,
    (s.relocate σ).label n = ((s.label n).1.relocate σ, (s.label n).2)
      ∧ (s.label n).1.references = s.references
  | .number _ | .boolean _ | .string _ | .null | .goto _ | .exit | .reference _ | .tag _ => by
    simp only [Shape.relocate, Shape.label, Shape.references, and_self]
  | .binary _ l r => by
    have hl := Expr.label_relocate n l
    have hr := Expr.label_relocate (l.label n).2 r
    simp only [Shape.relocate, Shape.label, Shape.references, hl, hr, and_self]
  | .unary _ e => by
    have h := Expr.label_relocate n e
    simp only [Shape.relocate, Shape.label, Shape.references, h, and_self]
  | .conditional c y o => by
    have hc := Expr.label_relocate n c
    have hy := Expr.label_relocate (c.label n).2 y
    have ho := Expr.label_relocate (y.label (c.label n).2).2 o
    simp only [Shape.relocate, Shape.label, Shape.references, hc, hy, ho, and_self]
  | .selection e => by
    have h := Expr.label_relocate n e
    simp only [Shape.relocate, Shape.label, Shape.references, h, and_self]
  | .choice t a => by
    have ht := Expr.label_relocate n t
    have ha := Expr.label_relocate (t.label n).2 a
    simp only [Shape.relocate, Shape.label, Shape.references, ht, ha, and_self]
  | .block ss => by
    have h := labelStatements_relocate n ss
    simp only [Shape.relocate, Shape.label, Shape.references, h, and_self]
  | .function f => by
    have h := labelFunction_relocate n f
    simp only [Shape.relocate, Shape.label, Shape.references, h, and_self]
  | .list es => by
    have h := labelElements_relocate n es
    simp only [Shape.relocate, Shape.label, Shape.references, h, and_self]
  | .switch e cs d => by
    have he := Expr.label_relocate n e
    have hc := labelCases_relocate (e.label n).2 cs
    have hd := labelOption_relocate (labelCases (e.label n).2 cs).2 d
    simp only [Shape.relocate, Shape.label, Shape.references, he, hc, hd, and_self]
  | .loop b c a => by
    have hb := labelOption_relocate n b
    have hc := Expr.label_relocate (labelOption n b).2 c
    have ha := labelOption_relocate (c.label (labelOption n b).2).2 a
    simp only [Shape.relocate, Shape.label, Shape.references, hb, hc, ha, and_self]
  | .cond c y o => by
    have hc := Expr.label_relocate n c
    have hy := Expr.label_relocate (c.label n).2 y
    have ho := labelOption_relocate (y.label (c.label n).2).2 o
    simp only [Shape.relocate, Shape.label, Shape.references, hc, hy, ho, and_self]

theorem labelOption_relocate (n : Nat) : ∀ e : Option (Expr Unit),
    labelOption n (relocateOption σ e)
        = (relocateOption σ (labelOption n e).1, (labelOption n e).2)
      ∧ referencesInOption (labelOption n e).1 = referencesInOption e
  | none => ⟨rfl, rfl⟩
  | some e => by
    have h := Expr.label_relocate n e
    simp only [relocateOption, labelOption, referencesInOption, h, and_self]

theorem labelFunction_relocate (n : Nat) : ∀ f : FunctionExpr Unit,
    labelFunction n (f.relocate σ) = ((labelFunction n f).1.relocate σ, (labelFunction n f).2)
      ∧ (labelFunction n f).1.references = f.references
  | ⟨_, ps, _, _, body⟩ => by
    have hp := labelParameters_relocate (n + 1) ps
    have hb := Expr.label_relocate (labelParameters (n + 1) ps).2 body
    simp only [FunctionExpr.relocate, labelFunction, FunctionExpr.references, hp, hb, and_self]

theorem labelParameters_relocate (n : Nat) : ∀ ps : List (Parameter Unit),
    labelParameters n (relocateParameters σ ps)
        = (relocateParameters σ (labelParameters n ps).1, (labelParameters n ps).2)
      ∧ referencesInParameters (labelParameters n ps).1 = referencesInParameters ps
  | [] => ⟨rfl, rfl⟩
  | ⟨_, _, fallback, _⟩ :: ps => by
    have hf := labelOption_relocate n fallback
    have hp := labelParameters_relocate (labelOption n fallback).2 ps
    simp only [relocateParameters, labelParameters, referencesInParameters, hf, hp, and_self]

theorem labelElements_relocate (n : Nat) : ∀ es : List (Element Unit),
    labelElements n (relocateElements σ es)
        = (relocateElements σ (labelElements n es).1, (labelElements n es).2)
      ∧ referencesInElements (labelElements n es).1 = referencesInElements es
  | [] => ⟨rfl, rfl⟩
  | .item e :: es => by
    have he := Expr.label_relocate n e
    have hes := labelElements_relocate (e.label n).2 es
    simp only [relocateElements, labelElements, referencesInElements, he, hes, and_self]
  | .spread e _ :: es => by
    have he := Expr.label_relocate n e
    have hes := labelElements_relocate (e.label n).2 es
    simp only [relocateElements, labelElements, referencesInElements, he, hes, and_self]

theorem labelCases_relocate (n : Nat) : ∀ cs : List (SwitchCase Unit),
    labelCases n (relocateCases σ cs)
        = (relocateCases σ (labelCases n cs).1, (labelCases n cs).2)
      ∧ referencesInCases (labelCases n cs).1 = referencesInCases cs
  | [] => ⟨rfl, rfl⟩
  | ⟨p, r⟩ :: cs => by
    have hp := Expr.label_relocate n p
    have hr := Expr.label_relocate (p.label n).2 r
    have hcs := labelCases_relocate (r.label (p.label n).2).2 cs
    simp only [relocateCases, labelCases, referencesInCases, hp, hr, hcs, and_self]

theorem labelStatements_relocate (n : Nat) : ∀ ss : List (Statement Unit),
    labelStatements n (relocateStatements σ ss)
        = (relocateStatements σ (labelStatements n ss).1, (labelStatements n ss).2)
      ∧ referencesInStatements (labelStatements n ss).1 = referencesInStatements ss
  | [] => ⟨rfl, rfl⟩
  | ⟨shape, _⟩ :: ss => by
    have hs := StatementShape.label_relocate n shape
    have hss := labelStatements_relocate (shape.label n).2 ss
    simp only [relocateStatements, labelStatements, referencesInStatements, hs, hss, and_self]

theorem StatementShape.label_relocate (n : Nat) : ∀ s : StatementShape Unit,
    (s.relocate σ).label n = ((s.label n).1.relocate σ, (s.label n).2)
      ∧ (s.label n).1.references = s.references
  | .declare ds => by
    have h := labelDeclarations_relocate n ds
    simp only [StatementShape.relocate, StatementShape.label, StatementShape.references, h,
      and_self]
  | .expression e | .leave _ e | .set _ e => by
    have h := Expr.label_relocate n e
    simp only [StatementShape.relocate, StatementShape.label, StatementShape.references, h,
      and_self]
  | .continue => ⟨rfl, rfl⟩

theorem labelDeclarations_relocate (n : Nat) : ∀ ds : List (Declaration Unit),
    labelDeclarations n (relocateDeclarations σ ds)
        = (relocateDeclarations σ (labelDeclarations n ds).1, (labelDeclarations n ds).2)
      ∧ referencesInDeclarations (labelDeclarations n ds).1 = referencesInDeclarations ds
  | [] => ⟨rfl, rfl⟩
  | ⟨_, _, initial, _⟩ :: ds => by
    have hi := labelOption_relocate n initial
    have hd := labelDeclarations_relocate (labelOption n initial).2 ds
    simp only [relocateDeclarations, labelDeclarations, referencesInDeclarations, hi, hd, and_self]

end

theorem labelSections_relocate (n : Nat) : ∀ ss : List (Section Unit),
    labelSections n (ss.map (Section.relocate σ))
        = ((labelSections n ss).1.map (Section.relocate σ), (labelSections n ss).2)
      ∧ (labelSections n ss).1.map Section.references = ss.map Section.references
      ∧ (labelSections n ss).1.map (·.contents) = ss.map (·.contents)
  | [] => ⟨rfl, rfl, rfl⟩
  | ⟨_, executes, next, _, _⟩ :: ss => by
    have he := labelOption_relocate σ n executes
    have hn := Expr.label_relocate σ (labelOption n executes).2 next
    have hs := labelSections_relocate (next.label (labelOption n executes).2).2 ss
    simp only [List.map_cons, Section.relocate, Section.references, labelSections, he, hn, hs,
      and_self]

theorem Story.labelled_relocate (s : Story Unit) :
    (s.relocate σ).labelled = s.labelled.relocate σ := by
  have hi := labelStatements_relocate σ 0 s.init
  have hs := labelSections_relocate σ (labelStatements 0 s.init).2 s.sections
  simp only [Story.labelled, Story.relocate, hi, hs]

theorem Story.labelled_references (s : Story Unit) : s.labelled.references = s.references := by
  have hi := labelStatements_relocate id 0 s.init
  have hs := labelSections_relocate id (labelStatements 0 s.init).2 s.sections
  simp only [Story.labelled, Story.references, hi, List.flatMap_def, hs]

end Label

end Tale
