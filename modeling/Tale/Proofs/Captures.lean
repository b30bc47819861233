import Mathlib.Data.List.Basic
import Mathlib.Data.List.Induction
import Tale.Proofs.Closed
import Tale.Proofs.Exits

/-!
# What functions capture

A use of a name is a reference, and with it the names that are bound where it stands. Going down a
tree, the parameters of a function are bound in its body but not in their defaults, and what a
declaration declares is bound in what follows it in the block. The captures of a function are the
names that it uses where nothing within the function binds them, each once and in the order of
their first use (`captures_used`). The free names of a tree are told upwards, by taking names away;
the uses are told downwards, from where each stands, and both come to the same (`Expr.uses_free`).
-/

namespace Tale

variable {ι : Type}

/-- A reference to a name where other names, or the name itself, are bound. -/
structure Use where
  name : String
  bound : List String
  deriving DecidableEq, Repr

/-- The names that are used where they are not bound, in order. -/
def Use.unbound (us : List Use) : List String :=
  (us.filter fun u => !u.bound.contains u.name).map (·.name)

/-! ## Uses -/

mutual

/-- The uses of names in an expression, where some names are bound. -/
def Expr.uses (bound : List String) : Expr ι → List Use
  | ⟨shape, _⟩ => shape.uses bound

def Shape.uses (bound : List String) : Shape ι → List Use
  | .number _ => []
  | .boolean _ => []
  | .string _ => []
  | .null => []
  | .binary _ l r => l.uses bound ++ r.uses bound
  | .unary _ e => e.uses bound
  | .conditional c y n => c.uses bound ++ (y.uses bound ++ n.uses bound)
  | .goto _ => []
  | .exit => []
  | .selection e => e.uses bound
  | .choice t a => t.uses bound ++ a.uses bound
  | .block ss => usesInStatements bound ss
  | .reference name => [⟨name, bound⟩]
  | .function f => f.uses bound
  | .list es => usesInElements bound es
  | .switch e cs d => e.uses bound ++ (usesInCases bound cs ++ usesInOption bound d)
  | .loop b c a => usesInOption bound b ++ (c.uses bound ++ usesInOption bound a)
  | .cond c y n => c.uses bound ++ (y.uses bound ++ usesInOption bound n)
  | .tag _ => []

def usesInOption (bound : List String) : Option (Expr ι) → List Use
  | none => []
  | some e => e.uses bound

/-- Parameters are bound in the body only. -/
def FunctionExpr.uses (bound : List String) : FunctionExpr ι → List Use
  | ⟨_, ps, rest, _, body⟩ =>
    usesInParameters bound ps ++ body.uses (ps.map (·.name) ++ rest.toList ++ bound)

def usesInParameters (bound : List String) : List (Parameter ι) → List Use
  | [] => []
  | ⟨_, _, fallback, _⟩ :: ps => usesInOption bound fallback ++ usesInParameters bound ps

def usesInElements (bound : List String) : List (Element ι) → List Use
  | [] => []
  | .item e :: es => e.uses bound ++ usesInElements bound es
  | .spread e _ :: es => e.uses bound ++ usesInElements bound es

def usesInCases (bound : List String) : List (SwitchCase ι) → List Use
  | [] => []
  | ⟨p, r⟩ :: cs => p.uses bound ++ (r.uses bound ++ usesInCases bound cs)

/-- What a statement declares is bound in those that follow. -/
def usesInStatements (bound : List String) : List (Statement ι) → List Use
  | [] => []
  | ⟨shape, _⟩ :: ss => shape.uses bound ++ usesInStatements (shape.names ++ bound) ss

def StatementShape.uses (bound : List String) : StatementShape ι → List Use
  | .declare ds => usesInDeclarations bound ds
  | .expression e => e.uses bound
  | .leave _ e => e.uses bound
  | .set _ e => e.uses bound
  | .continue => []

/-- A declared name is bound after its own initial value. -/
def usesInDeclarations (bound : List String) : List (Declaration ι) → List Use
  | [] => []
  | ⟨name, _, initial, _⟩ :: ds =>
    usesInOption bound initial ++ usesInDeclarations (name :: bound) ds

end

namespace Use

@[simp]
theorem unbound_nil : unbound [] = [] :=
  rfl

@[simp]
theorem unbound_append (us vs : List Use) : unbound (us ++ vs) = unbound us ++ unbound vs := by
  simp [unbound]

theorem unbound_single (name : String) (bound : List String) :
    unbound [⟨name, bound⟩] = [name].removeAll bound := by
  by_cases h : name ∈ bound <;> simp [unbound, List.removeAll, h]

theorem mem_unbound {us : List Use} {name : String} :
    name ∈ unbound us ↔ ∃ u ∈ us, u.name = name ∧ name ∉ u.bound := by
  simp only [unbound, List.mem_map, List.mem_filter]
  refine exists_congr fun u => ?_
  constructor
  · rintro ⟨⟨hu, hb⟩, rfl⟩
    exact ⟨hu, rfl, by simpa using hb⟩
  · rintro ⟨hu, rfl, hb⟩
    exact ⟨⟨hu, by simpa using hb⟩, rfl⟩

end Use

@[simp]
theorem append_removeAll (xs ys ns : List String) :
    (xs ++ ys).removeAll ns = xs.removeAll ns ++ ys.removeAll ns :=
  List.filter_append ..

@[simp]
theorem removeAll_append (xs ns ms : List String) :
    xs.removeAll (ns ++ ms) = (xs.removeAll ns).removeAll ms := by
  simp [List.removeAll, List.filter_filter, Bool.and_comm]

mutual

/-- What is used where it is not bound is what is free, less the names that were bound before. -/
theorem Expr.uses_free (bound : List String) : ∀ e : Expr ι,
    Use.unbound (e.uses bound) = e.free.removeAll bound
  | ⟨shape, _⟩ => by
    rw [Expr.uses, Expr.free, Shape.uses_free bound shape]

theorem Shape.uses_free (bound : List String) : ∀ s : Shape ι,
    Use.unbound (s.uses bound) = s.free.removeAll bound
  | .number _ => rfl
  | .boolean _ => rfl
  | .string _ => rfl
  | .null => rfl
  | .goto _ => rfl
  | .exit => rfl
  | .tag _ => rfl
  | .reference name => Use.unbound_single name bound
  | .binary _ l r => by
    simp [Shape.uses, Shape.free, Expr.uses_free bound l, Expr.uses_free bound r]
  | .unary _ e => by
    rw [Shape.uses, Shape.free, Expr.uses_free bound e]
  | .conditional c y n => by
    simp [Shape.uses, Shape.free, Expr.uses_free bound c, Expr.uses_free bound y,
      Expr.uses_free bound n]
  | .selection e => by
    rw [Shape.uses, Shape.free, Expr.uses_free bound e]
  | .choice t a => by
    simp [Shape.uses, Shape.free, Expr.uses_free bound t, Expr.uses_free bound a]
  | .block ss => by
    rw [Shape.uses, Shape.free, usesInStatements_free bound ss]
  | .function f => by
    rw [Shape.uses, Shape.free, FunctionExpr.uses_free bound f]
  | .list es => by
    rw [Shape.uses, Shape.free, usesInElements_free bound es]
  | .switch e cs d => by
    simp [Shape.uses, Shape.free, Expr.uses_free bound e, usesInCases_free bound cs,
      usesInOption_free bound d]
  | .loop b c a => by
    simp [Shape.uses, Shape.free, usesInOption_free bound b, Expr.uses_free bound c,
      usesInOption_free bound a]
  | .cond c y n => by
    simp [Shape.uses, Shape.free, Expr.uses_free bound c, Expr.uses_free bound y,
      usesInOption_free bound n]

theorem usesInOption_free (bound : List String) : ∀ e : Option (Expr ι),
    Use.unbound (usesInOption bound e) = (freeInOption e).removeAll bound
  | none => rfl
  | some e => by
    rw [usesInOption, freeInOption, Expr.uses_free bound e]

theorem FunctionExpr.uses_free (bound : List String) : ∀ f : FunctionExpr ι,
    Use.unbound (f.uses bound) = f.free.removeAll bound
  | ⟨_, ps, rest, _, body⟩ => by
    rw [FunctionExpr.uses, FunctionExpr.free, Use.unbound_append, append_removeAll,
      usesInParameters_free bound ps, Expr.uses_free _ body, removeAll_append]

theorem usesInParameters_free (bound : List String) : ∀ ps : List (Parameter ι),
    Use.unbound (usesInParameters bound ps) = (freeInParameters ps).removeAll bound
  | [] => rfl
  | ⟨_, _, fallback, _⟩ :: ps => by
    simp [usesInParameters, freeInParameters, usesInOption_free bound fallback,
      usesInParameters_free bound ps]

theorem usesInElements_free (bound : List String) : ∀ es : List (Element ι),
    Use.unbound (usesInElements bound es) = (freeInElements es).removeAll bound
  | [] => rfl
  | .item e :: es => by
    simp [usesInElements, freeInElements, Expr.uses_free bound e, usesInElements_free bound es]
  | .spread e _ :: es => by
    simp [usesInElements, freeInElements, Expr.uses_free bound e, usesInElements_free bound es]

theorem usesInCases_free (bound : List String) : ∀ cs : List (SwitchCase ι),
    Use.unbound (usesInCases bound cs) = (freeInCases cs).removeAll bound
  | [] => rfl
  | ⟨p, r⟩ :: cs => by
    simp [usesInCases, freeInCases, Expr.uses_free bound p, Expr.uses_free bound r,
      usesInCases_free bound cs]

theorem usesInStatements_free (bound : List String) : ∀ ss : List (Statement ι),
    Use.unbound (usesInStatements bound ss) = (freeInStatements ss).removeAll bound
  | [] => rfl
  | ⟨shape, _⟩ :: ss => by
    simp [usesInStatements, freeInStatements, StatementShape.uses_free bound shape,
      usesInStatements_free _ ss]

theorem StatementShape.uses_free (bound : List String) : ∀ s : StatementShape ι,
    Use.unbound (s.uses bound) = s.free.removeAll bound
  | .declare ds => by
    rw [StatementShape.uses, StatementShape.free, usesInDeclarations_free bound ds]
  | .expression e => by
    rw [StatementShape.uses, StatementShape.free, Expr.uses_free bound e]
  | .leave _ e => by
    rw [StatementShape.uses, StatementShape.free, Expr.uses_free bound e]
  | .set _ e => by
    rw [StatementShape.uses, StatementShape.free, Expr.uses_free bound e]
  | .continue => rfl

theorem usesInDeclarations_free (bound : List String) : ∀ ds : List (Declaration ι),
    Use.unbound (usesInDeclarations bound ds) = (freeInDeclarations ds).removeAll bound
  | [] => rfl
  | ⟨name, _, initial, _⟩ :: ds => by
    have h := usesInDeclarations_free ([name] ++ bound) ds
    rw [removeAll_append] at h
    rw [usesInDeclarations, freeInDeclarations, Use.unbound_append, append_removeAll,
      usesInOption_free bound initial, ← h, List.singleton_append]

end

/-! ## Functions within a tree -/

/-- The expressions right below. -/
def Shape.children : Shape ι → List (Expr ι)
  | .block ss => ss.flatMap (·.shape.parts)
  | .function f => f.parts
  | .loop b c a => b.toList ++ c :: a.toList
  | s => s.parts

/-- A function stands somewhere in an expression. -/
inductive Expr.Has (f : FunctionExpr ι) : Expr ι → Prop
  | here {location : Option Location} : Expr.Has f ⟨.function f, location⟩
  | within {shape : Shape ι} {location : Option Location} {e : Expr ι} (he : e ∈ shape.children)
      (h : Expr.Has f e) : Expr.Has f ⟨shape, location⟩

/-- A function stands somewhere in a story. -/
def Story.Has (s : Story ι) (f : FunctionExpr ι) : Prop :=
  (∃ x ∈ s.init, ∃ e ∈ x.shape.parts, e.Has f)
    ∨ ∃ x ∈ s.sections, (∃ e ∈ x.executes, e.Has f) ∨ x.next.Has f

section Captured

theorem optionCaptured_iff {e : Option (Expr ι)} :
    optionCaptured e ↔ ∀ x ∈ e.toList, x.Captured := by
  cases e <;> simp [optionCaptured]

theorem elementsCaptured_iff {es : List (Element ι)} :
    elementsCaptured es ↔ ∀ x ∈ es.map Element.expr, x.Captured := by
  induction es with
  | nil => simp [elementsCaptured]
  | cons e es ih => cases e <;> simp_all [elementsCaptured, Element.expr]

theorem casesCaptured_iff {cs : List (SwitchCase ι)} :
    casesCaptured cs ↔ ∀ x ∈ cs.flatMap SwitchCase.exprs, x.Captured := by
  induction cs with
  | nil => simp [casesCaptured]
  | cons c cs ih =>
    rcases c with ⟨p, r⟩
    simp [casesCaptured, ih, List.flatMap_cons, SwitchCase.exprs]

theorem parametersCaptured_iff {ps : List (Parameter ι)} :
    parametersCaptured ps ↔ ∀ x ∈ ps.flatMap (·.fallback.toList), x.Captured := by
  induction ps with
  | nil => simp [parametersCaptured]
  | cons p ps ih =>
    rcases p with ⟨name, bound, fallback, location⟩
    rw [parametersCaptured, ih, optionCaptured_iff, List.flatMap_cons, List.forall_mem_append]

theorem declarationsCaptured_iff {ds : List (Declaration ι)} :
    declarationsCaptured ds ↔ ∀ x ∈ ds.flatMap (·.initial.toList), x.Captured := by
  induction ds with
  | nil => simp [declarationsCaptured]
  | cons d ds ih =>
    rcases d with ⟨name, bound, initial, location⟩
    rw [declarationsCaptured, ih, optionCaptured_iff, List.flatMap_cons, List.forall_mem_append]

theorem StatementShape.captured_iff {s : StatementShape ι} :
    s.Captured ↔ ∀ x ∈ s.parts, x.Captured := by
  cases s <;> simp [StatementShape.Captured, StatementShape.parts, declarationsCaptured_iff]

theorem statementsCaptured_iff {ss : List (Statement ι)} :
    statementsCaptured ss ↔ ∀ x ∈ ss.flatMap (·.shape.parts), x.Captured := by
  induction ss with
  | nil => simp [statementsCaptured]
  | cons s ss ih =>
    rcases s with ⟨shape, location⟩
    rw [statementsCaptured, ih, StatementShape.captured_iff, List.flatMap_cons,
      List.forall_mem_append]

/-- What stands below a captured expression is captured. -/
theorem Shape.Captured.children {s : Shape ι} (h : s.Captured) : ∀ e ∈ s.children, e.Captured := by
  cases s with
  | block ss => exact statementsCaptured_iff.mp h
  | function f =>
    rcases f with ⟨label, ps, rest, captures, body⟩
    rw [Shape.Captured, FunctionExpr.Captured] at h
    exact List.forall_mem_append.mpr
      ⟨parametersCaptured_iff.mp h.2.1, List.forall_mem_singleton.mpr h.2.2⟩
  | loop b c a =>
    rw [Shape.Captured, optionCaptured_iff, optionCaptured_iff] at h
    exact List.forall_mem_append.mpr ⟨h.1, List.forall_mem_cons.mpr h.2⟩
  | list es => exact elementsCaptured_iff.mp h
  | switch e cs d =>
    rw [Shape.Captured, casesCaptured_iff, optionCaptured_iff] at h
    exact List.forall_mem_cons.mpr ⟨h.1, List.forall_mem_append.mpr h.2⟩
  | cond c y n =>
    rw [Shape.Captured, optionCaptured_iff] at h
    exact List.forall_mem_cons.mpr ⟨h.1, List.forall_mem_cons.mpr h.2⟩
  | _ => simp_all [Shape.Captured, Shape.children, Shape.parts]

theorem Expr.Captured.has {f : FunctionExpr ι} {e : Expr ι} (h : e.Captured) (hf : e.Has f) :
    f.Captured := by
  induction hf with
  | here => exact h
  | within he _ ih => exact ih (Shape.Captured.children h _ he)

theorem Story.Closed.has {s : Story ι} {f : FunctionExpr ι} (h : s.Closed) (hf : s.Has f) :
    f.Captured := by
  rcases hf with ⟨x, hx, e, he, hf⟩ | ⟨x, hx, ⟨e, he, hf⟩ | hf⟩
  · have hc := statementsCaptured_iff.mp h.init.2 e (List.mem_flatMap.mpr ⟨x, hx, he⟩)
    exact hc.has hf
  · have hc := optionCaptured_iff.mp (h.sections x hx).1.2 e (by simpa using he)
    exact hc.has hf
  · exact (h.sections x hx).2.2.has hf

end Captured

/-! ## Captures -/

/-- In a list without repetitions elements stand in the order of their first places. -/
theorem pairwise_idxOf_eraseDups (xs : List String) :
    xs.eraseDups.Pairwise fun a b => xs.idxOf a < xs.idxOf b := by
  induction xs using List.reverseRecOn with
  | nil => exact .nil
  | append_singleton xs x ih =>
    have hx : ∀ a ∈ xs.eraseDups, (xs ++ [x]).idxOf a = xs.idxOf a := fun a ha =>
      List.idxOf_append_of_mem (List.mem_eraseDups.mp ha)
    have hp : xs.eraseDups.Pairwise fun a b => (xs ++ [x]).idxOf a < (xs ++ [x]).idxOf b :=
      ih.imp_of_mem fun ha hb h => by rwa [hx _ ha, hx _ hb]
    rw [List.eraseDups_append]
    by_cases hm : x ∈ xs
    · simpa [List.removeAll, hm] using hp
    · refine List.pairwise_append.mpr
        ⟨hp, by simp [List.removeAll, hm, List.eraseDups_cons], fun a ha b hb => ?_⟩
      have hb : b = x := by simpa [List.removeAll, hm, List.eraseDups_cons] using hb
      rw [hx a ha, hb, List.idxOf_append_of_notMem hm]
      exact Nat.lt_add_right _ (List.idxOf_lt_length_iff.mpr (List.mem_eraseDups.mp ha))

/-- The names a function uses where nothing within the function binds them, in order. -/
def FunctionExpr.unbound (f : FunctionExpr ι) : List String :=
  Use.unbound (f.uses [])

theorem FunctionExpr.Captured.eq_unbound {f : FunctionExpr ι} (h : f.Captured) :
    f.captures = f.unbound.eraseDups := by
  have hu := f.uses_free []
  rw [List.removeAll_nil] at hu
  rw [FunctionExpr.unbound, hu]
  rcases f with ⟨label, ps, rest, captures, body⟩
  rw [FunctionExpr.Captured] at h
  exact h.1

/-- Wherever a function stands in a document that was read, its captures are the names that it uses
where no parameter of it or within it is in scope, and no declaration before the use, that binds
them; each stands there once, and they are in the order of their first use. -/
theorem captures_used {options : Document.Options} {source : String} {story : Story Unit}
    {f : FunctionExpr Unit} (h : Document.parse options source = .ok story) (hf : story.Has f) :
    f.captures.Nodup
      ∧ (∀ name, name ∈ f.captures ↔ ∃ u ∈ f.uses [], u.name = name ∧ name ∉ u.bound)
      ∧ f.captures.Pairwise fun a b => f.unbound.idxOf a < f.unbound.idxOf b := by
  have hc := (Document.parse_closed h).has hf
  have ho := pairwise_idxOf_eraseDups f.unbound
  rw [← hc.eq_unbound] at ho
  have hn : f.captures.Nodup := ho.imp fun {a b} hlt (he : a = b) => Nat.ne_of_lt hlt (he ▸ rfl)
  refine ⟨hn, fun name => ?_, ho⟩
  rw [hc.eq_unbound, List.mem_eraseDups]
  exact Use.mem_unbound

/-- A function with a function in it, in which a parameter has the name of a variable outside. -/
def nestedSource : String :=
  "WTCD 1.3\ndeclare [a = 1 b = 2]\n" ++
  "declare f = function [p = b b = a] \x7bdeclare c = p return function [d = c] d + a + b\x7d\n" ++
  "section s then exit\n"

def Shape.function? : Shape ι → Option (FunctionExpr ι)
  | .function f => some f
  | _ => none

theorem Expr.has_of_function? {e : Expr ι} {f : FunctionExpr ι}
    (h : e.shape.function? = some f) : e.Has f := by
  obtain ⟨shape, location⟩ := e
  cases shape with
  | function g =>
    cases h
    exact .here
  | _ => cases h

/-- The default of the parameter refers to the variable outside, the sum within to the
parameter. -/
theorem captures_used_nested : ∃ (story : Story Unit) (f : FunctionExpr Unit),
    Document.parse {} nestedSource = .ok story ∧ story.Has f ∧ f.captures = ["b", "a"]
      ∧ f.captures.Nodup ∧ (∃ u ∈ f.uses [], u.name = "b" ∧ "b" ∉ u.bound)
      ∧ ¬ ∃ u ∈ f.uses [], u.name = "c" ∧ "c" ∉ u.bound := by
  have hp : (Document.parse {} nestedSource).toOption.any (fun story =>
      (story.init.flatMap (·.shape.parts)).any fun e =>
        e.shape.function?.any (·.captures == ["b", "a"])) = true := by
    rw [Document.parse_eq_ofChars]
    decide +kernel
  obtain ⟨story, hs, hp⟩ := (Option.any_eq_true _ _).mp hp
  obtain ⟨e, he, hp⟩ := List.any_eq_true.mp hp
  obtain ⟨f, hf, hp⟩ := (Option.any_eq_true _ _).mp hp
  obtain ⟨x, hx, he⟩ := List.mem_flatMap.mp he
  have h := eq_ok_of_toOption hs
  have has : story.Has f := .inl ⟨x, hx, e, he, Expr.has_of_function? hf⟩
  have hc : f.captures = ["b", "a"] := by simpa using hp
  obtain ⟨hn, hu, -⟩ := captures_used h has
  refine ⟨story, f, h, has, hc, hn, (hu "b").mp (by simp [hc]), fun hb => ?_⟩
  simpa [hc] using (hu "c").mpr hb

end Tale
