import Tale.Proofs.Fit

/-!
# Computations that keep a world fit

`Agree P x y Q E` says of two computations that they do the same in every world that `P` admits,
that `Q` holds of the value they come to and `E` of why they stop, and that cells and nodes are
only added.
Comparing two computations costs nothing over following one: the two differ only in the machine
they use.

`Keeps` is the case where the outline of the world stays as it is, and what opens a scope,
declares names in it and closes it again keeps the outline outside of it (`Keeps.inScope`).
-/

namespace Tale

variable {α β : Type}

/-- A computation started in `w` ended as it should. -/
def Ends (w : World) (Q : α → World → Prop) (E : Stop → World → Prop) :
    EStateM.Result Stop World α → Prop
  | .ok a w' => w.Onward w' ∧ Q a w'
  | .error e w' => w.Onward w' ∧ E e w'

def Agree (P : World → Prop) (x y : Run α) (Q : α → World → Prop)
    (E : Stop → World → Prop) : Prop :=
  ∀ w, P w → x w = y w ∧ Ends w Q E (y w)

namespace Agree

variable {P : World → Prop} {Q : α → World → Prop} {R : β → World → Prop}
  {E : Stop → World → Prop} {x y : Run α}

theorem bind {f g : α → Run β} (h : Agree P x y Q E) (hf : ∀ a, Agree (Q a) (f a) (g a) R E) :
    Agree P (x >>= f) (y >>= g) R E := by
  intro w hp
  obtain ⟨hxy, he⟩ := h w hp
  simp only [Bind.bind, EStateM.bind, hxy]
  rcases hy : y w with ⟨a, w'⟩ | ⟨e, w'⟩ <;> rw [hy] at he
  · obtain ⟨hfg, hb⟩ := hf a w' he.2
    refine ⟨hfg, ?_⟩
    simp only []
    rcases hg : g a w' with ⟨b, w''⟩ | ⟨e, w''⟩ <;> rw [hg] at hb
    · exact ⟨he.1.trans hb.1, hb.2⟩
    · exact ⟨he.1.trans hb.1, hb.2⟩
  · exact ⟨rfl, he⟩

theorem conseq {P' : World → Prop} {Q' : α → World → Prop} {E' : Stop → World → Prop}
    (h : Agree P x y Q E) (hp : ∀ w, P' w → P w) (hq : ∀ a w, Q a w → Q' a w)
    (he : ∀ e w, E e w → E' e w) : Agree P' x y Q' E' := by
  intro w hw
  obtain ⟨hxy, hr⟩ := h w (hp w hw)
  refine ⟨hxy, ?_⟩
  rcases hy : y w with ⟨a, w'⟩ | ⟨e, w'⟩ <;> rw [hy] at hr
  · exact ⟨hr.1, hq a w' hr.2⟩
  · exact ⟨hr.1, he e w' hr.2⟩

/-- What is known apart from the world can be used. -/
theorem of_and {p : Prop} (h : p → Agree P x y Q E) : Agree (fun w => p ∧ P w) x y Q E :=
  fun w hw => h hw.1 w hw.2

theorem pure {a : α} (h : ∀ w, P w → Q a w) : Agree P (pure a) (pure a) Q E :=
  fun w hw => ⟨rfl, .refl w, h w hw⟩

theorem throw {e : Stop} (h : ∀ w, P w → E e w) :
    Agree P (throw e : Run α) (throw e) Q E :=
  fun w hw => ⟨rfl, .refl w, h w hw⟩

theorem modify {f : World → World} {Q : Unit → World → Prop} (h : ∀ w, P w → Q () (f w))
    (hg : ∀ w : World, w.Onward (f w)) : Agree P (modify f : Run Unit) (modify f) Q E :=
  fun w hw => ⟨rfl, hg w, h w hw⟩

/-- Looks at the world and goes on with what is known of it. -/
theorem get_bind {f g : World → Run β} (h : ∀ w, P w → Agree (· = w) (f w) (g w) R E) :
    Agree P (get >>= f) (get >>= g) R E :=
  fun w hw => h w hw w rfl

/-- A computation that stops first if it has to. -/
theorem guard {p : Prop} [Decidable p] {e : Stop} {k k' : PUnit → Run α}
    (he : ∀ w, P w → E e w) (h : ¬ p → Agree P (k ⟨⟩) (k' ⟨⟩) Q E) :
    Agree P (if p then (MonadExcept.throw e : Run PUnit) >>= k else k ⟨⟩)
      (if p then (MonadExcept.throw e : Run PUnit) >>= k' else k' ⟨⟩) Q E := by
  split
  · exact bind (throw (Q := fun _ _ => False) he) fun _ _ hf => hf.elim
  · exact h ‹_›

end Agree

/-! ## Within the scopes of a world -/

/-- In code from a document no name is unknown. -/
def Stop.Fit (c : Care) : Stop → Prop
  | .fault f => c.read → ∀ name, f.cause ≠ .unknownVariable name
  | _ => True

def Keeps (c : Care) (os : List Outline) (V : α → Prop) (x y : Run α) : Prop :=
  Agree (World.Fit c os) x y (fun a w => V a ∧ w.Fit c os) (fun e w => e.Fit c ∧ w.Fit c os)

namespace Keeps

variable {c : Care} {os : List Outline} {V : α → Prop} {U : β → Prop} {x y : Run α}

theorem bind {f g : α → Run β} (h : Keeps c os V x y)
    (hf : ∀ a, V a → Keeps c os U (f a) (g a)) : Keeps c os U (x >>= f) (y >>= g) :=
  Agree.bind h fun a => .of_and fun ha => hf a ha

theorem pure {a : α} (h : V a) : Keeps c os V (pure a) (pure a) :=
  Agree.pure fun _ hw => ⟨h, hw⟩

theorem throw {e : Stop} (h : e.Fit c) : Keeps c os V (throw e) (throw e) :=
  Agree.throw fun _ hw => ⟨h, hw⟩

theorem get_bind {f g : World → Run α} (h : ∀ w, w.Fit c os → Keeps c os V (f w) (g w)) :
    Keeps c os V (get >>= f) (get >>= g) := by
  refine Agree.get_bind fun w hw => (h w hw).conseq ?_ (fun _ _ h => h) fun _ _ h => h
  rintro _ rfl
  exact hw

theorem setRegister {r : Register} {v : Value} (hv : c.Admits v) :
    Keeps c os (fun _ => True) (Run.setRegister r v) (Run.setRegister r v) := by
  refine Agree.get_bind fun w hw => ?_
  rcases hs : World.setRegister r v w.scopes with _ | ss
  · refine Agree.throw fun w' hw' => ?_
    subst hw'
    exact ⟨fun _ _ => nofun, hw⟩
  · refine Agree.modify (fun w' hw' => ?_) fun w' => .refl w'
    subst hw'
    exact ⟨trivial, hw.setRegister hv hs⟩

end Keeps

/-! ## Within a scope that names are declared in -/

section Open

variable {c : Care} {os : List Outline} {r : Option Register} {xs ys : List String}
  {V : α → Prop} {x y : Run α}

/-- A world whose innermost scope maps just these names, the newest first. -/
def World.FitIn (c : Care) (os : List Outline) (r : Option Register) (xs : List String)
    (w : World) : Prop :=
  ∃ ns : List (String × Address), ns.map (·.1) = xs ∧ w.Fit c (⟨ns, r⟩ :: os)

/-- A stop on the way through a scope. -/
def Stop.FitIn (c : Care) (os : List Outline) (r : Option Register) (e : Stop) (w : World) : Prop :=
  e.Fit c ∧ ∃ xs, w.FitIn c os r xs

/-- From a scope that maps the names `xs` to one that maps the names `ys`. -/
def Extends (c : Care) (os : List Outline) (r : Option Register) (xs ys : List String)
    (x y : Run α) : Prop :=
  Agree (World.FitIn c os r xs) x y (fun _ w => w.FitIn c os r ys) (Stop.FitIn c os r)

/-- What keeps the outline of every scope that maps the names keeps the names. -/
theorem Keeps.inFit
    (h : ∀ ns : List (String × Address), ns.map (·.1) = xs → Keeps c (⟨ns, r⟩ :: os) V x y) :
    Agree (World.FitIn c os r xs) x y (fun a w => V a ∧ w.FitIn c os r xs)
      (Stop.FitIn c os r) := by
  rintro w ⟨ns, hn, hw⟩
  obtain ⟨hxy, he⟩ := h ns hn w hw
  refine ⟨hxy, ?_⟩
  rcases hy : y w with ⟨a, w'⟩ | ⟨e, w'⟩ <;> rw [hy] at he
  · exact ⟨he.1, he.2.1, ns, hn, he.2.2⟩
  · exact ⟨he.1, he.2.1, xs, ns, hn, he.2.2⟩

theorem Extends.declare {name : String} {bound : TypeBound} {v : Value}
    (ht : c.typed → bound.accepts v.type = true) (hv : c.Admits v) :
    Extends c os r xs (name :: xs) (modify (·.declare name bound v))
      (modify (·.declare name bound v)) := by
  refine Agree.modify ?_ fun w => w.onward_declare name bound v
  rintro w ⟨ns, rfl, hw⟩
  exact ⟨_, rfl, hw.declare ht hv⟩

theorem Keeps.inScope {s : Scope} (hs : ∀ r v, s.register = some (r, v) → c.Admits v)
    (h : Agree (World.FitIn c os s.outline.register (s.names.map (·.1))) x y
      (fun a w => V a ∧ ∃ zs, w.FitIn c os s.outline.register zs)
      (Stop.FitIn c os s.outline.register)) :
    Keeps c os (fun p : Except Stop α × Scope => (∀ a, p.1 = .ok a → V a)
        ∧ (∀ e, p.1 = .error e → e.Fit c) ∧ ∀ r, c.Admits (p.2.held r))
      (Run.inScope s x) (Run.inScope s y) := by
  intro w hw
  obtain ⟨hxy, he⟩ := h { w with scopes := s :: w.scopes } ⟨s.names, rfl, hw.push hs⟩
  rw [Run.inScope, Run.inScope, hxy]
  rcases hy : y { w with scopes := s :: w.scopes } with ⟨a, w'⟩ | ⟨e, w'⟩ <;> rw [hy] at he
  · obtain ⟨hg, hv, _, ns, -, hw'⟩ := he
    refine ⟨rfl, hg, ⟨fun b hb => ?_, fun e he => ?_, hw'.held⟩, hw'.pop⟩
    · cases hb
      exact hv
    · cases he
  · obtain ⟨hg, hf, _, ns, -, hw'⟩ := he
    refine ⟨rfl, hg, ⟨fun b hb => ?_, fun e he => ?_, hw'.held⟩, hw'.pop⟩
    · cases hb
    · cases he
      exact hf

end Open

/-- Two machines that look up, evaluate and call alike in one place, as long as an expression names
only what can be seen there. -/
structure Machine.AgreeAt (c : Care) (os : List Outline) (seen : List String) (m m' : Machine) :
    Prop where
  turns : m.turns = m'.turns
  resolve (name : String) (h : c.read → name ∈ seen) :
    Keeps c os (fun _ => True) (m.resolve name) (m'.resolve name)
  eval (e : Expr Nat) (h : c.read → e.Within seen) : Keeps c os c.Admits (m.eval e) (m'.eval e)
  call (f : Function) (args : List Value) (hf : c.read → f.Sound) (ha : ∀ v ∈ args, c.Admits v) :
    Keeps c os c.Admits (m.call f args) (m'.call f args)

/-- The same in a scope that any names have been declared in; `further` can be seen outside of
it. -/
def Machine.AgreeIn (c : Care) (os : List Outline) (r : Option Register) (further : List String)
    (m m' : Machine) : Prop :=
  ∀ ns : List (String × Address), m.AgreeAt c (⟨ns, r⟩ :: os) (ns.map (·.1) ++ further) m'

/-- Two machines that look up, evaluate and call alike wherever the names of an expression are in
reach. -/
structure Machine.Agree (c : Care) (m m' : Machine) : Prop where
  turns : m.turns = m'.turns
  resolve (os : List Outline) (name : String) (h : c.read → name ∈ reach os) :
    Keeps c os (fun _ => True) (m.resolve name) (m'.resolve name)
  eval (os : List Outline) (e : Expr Nat) (h : c.read → e.Within (reach os)) :
    Keeps c os c.Admits (m.eval e) (m'.eval e)
  call (os : List Outline) (f : Function) (args : List Value) (hf : c.read → f.Sound)
    (ha : ∀ v ∈ args, c.Admits v) : Keeps c os c.Admits (m.call f args) (m'.call f args)

theorem Machine.Agree.at {c : Care} {m m' : Machine} (hm : m.Agree c m') (os : List Outline) :
    m.AgreeAt c os (reach os) m' :=
  ⟨hm.turns, hm.resolve os, hm.eval os, hm.call os⟩

theorem Machine.Agree.inside {c : Care} {m m' : Machine} (hm : m.Agree c m') (os : List Outline)
    (r : Option Register) : m.AgreeIn c os r (beyond r (reach os)) m' :=
  fun ns => hm.at (⟨ns, r⟩ :: os)

end Tale
