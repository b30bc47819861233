import Tale.Proofs.Fit

/-!
# What is asked while something is evaluated

A `Norm` says what is asked of the code and of the actions that values are made of. A `Regime` says
in addition what the scopes of a world look like in one place of an evaluation, what can stop a
computation there, and how two worlds may differ if a computation was left for a register.

`R.Links V x y` compares two computations, started in the same fit world: they come to the same
value, of which `V` holds, or stop for the same reason, and unless they were left they leave the
same fit world behind. Everything an evaluation is made of respects it, so two evaluators that
differ only in how they leave blocks, functions and loops can be compared through them.
-/

namespace Tale

variable {α β : Type}

/-! ## Values -/

structure Norm where
  code : FunctionExpr Nat → List (String × Address) → Prop
  targets : List String → Prop

mutual

def Value.Meets (N : Norm) : Value → Prop
  | .number _ => True
  | .boolean _ => True
  | .string _ => True
  | .null => True
  | .list vs => valuesMeet N vs
  | .choice c => c.Meets N
  | .action a => a.Meets N
  | .function f => f.Meets N

def valuesMeet (N : Norm) : List Value → Prop
  | [] => True
  | v :: vs => v.Meets N ∧ valuesMeet N vs

def Choice.Meets (N : Norm) : Choice → Prop
  | ⟨_, none⟩ => True
  | ⟨_, some c⟩ => c.Meets N

def Consequence.Meets (N : Norm) : Consequence → Prop
  | .act a => a.Meets N
  | .call f _ => f.Meets N

def Action.Meets (N : Norm) : Action → Prop
  | .goto names => N.targets names
  | .exit => True
  | .selection cs => choicesMeet N cs

def choicesMeet (N : Norm) : List Choice → Prop
  | [] => True
  | c :: cs => c.Meets N ∧ choicesMeet N cs

def Function.Meets (N : Norm) : Function → Prop
  | .closure code captured => N.code code captured
  | .native _ => True
  | .applied _ vs f => valuesMeet N vs ∧ f.Meets N

end

section Values

variable {N : Norm}

theorem valuesMeet_iff {vs : List Value} : valuesMeet N vs ↔ ∀ v ∈ vs, v.Meets N := by
  induction vs with
  | nil => simp [valuesMeet]
  | cons v vs ih => simp [valuesMeet, ih]

theorem choicesMeet_iff {cs : List Choice} : choicesMeet N cs ↔ ∀ c ∈ cs, c.Meets N := by
  induction cs with
  | nil => simp [choicesMeet]
  | cons c cs ih => simp [choicesMeet, ih]

@[simp]
theorem Value.meets_list {vs : List Value} : (Value.list vs).Meets N ↔ ∀ v ∈ vs, v.Meets N := by
  rw [Value.Meets, valuesMeet_iff]

def Callee.Meets (N : Norm) : Callee → Prop
  | .closure code captured => N.code code captured
  | .native _ => True

theorem Function.Meets.flatten : ∀ {f : Function}, f.Meets N →
    (∀ v ∈ f.flatten.1, v.Meets N) ∧ f.flatten.2.1.Meets N ∧ ∀ v ∈ f.flatten.2.2, v.Meets N
  | .closure _ _, h => ⟨nofun, h, nofun⟩
  | .native _, _ => ⟨nofun, trivial, nofun⟩
  | .applied .left vs f, h => by
    obtain ⟨hb, hc, ha⟩ := Function.Meets.flatten h.2
    refine ⟨fun v hv => ?_, hc, ha⟩
    rcases List.mem_append.mp hv with hv | hv
    · exact hb v hv
    · exact valuesMeet_iff.mp h.1 v hv
  | .applied .right vs f, h => by
    obtain ⟨hb, hc, ha⟩ := Function.Meets.flatten h.2
    refine ⟨hb, hc, fun v hv => ?_⟩
    rcases List.mem_append.mp hv with hv | hv
    · exact valuesMeet_iff.mp h.1 v hv
    · exact ha v hv

/-- What is called in the end, and all it is called with. -/
theorem Function.Meets.callee {f : Function} {args : List Value} (hf : f.Meets N)
    (ha : ∀ v ∈ args, v.Meets N) :
    f.flatten.2.1.Meets N ∧ ∀ v ∈ f.flatten.1 ++ args ++ f.flatten.2.2, v.Meets N := by
  obtain ⟨hb, hc, hr⟩ := hf.flatten
  refine ⟨hc, fun v hv => ?_⟩
  simp only [List.mem_append] at hv
  rcases hv with (hv | hv) | hv
  · exact hb v hv
  · exact ha v hv
  · exact hr v hv

end Values

/-- Whether a fault of this cause can arise where names, registers and sections are found and
nothing has been left uncaught. -/
def Fault.Cause.Ordinary : Fault.Cause → Prop
  | .unknownVariable _ => False
  | .unknownRegister _ => False
  | .unknownSection _ => False
  | .uncaught _ => False
  | _ => True

/-! ## Worlds -/

structure Regime where
  norm : Norm
  /-- What holds of the scopes. -/
  frame : List Scope → Prop
  /-- Whether cells hold values of types they take. -/
  typed : Prop
  /-- The causes of faults. -/
  causes : Fault.Cause → Prop
  ordinary {cause : Fault.Cause} (h : cause.Ordinary) : causes cause
  /-- The registers for which something can be left. -/
  leaves : Register → Prop
  left : Register → World → World → Prop

namespace Regime

variable {R : Regime} {w : World}

abbrev Admits (R : Regime) (v : Value) : Prop :=
  v.Meets R.norm

structure Fit (R : Regime) (w : World) : Prop where
  frame : R.frame w.scopes
  typed (h : R.typed) : w.Typed
  cells (a : Address) (x : Cell) (h : w.cells[a]? = some x) : R.Admits x.value
  registers (s : Scope) (hs : s ∈ w.scopes) (r : Register) (v : Value)
    (h : s.register = some (r, v)) : R.Admits v
  pinned (f : Function) (h : w.pinned = some f) : f.Meets R.norm

def Stops (R : Regime) : Stop → Prop
  | .fault f => R.causes f.cause
  | .signal (.leave r) => R.leaves r
  | _ => True

namespace Fit

theorem of_eq {w' : World} (h : R.Fit w) (hc : w'.cells = w.cells) (hs : w'.scopes = w.scopes)
    (hp : w'.pinned = w.pinned) : R.Fit w' where
  frame := hs ▸ h.frame
  typed ht a x hx := h.typed ht a x (hc ▸ hx)
  cells a x hx := h.cells a x (hc ▸ hx)
  registers s hm := h.registers s (hs ▸ hm)
  pinned f hf := h.pinned f (hp ▸ hf)

theorem read (h : R.Fit w) (a : Address) : R.Admits (w.read a) := by
  rw [World.read]
  split
  · exact h.cells a _ ‹_›
  · trivial

theorem write {a : Address} {v : Value} (h : R.Fit w)
    (ht : R.typed → ∀ x, w.cells[a]? = some x → x.bound.accepts v.type = true)
    (hv : R.Admits v) : R.Fit (w.write a v) where
  frame := h.frame
  typed hr b x hx := by
    simp only [World.write, Array.getElem?_modify] at hx
    split at hx
    · subst_vars
      obtain ⟨y, hy, rfl⟩ := Option.map_eq_some_iff.mp hx
      exact ht hr y hy
    · exact h.typed hr b x hx
  cells b x hx := by
    simp only [World.write, Array.getElem?_modify] at hx
    split at hx
    · obtain ⟨y, hy, rfl⟩ := Option.map_eq_some_iff.mp hx
      exact hv
    · exact h.cells b x hx
  registers := h.registers
  pinned := h.pinned

/-- What the innermost scope holds in a register. -/
theorem held (h : R.Fit w) (r : Register) : R.Admits ((w.scopes.headD {}).held r) := by
  rcases hs : w.scopes with _ | ⟨s, ss⟩
  · trivial
  · rw [List.headD_cons, Scope.held]
    split
    · split
      · exact h.registers s (hs ▸ .head _) _ _ ‹_›
      · trivial
    · trivial

end Fit

end Regime

/-! ## Two computations -/

/-- How two computations end that were both started in the world `w`. -/
inductive Outcome (left : Register → World → World → Prop) (w : World) (Q : α → World → Prop)
    (E : Stop → World → Prop) : EStateM.Result Stop World α → EStateM.Result Stop World α → Prop
  | ok {a : α} {w' : World} (grows : w.Onward w') (value : Q a w') :
    Outcome left w Q E (.ok a w') (.ok a w')
  | error {e : Stop} {w' : World} (grows : w.Onward w') (stop : E e w')
    (notLeft : ∀ r, e ≠ .signal (.leave r)) : Outcome left w Q E (.error e w') (.error e w')
  | left {r : Register} {v' w' : World} (grows : w.Onward w') (stop : E (.signal (.leave r)) w')
    (related : left r v' w') :
    Outcome left w Q E (.error (.signal (.leave r)) v') (.error (.signal (.leave r)) w')

theorem Outcome.grows {left : Register → World → World → Prop} {Q : α → World → Prop}
    {E : Stop → World → Prop} {w₁ w₂ : World} {o o' : EStateM.Result Stop World α}
    (hg : w₁.Onward w₂) (h : Outcome left w₂ Q E o o') : Outcome left w₁ Q E o o' := by
  cases h with
  | ok grows value => exact .ok (hg.trans grows) value
  | error grows stop notLeft => exact .error (hg.trans grows) stop notLeft
  | left grows stop related => exact .left (hg.trans grows) stop related

def Linked (left : Register → World → World → Prop) (P : World → Prop) (x y : Run α)
    (Q : α → World → Prop) (E : Stop → World → Prop) : Prop :=
  ∀ w, P w → Outcome left w Q E (x w) (y w)

namespace Linked

variable {left : Register → World → World → Prop} {P : World → Prop} {Q : α → World → Prop}
  {S : β → World → Prop} {E : Stop → World → Prop} {x y : Run α}

theorem bind {f g : α → Run β} (h : Linked left P x y Q E)
    (hf : ∀ a, Linked left (Q a) (f a) (g a) S E) : Linked left P (x >>= f) (y >>= g) S E := by
  intro w hp
  have hxy := h w hp
  simp only [Bind.bind, EStateM.bind]
  generalize x w = o, y w = o' at hxy
  cases hxy with
  | ok grows value => exact .grows grows (hf _ _ value)
  | error grows stop notLeft => exact .error grows stop notLeft
  | left grows stop related => exact .left grows stop related

theorem conseq {P' : World → Prop} {Q' : α → World → Prop} {E' : Stop → World → Prop}
    (h : Linked left P x y Q E) (hp : ∀ w, P' w → P w) (hq : ∀ a w, Q a w → Q' a w)
    (he : ∀ e w, E e w → E' e w) : Linked left P' x y Q' E' := by
  intro w hw
  have hxy := h w (hp w hw)
  generalize x w = o, y w = o' at hxy
  cases hxy with
  | ok grows value => exact .ok grows (hq _ _ value)
  | error grows stop notLeft => exact .error grows (he _ _ stop) notLeft
  | left grows stop related => exact .left grows (he _ _ stop) related

theorem of_eq {x' : Run α} (h : Linked left P x y Q E) (hx : ∀ w, P w → x' w = x w) :
    Linked left P x' y Q E :=
  fun w hw => hx w hw ▸ h w hw

/-- What is known apart from the world can be used. -/
theorem of_and {p : Prop} (h : p → Linked left P x y Q E) :
    Linked left (fun w => p ∧ P w) x y Q E :=
  fun w hw => h hw.1 w hw.2

theorem pure {a : α} (h : ∀ w, P w → Q a w) : Linked left P (pure a) (pure a) Q E :=
  fun w hw => .ok (.refl w) (h w hw)

theorem throw {e : Stop} (hn : ∀ r, e ≠ .signal (.leave r)) (h : ∀ w, P w → E e w) :
    Linked left P (throw e : Run α) (throw e) Q E :=
  fun w hw => .error (.refl w) (h w hw) hn

theorem modify {f : World → World} {Q : Unit → World → Prop} (h : ∀ w, P w → Q () (f w))
    (hg : ∀ w : World, w.Onward (f w)) : Linked left P (modify f : Run Unit) (modify f) Q E :=
  fun w hw => .ok (hg w) (h w hw)

/-- Looks at the world and goes on with what is known of it. -/
theorem get_bind {f g : World → Run β} (h : ∀ w, P w → Linked left (· = w) (f w) (g w) S E) :
    Linked left P (get >>= f) (get >>= g) S E :=
  fun w hw => h w hw w rfl

/-- A computation that stops first if it has to. -/
theorem guard {p : Prop} [Decidable p] {e : Stop} {k k' : PUnit → Run α}
    (hn : ∀ r, e ≠ .signal (.leave r)) (he : ∀ w, P w → E e w)
    (h : ¬ p → Linked left P (k ⟨⟩) (k' ⟨⟩) Q E) :
    Linked left P (if p then (MonadExcept.throw e : Run PUnit) >>= k else k ⟨⟩)
      (if p then (MonadExcept.throw e : Run PUnit) >>= k' else k' ⟨⟩) Q E := by
  split
  · exact bind (throw (Q := fun _ _ => False) hn he) fun _ _ hf => hf.elim
  · exact h ‹_›

/-- What the growth of a world does not touch stays. -/
theorem stable {T : World → Prop} (ht : ∀ w w', w.Onward w' → T w → T w')
    (h : Linked left P x y Q E) :
    Linked left (fun w => T w ∧ P w) x y (fun a w => T w ∧ Q a w) E := by
  intro w hw
  have hxy := h w hw.2
  generalize x w = o, y w = o' at hxy
  cases hxy with
  | ok grows value => exact .ok grows ⟨ht _ _ grows hw.1, value⟩
  | error grows stop notLeft => exact .error grows stop notLeft
  | left grows stop related => exact .left grows stop related

end Linked

/-! ## In one place -/

namespace Regime

def Links (R : Regime) (V : α → Prop) (x y : Run α) : Prop :=
  Linked R.left R.Fit x y (fun a w => V a ∧ R.Fit w) fun e w => R.Stops e ∧ R.Fit w

namespace Links

variable {R : Regime} {V : α → Prop} {U : β → Prop} {x y : Run α}

theorem bind {f g : α → Run β} (h : R.Links V x y) (hf : ∀ a, V a → R.Links U (f a) (g a)) :
    R.Links U (x >>= f) (y >>= g) :=
  Linked.bind h fun a => .of_and fun ha => hf a ha

theorem pure {a : α} (h : V a) : R.Links V (pure a) (pure a) :=
  Linked.pure fun _ hw => ⟨h, hw⟩

theorem throw {e : Stop} (hn : ∀ r, e ≠ .signal (.leave r)) (h : R.Stops e) :
    R.Links V (throw e) (throw e) :=
  Linked.throw hn fun _ hw => ⟨h, hw⟩

theorem fail {cause : Fault.Cause} {location : Option Location}
    (h : cause.Ordinary) :
    R.Links V (Run.fail cause location) (Run.fail cause location) :=
  throw (fun _ => nofun) (R.ordinary h)

theorem modify {V : Unit → Prop} {f : World → World} (hv : V ()) (hc : ∀ w, (f w).cells = w.cells)
    (hs : ∀ w, (f w).scopes = w.scopes) (hp : ∀ w, (f w).pinned = w.pinned)
    (hn : ∀ w : World, w.content.toList <+: (f w).content.toList) :
    R.Links V (modify f) (modify f) :=
  Linked.modify (fun w hw => ⟨hv, hw.of_eq (hc w) (hs w) (hp w)⟩) fun w => .of_cells (hc w) (hn w)

theorem get_bind {f g : World → Run α} (h : ∀ w, R.Fit w → R.Links V (f w) (g w)) :
    R.Links V (get >>= f) (get >>= g) := by
  refine Linked.get_bind fun w hw => (h w hw).conseq ?_ (fun _ _ h => h) fun _ _ h => h
  rintro _ rfl
  exact hw

theorem read (a : Address) : R.Links R.Admits (Run.read a) (Run.read a) :=
  fun w hw => .ok (.refl w) ⟨hw.read a, hw⟩

end Links

/-- Two machines that call functions alike. -/
structure Calls (R : Regime) (m m' : Machine) : Prop where
  turns : m.turns = m'.turns
  call (f : Function) (args : List Value) (hf : f.Meets R.norm) (ha : ∀ v ∈ args, R.Admits v) :
    R.Links R.Admits (m.call f args) (m'.call f args)

/-- Two machines that evaluate an expression alike. -/
def Evals (R : Regime) (m m' : Machine) (e : Expr Nat) : Prop :=
  R.Links R.Admits (m.eval e) (m'.eval e)

/-- Two machines that look a name up alike. -/
def Finds (R : Regime) (m m' : Machine) (name : String) : Prop :=
  R.Links (fun _ => True) (m.resolve name) (m'.resolve name)

end Regime

end Tale
