import Tale.Proofs.Keeps
import Tale.Proofs.Operators

/-!
# Keeping worlds fit as a regime

What `Keeps` asks of worlds, values and stops is a regime in which two worlds never differ, so
whatever respects regimes keeps worlds fit: the operators, the functions of the library
(`Native.run_answers`) and every expression but those that open scopes.
-/

namespace Tale

variable {α : Type} {c : Care} {os : List Outline}

/-! ## The regime -/

/-- A function that was read from a document keeps its free names. -/
def Care.norm (c : Care) : Norm where
  code code captured := c.read → code.Captured ∧ captured.map (·.1) = code.captures
  targets _ := True

mutual

theorem Value.meets_iff : ∀ {v : Value}, v.Meets c.norm ↔ c.Admits v
  | .number _ => iff_of_true trivial fun _ => trivial
  | .boolean _ => iff_of_true trivial fun _ => trivial
  | .string _ => iff_of_true trivial fun _ => trivial
  | .null => iff_of_true trivial fun _ => trivial
  | .list _ => valuesMeet_iff_sound
  | .choice k => Choice.meets_iff (k := k)
  | .action a => Action.meets_iff (a := a)
  | .function f => Function.meets_iff (f := f)

theorem valuesMeet_iff_sound : ∀ {vs : List Value},
    valuesMeet c.norm vs ↔ (c.read → valuesSound vs)
  | [] => iff_of_true trivial fun _ => trivial
  | v :: vs => by
    rw [valuesMeet, valuesSound, Value.meets_iff, valuesMeet_iff_sound, imp_and, Care.Admits]

theorem Choice.meets_iff : ∀ {k : Choice}, k.Meets c.norm ↔ (c.read → k.Sound)
  | ⟨_, none⟩ => iff_of_true trivial fun _ => trivial
  | ⟨_, some k⟩ => Consequence.meets_iff (k := k)

theorem Consequence.meets_iff : ∀ {k : Consequence}, k.Meets c.norm ↔ (c.read → k.Sound)
  | .act a => Action.meets_iff (a := a)
  | .call f _ => Function.meets_iff (f := f)

theorem Action.meets_iff : ∀ {a : Action}, a.Meets c.norm ↔ (c.read → a.Sound)
  | .goto _ => iff_of_true trivial fun _ => trivial
  | .exit => iff_of_true trivial fun _ => trivial
  | .selection _ => choicesMeet_iff_sound

theorem choicesMeet_iff_sound : ∀ {cs : List Choice},
    choicesMeet c.norm cs ↔ (c.read → choicesSound cs)
  | [] => iff_of_true trivial fun _ => trivial
  | k :: cs => by
    rw [choicesMeet, choicesSound, Choice.meets_iff, choicesMeet_iff_sound, imp_and]

theorem Function.meets_iff : ∀ {f : Function}, f.Meets c.norm ↔ (c.read → f.Sound)
  | .closure _ _ => Iff.rfl
  | .native _ => iff_of_true trivial fun _ => trivial
  | .applied _ vs f => by
    rw [Function.Meets, Function.Sound, Function.meets_iff, valuesMeet_iff_sound, imp_and]

end

def Care.regime (c : Care) (os : List Outline) : Regime where
  norm := c.norm
  frame ss := ss.map Scope.outline = os
  typed := c.typed
  causes cause := c.read → ∀ name, cause ≠ .unknownVariable name
  ordinary h _ name hc := by
    rw [hc] at h
    exact h
  leaves _ := True
  left _ w w' := w = w'

theorem Care.fit_iff {w : World} : (c.regime os).Fit w ↔ w.Fit c os where
  mp h :=
    { outlines := h.frame
      typed := h.typed
      sound hr :=
        { cells a x hx := Value.meets_iff.mp (h.cells a x hx) hr
          registers s hs r v hv := Value.meets_iff.mp (h.registers s hs r v hv) hr
          pinned f hf := Function.meets_iff.mp (h.pinned f hf) hr } }
  mpr h :=
    { frame := h.outlines
      typed := h.typed
      cells a x hx := Value.meets_iff.mpr fun hr => (h.sound hr).cells a x hx
      registers s hs r v hv := Value.meets_iff.mpr fun hr => (h.sound hr).registers s hs r v hv
      pinned f hf := Function.meets_iff.mpr fun hr => (h.sound hr).pinned f hf }

theorem Care.stops_iff {e : Stop} : (c.regime os).Stops e ↔ e.Fit c := by
  rcases e with f | (r | _) | r | _
  · exact Iff.rfl
  · exact Iff.rfl
  · exact Iff.rfl
  · exact Iff.rfl
  · exact Iff.rfl

/-- Where worlds never differ, two computations are linked if they agree. -/
theorem keeps_iff {V : α → Prop} {x y : Run α} :
    Keeps c os V x y ↔ (c.regime os).Links V x y := by
  refine forall_congr' fun w => ?_
  rw [Care.fit_iff]
  refine imp_congr_right fun _ => ?_
  constructor
  · rintro ⟨hxy, he⟩
    rw [hxy]
    rcases hy : y w with ⟨a, w'⟩ | ⟨e, w'⟩ <;> rw [hy] at he
    · exact .ok he.1 ⟨he.2.1, Care.fit_iff.mpr he.2.2⟩
    · have hs : (c.regime os).Stops e ∧ (c.regime os).Fit w' :=
        ⟨Care.stops_iff.mpr he.2.1, Care.fit_iff.mpr he.2.2⟩
      rcases e with f | (r | _) | r | _
      · exact .error he.1 hs fun _ => nofun
      · exact .left he.1 hs rfl
      · exact .error he.1 hs fun _ => nofun
      · exact .error he.1 hs fun _ => nofun
      · exact .error he.1 hs fun _ => nofun
  · intro h
    generalize x w = o, y w = o' at h
    cases h with
    | ok grows value => exact ⟨rfl, grows, value.1, Care.fit_iff.mp value.2⟩
    | error grows stop notLeft =>
      exact ⟨rfl, grows, Care.stops_iff.mp stop.1, Care.fit_iff.mp stop.2⟩
    | left grows stop related =>
      obtain rfl : _ = _ := related
      exact ⟨rfl, grows, Care.stops_iff.mp stop.1, Care.fit_iff.mp stop.2⟩

/-- What is admitted is what meets the norm. -/
theorem keeps_value_iff {x y : Run Value} :
    Keeps c os c.Admits x y ↔ (c.regime os).Links (c.regime os).Admits x y := by
  have hv : c.Admits = (c.regime os).Admits := funext fun v => propext Value.meets_iff.symm
  rw [hv]
  exact keeps_iff

theorem Machine.AgreeAt.calls {m m' : Machine} {seen : List String}
    (hm : m.AgreeAt c os seen m') : (c.regime os).Calls m m' where
  turns := hm.turns
  call f args hf ha := keeps_value_iff.mp (hm.call f args (Function.meets_iff.mp hf)
    fun v hv => Value.meets_iff.mp (ha v hv))

theorem Machine.Agree.calls {m m' : Machine} (hm : m.Agree c m') : (c.regime os).Calls m m' :=
  (hm.at os).calls

/-! ## Functions of the library -/

/-- `Keeps` of a computation that may also refuse its arguments. -/
def Answers (c : Care) (os : List Outline) (V : α → Prop) (x y : ExceptT Refusal Run α) : Prop :=
  Keeps c os (Gives V) (x : Run (Except Refusal α)) y

/-- Whatever a call keeps, the functions of the library keep. -/
theorem Native.run_answers {m m' : Machine} (hm : m.Agree c m') (f : Native) {args : List Value}
    (ha : ∀ v ∈ args, c.Admits v) : Answers c os c.Admits (f.run m args) (f.run m' args) := by
  have hv : c.Admits = (c.regime os).Admits := funext fun v => propext Value.meets_iff.symm
  rw [hv] at ha ⊢
  exact keeps_iff.mpr (Native.run_links hm.calls f ha)

end Tale
