import Tale.Fault
import Tale.Proofs.Kin

/-!
# Twin computations

Two computations are twins if, started in states that are alike, they come to values that are
alike or stop for reasons that are alike, and leave states behind that are alike. There is a rule
for each way in which computations are put together, so twins are found part by part.

Worlds are alike under a `Kin` if their cells, scopes and registers hold akin values and what has
been put out is the same. Faults are alike if they say the same in the same words, at places that
the `Kin` relates; none of them comes from a call outside of any expression.
-/

namespace Tale

section Twins

variable {ε σ α β : Type}

/-- Outcomes that are alike. -/
inductive Concur (E : ε → ε → Prop) (V : α → α → Prop) : Except ε α → Except ε α → Prop
  | ok {a a' : α} (value : V a a') : Concur E V (.ok a) (.ok a')
  | error {e e' : ε} (stop : E e e') : Concur E V (.error e) (.error e')

/-- Outcomes and states that are alike. -/
inductive Paired (S : σ → σ → Prop) (E : ε → ε → Prop) (V : α → α → Prop) :
    EStateM.Result ε σ α → EStateM.Result ε σ α → Prop
  | ok {a a' : α} {s s' : σ} (value : V a a') (state : S s s') :
      Paired S E V (.ok a s) (.ok a' s')
  | error {e e' : ε} {s s' : σ} (stop : E e e') (state : S s s') :
      Paired S E V (.error e s) (.error e' s')

def Twins (S : σ → σ → Prop) (E : ε → ε → Prop) (V : α → α → Prop) (x y : EStateM ε σ α) : Prop :=
  ∀ ⦃s s' : σ⦄, S s s' → Paired S E V (x s) (y s')

namespace Twins

variable {S : σ → σ → Prop} {E E' : ε → ε → Prop} {V V' : α → α → Prop} {U : β → β → Prop}
  {x y : EStateM ε σ α}

theorem pure {a a' : α} (h : V a a') : Twins S E V (pure a) (pure a') :=
  fun _ _ hs => .ok h hs

theorem throw {e e' : ε} (h : E e e') : Twins S E V (throw e) (throw e') :=
  fun _ _ hs => .error h hs

theorem bind {f g : α → EStateM ε σ β} (h : Twins S E V x y)
    (hf : ∀ a a', V a a' → Twins S E U (f a) (g a')) : Twins S E U (x >>= f) (y >>= g) := by
  intro s s' hs
  have hxy := h hs
  simp only [Bind.bind, EStateM.bind]
  generalize x s = o, y s' = o' at hxy
  cases hxy with
  | ok value state => exact hf _ _ value state
  | error stop state => exact .error stop state

theorem mono (h : Twins S E V x y) (he : ∀ e e', E e e' → E' e e')
    (hv : ∀ a a', V a a' → V' a a') : Twins S E' V' x y := by
  intro s s' hs
  have hxy := h hs
  generalize x s = o, y s' = o' at hxy
  cases hxy with
  | ok value state => exact .ok (hv _ _ value) state
  | error stop state => exact .error (he _ _ stop) state

theorem get_bind {f g : σ → EStateM ε σ α} (h : ∀ s s', S s s' → Twins S E V (f s) (g s')) :
    Twins S E V (get >>= f) (get >>= g) :=
  fun s s' hs => h s s' hs hs

protected theorem modify {f g : σ → σ} (h : ∀ s s', S s s' → S (f s) (g s')) :
    Twins S E (fun _ _ => True) (modify f) (modify g) :=
  fun s s' hs => .ok trivial (h s s' hs)

end Twins

end Twins

/-- A call outside of any expression, which is none of an evaluation's, was refused. -/
def Fault.Cause.isStray : Fault.Cause → Bool
  | .strayCall _ => true
  | _ => false

namespace Kin

variable (K : Kin)

/-! ## Worlds -/

structure Scopes (s s' : Scope) : Prop where
  names : s'.names = s.names
  leads : K.Leads s.names
  register : Option.Rel (fun p p' => p'.1 = p.1 ∧ p.2.Akin K p'.2) s.register s'.register

/-- What is seen of the values in a cell: contents may show them, even those that may not be
used. -/
structure Sights (a : Address) (v v' : Value) : Prop where
  display : v'.display = v.display
  akin (h : K.Open a) : v.Akin K v'

structure Cells (a : Address) (c c' : Cell) : Prop where
  bound : c'.bound = c.bound
  value : K.Sights a c.value c'.value

structure Worlds (w w' : World) : Prop where
  size : w'.cells.size = w.cells.size
  /-- Cells that are still to come are open. -/
  fresh (a : Address) (h : w.cells.size ≤ a) : K.Open a
  cells (a : Address) : Option.Rel (K.Cells a) w.cells[a]? w'.cells[a]?
  scopes : List.Forall₂ K.Scopes w.scopes w'.scopes
  random (h : K.chance) : w'.random = w.random
  content : w'.content = w.content
  pinned : Option.Rel (Function.Akin K) w.pinned w'.pinned
  stateText : w'.stateText = w.stateText
  timers : w'.timers = w.timers
  canvases : w'.canvases = w.canvases
  provider : w'.provider = w.provider

/-! ## Reasons to stop -/

structure Causes (c c' : Fault.Cause) : Prop where
  code : c'.code = c.code
  text : c'.text = c.text
  isPlaced : c'.isPlaced = c.isPlaced
  within : c.isStray = false

structure Entries (e e' : Fault.Entry) : Prop where
  text : e'.passage.text = e.passage.text
  location : e'.location = K.place e.location

structure Faults (f f' : Fault) : Prop where
  cause : Causes f.cause f'.cause
  location : f'.location = K.place f.location
  trail : List.Forall₂ K.Entries f.trail f'.trail

/-- Reasons to stop that are alike; calls may be refused for reasons in `R` only. -/
inductive Stops (R : CallError → Prop) : Stop → Stop → Prop
  | fault {f f' : Fault} (h : K.Faults f f') : Stops R (.fault f) (.fault f')
  | signal (s : Signal) : Stops R (.signal s) (.signal s)
  | refused {e e' : CallError} (h : R e) (text : e'.text = e.text) :
      Stops R (.refused e) (.refused e')
  | exhausted : Stops R .exhausted .exhausted

/-- Twin computations on worlds. -/
def Runs {α : Type} (R : CallError → Prop) (V : α → α → Prop) (x y : Run α) : Prop :=
  Twins K.Worlds (K.Stops R) V x y

end Kin

/-- No call is refused. -/
def Unrefused (_ : CallError) : Prop :=
  False

variable {K : Kin} {α : Type}

theorem Kin.Faults.passing {f f' : Fault} (h : K.Faults f f') {p p' : Fault.Passage}
    (hp : p'.text = p.text) (location : Option Location) :
    K.Faults (f.passing p location) (f'.passing p' (K.place location)) :=
  ⟨h.cause, h.location, List.rel_append h.trail (.cons ⟨hp, rfl⟩ .nil)⟩

/-- A passage through something that has no place. -/
theorem Kin.Faults.through {f f' : Fault} (h : K.Faults f f') {p p' : Fault.Passage}
    (hp : p'.text = p.text) : K.Faults (f.passing p none) (f'.passing p' none) := by
  have passed := h.passing hp none
  rwa [K.nowhere] at passed

/-- A fault without a place. -/
theorem Kin.Causes.unplaced {c c' : Fault.Cause} (h : Kin.Causes c c') :
    K.Faults ⟨c, none, []⟩ ⟨c', none, []⟩ :=
  ⟨h, K.nowhere.symm, .nil⟩

theorem Kin.Stops.widen {R R' : CallError → Prop} (hr : ∀ e, R e → R' e) {e e' : Stop}
    (h : K.Stops R e e') : K.Stops R' e e' := by
  cases h with
  | fault h => exact .fault h
  | signal s => exact .signal s
  | refused h text => exact .refused (hr _ h) text
  | exhausted => exact .exhausted

/-! ## Parts of a world -/

section Worlds

variable {w w' : World} {a : Address}

theorem Kin.Worlds.read (h : K.Worlds w w') (a : Address) : K.Sights a (w.read a) (w'.read a) := by
  simp only [World.read]
  have hc := h.cells a
  generalize w.cells[a]? = c, w'.cells[a]? = c' at hc
  cases hc with
  | none => exact ⟨rfl, fun _ => .null⟩
  | some hc => exact hc.value

theorem Kin.Worlds.bound (h : K.Worlds w w') (a : Address) :
    w'.cells[a]?.bind (·.bound) = w.cells[a]?.bind (·.bound) := by
  have hc := h.cells a
  generalize w.cells[a]? = c, w'.cells[a]? = c' at hc
  cases hc with
  | none => rfl
  | some hc => exact hc.bound

theorem Kin.Worlds.write (h : K.Worlds w w') {v v' : Value} (hv : v.Akin K v') :
    K.Worlds (w.write a v) (w'.write a v') := by
  refine { h with size := ?_, fresh := ?_, cells := fun b => ?_ }
  · simp only [World.write, Array.size_modify, h.size]
  · simp only [World.write, Array.size_modify]
    exact h.fresh
  · have hc := h.cells b
    simp only [World.write, Array.getElem?_modify]
    generalize w.cells[b]? = c, w'.cells[b]? = c' at hc
    split
    · cases hc with
      | none => exact .none
      | some hc => exact .some ⟨hc.bound, hv.display, fun _ => hv⟩
    · exact hc

theorem Kin.Leads.nil : K.Leads [] :=
  List.forall_mem_nil _

theorem Kin.Leads.cons {names : List (String × Address)} (h : K.Leads names) {name : String}
    (ha : K.Named name → K.Open a) : K.Leads ((name, a) :: names) := by
  intro p hp
  rcases List.mem_cons.mp hp with rfl | hp
  · exact ha
  · exact h p hp

theorem Kin.Worlds.declare (h : K.Worlds w w') (name : String) (bound : TypeBound) {v v' : Value}
    (hv : v.Akin K v') : K.Worlds (w.declare name bound v) (w'.declare name bound v') := by
  refine { h with size := ?_, fresh := fun b hb => ?_, cells := fun b => ?_, scopes := ?_ }
  · simp only [World.declare, Array.size_push, h.size]
  · simp only [World.declare, Array.size_push] at hb
    exact h.fresh b (Nat.le_of_succ_le hb)
  · simp only [World.declare, Array.getElem?_push, h.size]
    split
    · exact .some ⟨rfl, hv.display, fun _ => hv⟩
    · exact h.cells b
  · have hs := h.scopes
    simp only [World.declare, h.size]
    generalize w.scopes = scopes, w'.scopes = scopes' at hs
    cases hs with
    | nil => exact .nil
    | cons hs hss =>
      refine .cons ⟨?_, hs.leads.cons fun _ => h.fresh _ (Nat.le_refl _), hs.register⟩ hss
      simp only [Scope.declare, hs.names]

theorem Kin.Worlds.emit (h : K.Worlds w w') (n : Node) : K.Worlds (w.emit n) (w'.emit n) :=
  { h with content := by simp only [World.emit, h.content] }

/-- A name means the same cell in both worlds. -/
theorem Kin.Worlds.address? (h : K.Worlds w w') (name : String) :
    w'.address? name = w.address? name
      ∧ ∀ a, w.address? name = some a → K.Named name → K.Open a := by
  have hs := h.scopes
  simp only [World.address?]
  generalize w.scopes = scopes, w'.scopes = scopes' at hs
  induction hs with
  | nil => exact ⟨rfl, nofun⟩
  | @cons s s' _ _ hs _ ih =>
    have he : s'.address? name = s.address? name := by simp only [Scope.address?, hs.names]
    rw [List.findSome?_cons, List.findSome?_cons, he]
    rcases ha : s.address? name with _ | a
    · exact ih
    · refine ⟨rfl, ?_⟩
      rintro _ ⟨⟩
      obtain ⟨before, after, hn, -⟩ := List.lookup_eq_some_iff.mp ha
      exact hs.leads (name, a) (by simp [hn])

theorem Kin.Scopes.held {s s' : Scope} (h : K.Scopes s s') (r : Register) :
    (s.held r).Akin K (s'.held r) := by
  have hr := h.register
  simp only [Scope.held]
  generalize s.register = p, s'.register = p' at hr
  cases hr with
  | none => exact .null
  | @some p p' hp =>
    simp only [hp.1]
    split
    · exact hp.2
    · exact .null

theorem Kin.Scopes.hasRegister {s s' : Scope} (h : K.Scopes s s') (r : Register) :
    s'.hasRegister r = s.hasRegister r := by
  have hr := h.register
  simp only [Scope.hasRegister]
  generalize s.register = p, s'.register = p' at hr
  cases hr with
  | none => rfl
  | some hp => simp only [Option.any_some, hp.1]

theorem setRegister_akin {r : Register} {v v' : Value} (hv : v.Akin K v') {ss ss' : List Scope}
    (h : List.Forall₂ K.Scopes ss ss') :
    Option.Rel (List.Forall₂ K.Scopes) (World.setRegister r v ss) (World.setRegister r v' ss') := by
  induction h with
  | nil => exact .none
  | cons hs hss ih =>
    simp only [World.setRegister, hs.hasRegister r]
    split
    · exact .some (.cons ⟨hs.names, hs.leads, .some ⟨rfl, hv⟩⟩ hss)
    · generalize World.setRegister r v _ = o, World.setRegister r v' _ = o' at ih
      cases ih with
      | none => exact .none
      | some hss => exact .some (.cons hs hss)

end Worlds

/-! ## Computations on a world -/

namespace Twins

variable {R : CallError → Prop} {V : α → α → Prop}

theorem fail {cause cause' : Fault.Cause} {location : Option Location}
    (h : Kin.Causes cause cause') :
    K.Runs R V (Run.fail cause location) (Run.fail cause' (K.place location)) :=
  Twins.throw (.fault ⟨h, rfl, .nil⟩)

theorem fail_nowhere {cause : Fault.Cause} (h : cause.isStray = false) :
    K.Runs R V (Run.fail cause none) (Run.fail cause none) :=
  Twins.throw (.fault (Kin.Causes.unplaced ⟨rfl, rfl, rfl, h⟩))

theorem widen {R' : CallError → Prop} (hr : ∀ e, R e → R' e) {x y : Run α}
    (h : K.Runs R V x y) : K.Runs R' V x y :=
  Twins.mono h (fun _ _ => .widen hr) fun _ _ => id

theorem resolve (name : String) :
    K.Runs Unrefused (fun a a' => a' = a ∧ (K.Named name → K.Open a)) (Run.resolve name)
      (Run.resolve name) := by
  refine Twins.get_bind fun w w' hw => ?_
  obtain ⟨he, ho⟩ := hw.address? name
  rw [he]
  rcases ha : w.address? name with _ | a
  · exact fail_nowhere rfl
  · exact Twins.pure ⟨rfl, ho a ha⟩

theorem read (a : Address) : K.Runs R (K.Sights a) (Run.read a) (Run.read a) :=
  Twins.get_bind fun _ _ hw => Twins.pure (hw.read a)

theorem setRegister (r : Register) {v v' : Value} (hv : v.Akin K v') :
    K.Runs R (fun _ _ => True) (Run.setRegister r v) (Run.setRegister r v') := by
  refine Twins.get_bind fun w w' hw => ?_
  have hs := setRegister_akin (r := r) hv hw.scopes
  generalize World.setRegister r v _ = o, World.setRegister r v' _ = o' at hs
  cases hs with
  | none => exact fail_nowhere rfl
  | some hs => exact Twins.modify fun _ _ hw => { hw with scopes := hs }

theorem write (a : Address) {v v' : Value} (hv : v.Akin K v') :
    K.Runs R (fun _ _ => True) (modify (·.write a v)) (modify (·.write a v')) :=
  Twins.modify fun _ _ hw => hw.write hv

theorem declare (name : String) (bound : TypeBound) {v v' : Value} (hv : v.Akin K v') :
    K.Runs R (fun _ _ => True) (modify (·.declare name bound v))
      (modify (·.declare name bound v')) :=
  Twins.modify fun _ _ hw => hw.declare name bound hv

theorem adapt {R' : CallError → Prop} {f g : Stop → Stop} {x y : Run α}
    (hf : ∀ e e', K.Stops R e e' → K.Stops R' (f e) (g e')) (h : K.Runs R V x y) :
    K.Runs R' V (Run.adapt f x) (Run.adapt g y) := by
  intro w w' hw
  have hxy := h hw
  simp only [Run.adapt]
  generalize x w = o, y w' = o' at hxy
  cases hxy with
  | ok value state => exact .ok value state
  | error stop state => exact .error (hf _ _ stop) state

/-- What comes of a scope of its own: the outcome, and the scope as it was left. -/
theorem inScope {scope : Scope} {x y : Run α} (hs : K.Scopes scope scope)
    (h : K.Runs R V x y) :
    K.Runs R (fun p p' => Concur (K.Stops R) V p.1 p'.1 ∧ K.Scopes p.2 p'.2)
      (Run.inScope scope x) (Run.inScope scope y) := by
  have headD {ss ss' : List Scope} (h : List.Forall₂ K.Scopes ss ss') :
      K.Scopes (ss.headD {}) (ss'.headD {}) := by
    cases h with
    | nil => exact ⟨rfl, .nil, .none⟩
    | cons hs _ => exact hs
  have tail {ss ss' : List Scope} (h : List.Forall₂ K.Scopes ss ss') :
      List.Forall₂ K.Scopes ss.tail ss'.tail := by
    cases h with
    | nil => exact .nil
    | cons _ hss => exact hss
  intro w w' hw
  have inner : K.Worlds { w with scopes := scope :: w.scopes }
      { w' with scopes := scope :: w'.scopes } := { hw with scopes := .cons hs hw.scopes }
  have hxy := h inner
  simp only [Run.inScope]
  generalize x { w with scopes := scope :: w.scopes } = o,
    y { w' with scopes := scope :: w'.scopes } = o' at hxy
  cases hxy with
  | ok value state =>
    exact .ok ⟨.ok value, headD state.scopes⟩ { state with scopes := tail state.scopes }
  | error stop state =>
    exact .ok ⟨.error stop, headD state.scopes⟩ { state with scopes := tail state.scopes }

end Twins

end Tale
