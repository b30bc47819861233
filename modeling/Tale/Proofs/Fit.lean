import Tale.Evaluation
import Tale.Proofs.FreeNames

/-!
# Worlds between two steps of an evaluation

What an evaluation leaves of a world as it was is its outline: which names its scopes map to which
cells, and which registers they have. Cells are only added, and none changes its bound.

How much more is asked of a world is a matter of care: that each cell holds a value of a type it
takes, and that all code in it, also that of functions within values, keeps its free names. Only
code read from a document can be relied on for the second.
-/

namespace Tale

/-! ## Outlines -/

/-- What does not change about a scope while something in it is evaluated. -/
structure Outline where
  names : List (String × Address)
  register : Option Register

def Scope.outline (s : Scope) : Outline :=
  ⟨s.names, s.register.map (·.1)⟩

def World.outlines (w : World) : List Outline :=
  w.scopes.map Scope.outline

/-- What can be looked up further out than in a scope of a register. -/
def beyond (r : Option Register) (names : List String) : List String :=
  if r = some .return then [] else names

/-- The names to be found without leaving the innermost call. -/
def reach : List Outline → List String
  | [] => []
  | o :: os => o.names.map (·.1) ++ beyond o.register (reach os)

/-- The scopes from the innermost one up to that of the innermost call. Only the scope of a call
has a register for `return`. -/
def callScopes : List Scope → List Scope
  | [] => []
  | s :: ss => if s.hasRegister .return then [s] else s :: callScopes ss

theorem Scope.hasRegister_iff {s : Scope} {r : Register} :
    s.hasRegister r = true ↔ s.outline.register = some r := by
  rcases s with ⟨names, _ | ⟨r', v⟩⟩
  · simp [hasRegister, outline]
  · simp [hasRegister, outline, eq_comm]

/-- What is kept of a table is found as before. -/
theorem lookup_filter {κ α : Type} [BEq κ] [LawfulBEq κ] {f : κ → Bool} {k : κ} (h : f k = true) :
    ∀ xs : List (κ × α), (xs.filter fun x => f x.1).lookup k = xs.lookup k
  | [] => rfl
  | (k', a) :: xs => by
    by_cases hk : k = k'
    · subst hk
      simp [h]
    · have hb : (k == k') = false := by simpa using hk
      cases hf : f k' <;> simp [hf, List.lookup_cons, hb, lookup_filter h xs]

theorem exists_lookup {name : String} {ns : List (String × Address)} (h : name ∈ ns.map (·.1)) :
    ∃ a, ns.lookup name = some a := by
  rcases ha : ns.lookup name with _ | a
  · obtain ⟨n, hn, rfl⟩ := List.mem_map.mp h
    have := List.lookup_eq_none_iff.mp ha n hn
    simp at this
  · exact ⟨a, rfl⟩

/-- A name in reach is found, and in the scopes of the call. -/
theorem address?_of_mem_reach {name : String} : ∀ {ss : List Scope},
    name ∈ reach (ss.map Scope.outline) →
      ∃ a, (callScopes ss).findSome? (·.address? name) = some a
        ∧ ss.findSome? (·.address? name) = some a
  | [], h => by simp [reach] at h
  | s :: ss, h => by
    rcases ha : s.address? name with _ | a
    · have hn : name ∉ s.names.map (·.1) := by
        intro hm
        obtain ⟨a, hs⟩ := exists_lookup hm
        exact Option.some_ne_none a (hs.symm.trans ha)
      simp only [List.map_cons, reach, List.mem_append] at h
      replace h := h.resolve_left hn
      by_cases hr : s.hasRegister .return
      · simp [beyond, Scope.hasRegister_iff.mp hr] at h
      · rw [beyond, if_neg fun h' => hr (Scope.hasRegister_iff.mpr h')] at h
        obtain ⟨a, h₁, h₂⟩ := address?_of_mem_reach h
        exact ⟨a, by simp [callScopes, hr, ha, h₁], by simp [ha, h₂]⟩
    · refine ⟨a, ?_, by simp [ha]⟩
      by_cases hr : s.hasRegister .return <;> simp [callScopes, hr, ha]

theorem outline_setRegister {r : Register} {v : Value} : ∀ {ss ss' : List Scope},
    World.setRegister r v ss = some ss' → ss'.map Scope.outline = ss.map Scope.outline
  | [], _, h => by simp [World.setRegister] at h
  | s :: ss, ss', h => by
    by_cases hr : s.hasRegister r
    · simp only [World.setRegister, hr, if_true, Option.some.injEq] at h
      subst h
      have := Scope.hasRegister_iff.mp hr
      simp only [Scope.outline] at this
      simp [Scope.outline, this]
    · simp only [World.setRegister, hr, Bool.false_eq_true, if_false, Option.map_eq_some_iff] at h
      obtain ⟨tt, ht, rfl⟩ := h
      simp [outline_setRegister ht]

/-! ## Values of documents -/

mutual

/-- All code within the value keeps its free names. -/
def Value.Sound : Value → Prop
  | .number _ => True
  | .boolean _ => True
  | .string _ => True
  | .null => True
  | .list vs => valuesSound vs
  | .choice c => c.Sound
  | .action a => a.Sound
  | .function f => f.Sound

def valuesSound : List Value → Prop
  | [] => True
  | v :: vs => v.Sound ∧ valuesSound vs

def Choice.Sound : Choice → Prop
  | ⟨_, none⟩ => True
  | ⟨_, some c⟩ => c.Sound

def Consequence.Sound : Consequence → Prop
  | .act a => a.Sound
  | .call f _ => f.Sound

def Action.Sound : Action → Prop
  | .goto _ => True
  | .exit => True
  | .selection cs => choicesSound cs

def choicesSound : List Choice → Prop
  | [] => True
  | c :: cs => c.Sound ∧ choicesSound cs

def Function.Sound : Function → Prop
  | .closure code captured => code.Captured ∧ captured.map (·.1) = code.captures
  | .native _ => True
  | .applied _ vs f => valuesSound vs ∧ f.Sound

end

theorem valuesSound_iff {vs : List Value} : valuesSound vs ↔ ∀ v ∈ vs, v.Sound := by
  induction vs with
  | nil => simp [valuesSound]
  | cons v vs ih => simp [valuesSound, ih]

theorem choicesSound_iff {cs : List Choice} : choicesSound cs ↔ ∀ c ∈ cs, c.Sound := by
  induction cs with
  | nil => simp [choicesSound]
  | cons c cs ih => simp [choicesSound, ih]

@[simp]
theorem Value.sound_list {vs : List Value} : (Value.list vs).Sound ↔ ∀ v ∈ vs, v.Sound := by
  rw [Value.Sound, valuesSound_iff]

/-! ## Cells -/

/-- Cells are only added, and keep their bounds. -/
def World.Grows (w w' : World) : Prop :=
  ∀ (a : Address) (x : Cell), w.cells[a]? = some x →
    ∃ x', w'.cells[a]? = some x' ∧ x'.bound = x.bound

theorem World.Grows.refl (w : World) : w.Grows w :=
  fun _ x h => ⟨x, h, rfl⟩

theorem World.Grows.trans {w₁ w₂ w₃ : World} (h : w₁.Grows w₂) (h' : w₂.Grows w₃) :
    w₁.Grows w₃ := by
  intro a x hx
  obtain ⟨x₂, hx₂, hb₂⟩ := h a x hx
  obtain ⟨x₃, hx₃, hb₃⟩ := h' a x₂ hx₂
  exact ⟨x₃, hx₃, hb₃.trans hb₂⟩

/-- What is put out is added at the end, and cells are only added. -/
def World.Onward (w w' : World) : Prop :=
  w.Grows w' ∧ w.content.toList <+: w'.content.toList

namespace World.Onward

theorem refl (w : World) : w.Onward w :=
  ⟨.refl w, List.prefix_rfl⟩

theorem trans {w₁ w₂ w₃ : World} (h : w₁.Onward w₂) (h' : w₂.Onward w₃) : w₁.Onward w₃ :=
  ⟨h.1.trans h'.1, h.2.trans h'.2⟩

theorem of_cells {w w' : World} (hc : w'.cells = w.cells)
    (hn : w.content.toList <+: w'.content.toList) : w.Onward w' :=
  ⟨fun a x hx => ⟨x, (congrArg (·[a]?) hc).trans hx, rfl⟩, hn⟩

end World.Onward

theorem World.content_emit (w : World) (n : Node) :
    w.content.toList <+: (w.emit n).content.toList := by
  simp [World.emit]

/-- Every cell holds a value of a type it takes. -/
def World.Typed (w : World) : Prop :=
  ∀ (a : Address) (x : Cell), w.cells[a]? = some x → x.bound.accepts x.value.type = true

/-- There is a cell that takes values of a type. -/
def World.Takes (a : Address) (t : ValueType) (w : World) : Prop :=
  ∃ x, w.cells[a]? = some x ∧ x.bound.accepts t = true

theorem World.Takes.grows {a : Address} {t : ValueType} {w w' : World} (hg : w.Grows w')
    (h : w.Takes a t) : w'.Takes a t := by
  obtain ⟨x, hx, ht⟩ := h
  obtain ⟨x', hx', hb⟩ := hg a x hx
  exact ⟨x', hx', hb ▸ ht⟩

/-- A value other than null is read from a cell that takes it. -/
theorem World.Typed.takes {w : World} (h : w.Typed) {a : Address} (hn : w.read a ≠ .null) :
    w.Takes a (w.read a).type := by
  rcases hx : w.cells[a]? with _ | x
  · simp [World.read, hx] at hn
  · exact ⟨x, hx, by simpa [World.read, hx] using h a x hx⟩

/-- All code within the world keeps its free names. -/
structure World.Sound (w : World) : Prop where
  cells : ∀ (a : Address) (x : Cell), w.cells[a]? = some x → x.value.Sound
  registers : ∀ s ∈ w.scopes, ∀ r v, s.register = some (r, v) → v.Sound
  pinned : ∀ f, w.pinned = some f → f.Sound

/-- What is asked of a world apart from its outline. -/
structure Care where
  typed : Prop
  read : Prop

def Care.Admits (c : Care) (v : Value) : Prop :=
  c.read → v.Sound

structure World.Fit (c : Care) (os : List Outline) (w : World) : Prop where
  outlines : w.outlines = os
  typed : c.typed → w.Typed
  sound : c.read → w.Sound

namespace World.Fit

variable {c : Care} {os : List Outline} {w : World}

theorem of_eq {w' : World} (h : w.Fit c os) (hc : w'.cells = w.cells) (hs : w'.scopes = w.scopes)
    (hp : w'.pinned = w.pinned) : w'.Fit c os where
  outlines := by rw [World.outlines, hs]; exact h.outlines
  typed := fun ht a x hx => h.typed ht a x (hc ▸ hx)
  sound := fun hr =>
    { cells := fun a x hx => (h.sound hr).cells a x (hc ▸ hx)
      registers := fun s hm => (h.sound hr).registers s (hs ▸ hm)
      pinned := fun f hf => (h.sound hr).pinned f (hp ▸ hf) }

theorem read (h : w.Fit c os) (a : Address) : c.Admits (w.read a) := by
  intro hr
  rw [World.read]
  split
  · exact (h.sound hr).cells a _ ‹_›
  · trivial

theorem declare {o : Outline} {name : String} {bound : TypeBound} {v : Value}
    (h : w.Fit c (o :: os)) (ht : c.typed → bound.accepts v.type = true) (hv : c.Admits v) :
    (w.declare name bound v).Fit c (⟨(name, w.cells.size) :: o.names, o.register⟩ :: os) := by
  have ho := h.outlines
  rcases hs : w.scopes with _ | ⟨s, ss⟩
  · simp [World.outlines, hs] at ho
  · rw [World.outlines, hs, List.map_cons, List.cons.injEq] at ho
    obtain ⟨rfl, hos⟩ := ho
    refine ⟨?_, fun hc a x hx => ?_, fun hr => ⟨fun a x hx => ?_, ?_, (h.sound hr).pinned⟩⟩
    · simp [World.outlines, World.declare, hs, Scope.declare, Scope.outline, ← hos]
    · simp only [World.declare, Array.getElem?_push] at hx
      split at hx
      · cases hx
        exact ht hc
      · exact h.typed hc a x hx
    · simp only [World.declare, Array.getElem?_push] at hx
      split at hx
      · cases hx
        exact hv hr
      · exact (h.sound hr).cells a x hx
    · intro t hm
      simp only [World.declare, hs, List.mem_cons] at hm
      rcases hm with rfl | hm
      · exact (h.sound hr).registers s (by simp [hs])
      · exact (h.sound hr).registers t (by simp [hs, hm])

theorem push {s : Scope} (h : w.Fit c os) (hv : ∀ r v, s.register = some (r, v) → c.Admits v) :
    { w with scopes := s :: w.scopes }.Fit c (s.outline :: os) where
  outlines := by rw [← h.outlines]; rfl
  typed := h.typed
  sound := fun hr =>
    { cells := (h.sound hr).cells
      registers := fun t hm => by
        rcases List.mem_cons.mp hm with rfl | hm
        · exact fun r v ht => hv r v ht hr
        · exact (h.sound hr).registers t hm
      pinned := (h.sound hr).pinned }

theorem pop {o : Outline} (h : w.Fit c (o :: os)) :
    { w with scopes := w.scopes.tail }.Fit c os where
  outlines := by
    have := congrArg List.tail h.outlines
    simpa [World.outlines] using this
  typed := h.typed
  sound := fun hr =>
    { cells := (h.sound hr).cells
      registers := fun t hm => (h.sound hr).registers t (List.mem_of_mem_tail hm)
      pinned := (h.sound hr).pinned }

/-- What the innermost scope holds in its register. -/
theorem held {o : Outline} (h : w.Fit c (o :: os)) (r : Register) :
    c.Admits ((w.scopes.headD {}).held r) := by
  intro hr
  rcases hs : w.scopes with _ | ⟨s, ss⟩
  · simp [Scope.held, Value.Sound]
  · simp only [List.headD_cons, Scope.held]
    split
    · split
      · exact (h.sound hr).registers s (by simp [hs]) _ _ ‹_›
      · trivial
    · trivial

theorem setRegister {r : Register} {v : Value} {ss : List Scope} (h : w.Fit c os)
    (hv : c.Admits v) (hs : World.setRegister r v w.scopes = some ss) :
    { w with scopes := ss }.Fit c os where
  outlines := (outline_setRegister hs).trans h.outlines
  typed := h.typed
  sound := fun hr =>
    { cells := (h.sound hr).cells
      registers := by
        have := (h.sound hr).registers
        generalize w.scopes = tt at hs this
        induction tt generalizing ss with
        | nil => simp [World.setRegister] at hs
        | cons t tt ih =>
          simp only [List.mem_cons, forall_eq_or_imp] at this
          simp only [World.setRegister] at hs
          split at hs
          · cases hs
            simp only [List.mem_cons, forall_eq_or_imp]
            refine ⟨?_, this.2⟩
            rintro _ _ ⟨⟩
            exact hv hr
          · obtain ⟨uu, hu, rfl⟩ := Option.map_eq_some_iff.mp hs
            simp only [List.mem_cons, forall_eq_or_imp]
            exact ⟨this.1, ih hu this.2⟩
      pinned := (h.sound hr).pinned }

end World.Fit

theorem World.onward_write (w : World) (a : Address) (v : Value) : w.Onward (w.write a v) := by
  refine ⟨fun b x hx => ?_, List.prefix_rfl⟩
  simp only [World.write, Array.getElem?_modify]
  split
  · exact ⟨⟨x.bound, v⟩, by rw [hx]; rfl, rfl⟩
  · exact ⟨x, hx, rfl⟩

theorem World.onward_declare (w : World) (name : String) (bound : TypeBound) (v : Value) :
    w.Onward (w.declare name bound v) := by
  refine ⟨fun b x hx => ?_, List.prefix_rfl⟩
  have hb : b ≠ w.cells.size := by
    rintro rfl
    simp at hx
  exact ⟨x, by simp only [World.declare, Array.getElem?_push, if_neg hb]; exact hx, rfl⟩

end Tale
