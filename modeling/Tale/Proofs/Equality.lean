import Mathlib
import Tale.Proofs.Labels
import Tale.Value.Equality

/-!
# The laws of equality

Equality of values is symmetric and transitive, and a value is equal to itself unless a number it
is compared by is none (`Value.same_laws`). Numbers are compared by what they amount to, which
makes all zeros one. Everything else is compared by identity: texts, names of sections and of the
library's functions, and of the functions of a story where they stand in it and their cells.
-/

namespace Tale

/-- A number is equal to itself, unless it is none. -/
theorem number_same_self (x : Float) : (x == x) = !x.isNaN := by
  rw [Bool.eq_iff_iff, Float.beq_self_iff, Float.isNaN_eq_decide_eq_nan, Bool.not_eq_true',
    decide_eq_false_iff_not]

mutual

/-- The numbers a value is compared by, also those among arguments given ahead. What the cells of
a function hold is not compared. -/
def Value.numbers : Value → List Float
  | .number x => [x]
  | .boolean _ => []
  | .string _ => []
  | .null => []
  | .list vs => numbersInValues vs
  | .choice c => c.numbers
  | .action a => a.numbers
  | .function f => f.numbers

def numbersInValues : List Value → List Float
  | [] => []
  | v :: vs => v.numbers ++ numbersInValues vs

def Choice.numbers : Choice → List Float
  | ⟨_, consequence⟩ => numbersInConsequence consequence

def numbersInConsequence : Option Consequence → List Float
  | none => []
  | some (.act a) => a.numbers
  | some (.call f _) => f.numbers

def numbersInChoices : List Choice → List Float
  | [] => []
  | c :: cs => c.numbers ++ numbersInChoices cs

def Action.numbers : Action → List Float
  | .goto _ => []
  | .exit => []
  | .selection cs => numbersInChoices cs

def Function.numbers : Function → List Float
  | .closure _ _ => []
  | .native _ => []
  | .applied _ vs f => f.numbers ++ numbersInValues vs

end

/-! ## Symmetry -/

mutual

theorem Value.same_comm : ∀ u v : Value, u.same v = v.same u
  | .number x, v => by cases v <;> simp only [Value.same, BEq.comm (a := x)]
  | .boolean a, v => by cases v <;> simp only [Value.same, BEq.comm (a := a)]
  | .string s, v => by cases v <;> simp only [Value.same, BEq.comm (a := s)]
  | .null, v => by cases v <;> simp only [Value.same]
  | .list us, v => by cases v <;> simp only [Value.same, sameValues_comm us]
  | .choice c, v => by cases v <;> simp only [Value.same, Choice.same_comm c]
  | .action a, v => by cases v <;> simp only [Value.same, Action.same_comm a]
  | .function f, v => by cases v <;> simp only [Value.same, Function.same_comm f]

theorem sameValues_comm : ∀ us vs : List Value, sameValues us vs = sameValues vs us
  | [], vs => by cases vs <;> simp only [sameValues]
  | u :: us, vs => by
    cases vs with
    | nil => simp only [sameValues]
    | cons v vs => simp only [sameValues, Value.same_comm u, sameValues_comm us]

theorem Choice.same_comm : ∀ c d : Choice, c.same d = d.same c
  | ⟨s, k⟩, ⟨t, l⟩ => by
    simp only [Choice.same, BEq.comm (a := s), sameConsequence_comm k]

theorem sameConsequence_comm : ∀ k l : Option Consequence, sameConsequence k l = sameConsequence l k
  | none, l => by rcases l with _ | _ | _ <;> simp only [sameConsequence]
  | some (.act a), l => by
    rcases l with _ | _ | _ <;> simp only [sameConsequence, Action.same_comm a]
  | some (.call f _), l => by
    rcases l with _ | _ | _ <;> simp only [sameConsequence, Function.same_comm f]

theorem sameChoices_comm : ∀ cs ds : List Choice, sameChoices cs ds = sameChoices ds cs
  | [], ds => by cases ds <;> simp only [sameChoices]
  | c :: cs, ds => by
    cases ds with
    | nil => simp only [sameChoices]
    | cons d ds => simp only [sameChoices, Choice.same_comm c, sameChoices_comm cs]

theorem Action.same_comm : ∀ a b : Action, a.same b = b.same a
  | .goto names, b => by cases b <;> simp only [Action.same, BEq.comm (a := names)]
  | .exit, b => by cases b <;> simp only [Action.same]
  | .selection cs, b => by cases b <;> simp only [Action.same, sameChoices_comm cs]

theorem Function.same_comm : ∀ f g : Function, f.same g = g.same f
  | .closure c xs, g => by
    cases g <;> simp only [Function.same, BEq.comm (a := c.label), BEq.comm (a := xs)]
  | .native n, g => by cases g <;> simp only [Function.same, BEq.comm (a := n)]
  | .applied s vs f, g => by
    cases g <;>
      simp only [Function.same, BEq.comm (a := s), Function.same_comm f, sameValues_comm vs]

end

/-! ## Transitivity -/

mutual

/-- What is equal to one of two equal values is equal to the other. -/
theorem Value.same_congr : ∀ u v w : Value, u.same v = true → u.same w = v.same w
  | .number x, v, w, h => by
    cases v <;> simp only [Value.same, Bool.false_eq_true] at h
    cases w <;> simp only [Value.same, BEq.congr_left h]
  | .boolean a, v, w, h => by
    cases v <;> simp only [Value.same, Bool.false_eq_true, beq_iff_eq] at h
    rw [h]
  | .string s, v, w, h => by
    cases v <;> simp only [Value.same, Bool.false_eq_true, beq_iff_eq] at h
    rw [h]
  | .null, v, w, h => by
    cases v <;> simp only [Value.same, Bool.false_eq_true] at h
    rfl
  | .list us, v, w, h => by
    cases v <;> simp only [Value.same, Bool.false_eq_true] at h
    cases w <;> simp only [Value.same, sameValues_congr us _ _ h]
  | .choice c, v, w, h => by
    cases v <;> simp only [Value.same, Bool.false_eq_true] at h
    cases w <;> simp only [Value.same, Choice.same_congr c _ _ h]
  | .action a, v, w, h => by
    cases v <;> simp only [Value.same, Bool.false_eq_true] at h
    cases w <;> simp only [Value.same, Action.same_congr a _ _ h]
  | .function f, v, w, h => by
    cases v <;> simp only [Value.same, Bool.false_eq_true] at h
    cases w <;> simp only [Value.same, Function.same_congr f _ _ h]

theorem sameValues_congr : ∀ us vs ws : List Value, sameValues us vs = true →
    sameValues us ws = sameValues vs ws
  | [], vs, ws, h => by
    cases vs <;> simp only [sameValues, Bool.false_eq_true] at h
    rfl
  | u :: us, vs, ws, h => by
    cases vs <;> simp only [sameValues, Bool.false_eq_true, Bool.and_eq_true] at h
    cases ws <;> simp only [sameValues, Value.same_congr u _ _ h.1, sameValues_congr us _ _ h.2]

theorem Choice.same_congr : ∀ c d e : Choice, c.same d = true → c.same e = d.same e
  | ⟨s, k⟩, ⟨t, l⟩, ⟨r, m⟩, h => by
    simp only [Choice.same, Bool.and_eq_true, beq_iff_eq] at h
    simp only [Choice.same, h.1, sameConsequence_congr k l m h.2]

theorem sameConsequence_congr : ∀ k l m : Option Consequence, sameConsequence k l = true →
    sameConsequence k m = sameConsequence l m
  | none, l, m, h => by
    rcases l with _ | _ | _ <;> simp only [sameConsequence, Bool.false_eq_true] at h
    rfl
  | some (.act a), l, m, h => by
    rcases l with _ | _ | _ <;> simp only [sameConsequence, Bool.false_eq_true] at h
    rcases m with _ | _ | _ <;> simp only [sameConsequence, Action.same_congr a _ _ h]
  | some (.call f _), l, m, h => by
    rcases l with _ | _ | _ <;> simp only [sameConsequence, Bool.false_eq_true] at h
    rcases m with _ | _ | _ <;> simp only [sameConsequence, Function.same_congr f _ _ h]

theorem sameChoices_congr : ∀ cs ds es : List Choice, sameChoices cs ds = true →
    sameChoices cs es = sameChoices ds es
  | [], ds, es, h => by
    cases ds <;> simp only [sameChoices, Bool.false_eq_true] at h
    rfl
  | c :: cs, ds, es, h => by
    cases ds <;> simp only [sameChoices, Bool.false_eq_true, Bool.and_eq_true] at h
    cases es <;> simp only [sameChoices, Choice.same_congr c _ _ h.1, sameChoices_congr cs _ _ h.2]

theorem Action.same_congr : ∀ a b e : Action, a.same b = true → a.same e = b.same e
  | .goto names, b, e, h => by
    cases b <;> simp only [Action.same, Bool.false_eq_true, beq_iff_eq] at h
    rw [h]
  | .exit, b, e, h => by
    cases b <;> simp only [Action.same, Bool.false_eq_true] at h
    rfl
  | .selection cs, b, e, h => by
    cases b <;> simp only [Action.same, Bool.false_eq_true] at h
    cases e <;> simp only [Action.same, sameChoices_congr cs _ _ h]

theorem Function.same_congr : ∀ f g e : Function, f.same g = true → f.same e = g.same e
  | .closure c xs, g, e, h => by
    cases g <;>
      simp only [Function.same, Bool.false_eq_true, Bool.and_eq_true, beq_iff_eq] at h
    cases e <;> simp only [Function.same, h.1, h.2]
  | .native n, g, e, h => by
    cases g <;> simp only [Function.same, Bool.false_eq_true, beq_iff_eq] at h
    rw [h]
  | .applied s vs f, g, e, h => by
    cases g <;>
      simp only [Function.same, Bool.false_eq_true, Bool.and_eq_true, beq_iff_eq] at h
    obtain ⟨⟨hs, hf⟩, hvs⟩ := h
    cases e <;>
      simp only [Function.same, hs, Function.same_congr f _ _ hf, sameValues_congr vs _ _ hvs]

end

/-! ## Reflexivity -/

mutual

theorem Value.same_self : ∀ v : Value, v.same v = v.numbers.all (!·.isNaN)
  | .number x => by
    simp only [Value.same, Value.numbers, number_same_self, List.all_cons, List.all_nil,
      Bool.and_true]
  | .boolean b => by simp only [Value.same, Value.numbers, BEq.rfl, List.all_nil]
  | .string s => by simp only [Value.same, Value.numbers, BEq.rfl, List.all_nil]
  | .null => by simp only [Value.same, Value.numbers, List.all_nil]
  | .list vs => by simp only [Value.same, Value.numbers, sameValues_self vs]
  | .choice c => by simp only [Value.same, Value.numbers, Choice.same_self c]
  | .action a => by simp only [Value.same, Value.numbers, Action.same_self a]
  | .function f => by simp only [Value.same, Value.numbers, Function.same_self f]

theorem sameValues_self : ∀ vs : List Value, sameValues vs vs = (numbersInValues vs).all (!·.isNaN)
  | [] => by simp only [sameValues, numbersInValues, List.all_nil]
  | v :: vs => by
    simp only [sameValues, numbersInValues, List.all_append, Value.same_self v, sameValues_self vs]

theorem Choice.same_self : ∀ c : Choice, c.same c = c.numbers.all (!·.isNaN)
  | ⟨s, k⟩ => by
    simp only [Choice.same, Choice.numbers, BEq.rfl, Bool.true_and, sameConsequence_self k]

theorem sameConsequence_self : ∀ k : Option Consequence,
    sameConsequence k k = (numbersInConsequence k).all (!·.isNaN)
  | none => by simp only [sameConsequence, numbersInConsequence, List.all_nil]
  | some (.act a) => by simp only [sameConsequence, numbersInConsequence, Action.same_self a]
  | some (.call f _) => by simp only [sameConsequence, numbersInConsequence, Function.same_self f]

theorem sameChoices_self : ∀ cs : List Choice,
    sameChoices cs cs = (numbersInChoices cs).all (!·.isNaN)
  | [] => by simp only [sameChoices, numbersInChoices, List.all_nil]
  | c :: cs => by
    simp only [sameChoices, numbersInChoices, List.all_append, Choice.same_self c,
      sameChoices_self cs]

theorem Action.same_self : ∀ a : Action, a.same a = a.numbers.all (!·.isNaN)
  | .goto names => by simp only [Action.same, Action.numbers, BEq.rfl, List.all_nil]
  | .exit => by simp only [Action.same, Action.numbers, List.all_nil]
  | .selection cs => by simp only [Action.same, Action.numbers, sameChoices_self cs]

theorem Function.same_self : ∀ f : Function, f.same f = f.numbers.all (!·.isNaN)
  | .closure c xs => by
    simp only [Function.same, Function.numbers, BEq.rfl, Bool.and_true, List.all_nil]
  | .native n => by simp only [Function.same, Function.numbers, BEq.rfl, List.all_nil]
  | .applied s vs f => by
    simp only [Function.same, Function.numbers, BEq.rfl, Bool.true_and, List.all_append,
      Function.same_self f, sameValues_self vs]

end

/-! ## Functions of a story -/

/-- Functions that a story makes are equal if they stand at one place of the story and use the
same cells by the same names. -/
theorem Story.same_closures {s : Story Unit} {i j : Nat} {f g : FunctionExpr Nat}
    {xs ys : List (String × Address)} (hf : s.labelled.functions[i]? = some f)
    (hg : s.labelled.functions[j]? = some g) :
    (Function.closure f xs).same (.closure g ys) = true ↔ i = j ∧ xs = ys := by
  rw [Function.same, Story.labelled_label hf, Story.labelled_label hg, Bool.and_eq_true, beq_iff_eq,
    beq_iff_eq]

/-- Equality is symmetric and transitive on all values, and reflexive on those that are compared by
no number that is none. The functions of a story are told apart by where they stand in it and by
their cells. -/
theorem Value.same_laws : (∀ u v : Value, u.same v = v.same u)
    ∧ (∀ u v w : Value, u.same v = true → v.same w = true → u.same w = true)
    ∧ (∀ v : Value, v.same v = true ↔ ∀ x ∈ v.numbers, x.isNaN = false)
    ∧ ∀ (s : Story Unit) (i j : Nat) (f g : FunctionExpr Nat) (xs ys : List (String × Address)),
      s.labelled.functions[i]? = some f → s.labelled.functions[j]? = some g →
      ((Value.function (.closure f xs)).same (.function (.closure g ys)) = true
        ↔ i = j ∧ xs = ys) := by
  refine ⟨Value.same_comm, ?_, ?_, ?_⟩
  · intro u v w h h'
    rw [Value.same_congr u v w h]
    exact h'
  · intro v
    rw [Value.same_self, List.all_eq_true]
    simp only [Bool.not_eq_true']
  · intro s i j f g xs ys hf hg
    rw [Value.same]
    exact Story.same_closures hf hg

/-- Two functions written alike with arguments that are zeros of both signs, and one with an
argument that is no number. -/
theorem Value.same_laws_zeros :
    let written {ι : Type} (label : ι) : FunctionExpr ι := ⟨label, [], none, [], ⟨.null, none⟩⟩
    let statement : Statement Unit := ⟨.expression ⟨.function (written ()), none⟩, none⟩
    let story : Story Unit := ⟨default, [statement, statement], []⟩
    let applied (x : Float) : Value :=
      .function (.applied .right [.list [.number x]] (.closure (written 1) [("a", 7)]))
    (applied 0).same (applied (-0)) = true ∧ (applied (-0)).same (applied 0) = true
      ∧ (applied 0).same (applied 0) = true
      ∧ (applied (0 / 0)).same (applied (0 / 0)) = false
      ∧ story.labelled.functions[0]? = some (written 0)
      ∧ story.labelled.functions[1]? = some (written 1)
      ∧ (Value.function (.closure (written 0) [])).same (.function (.closure (written 1) []))
        = false := by
  intro written statement story applied
  have hsame : (applied 0).same (applied (-0)) = true := by
    simp only [applied, Value.same, Function.same, sameValues, BEq.rfl, Bool.and_true,
      Bool.true_and]
    decide
  have hcomm : (applied (-0)).same (applied 0) = true := by
    rw [Value.same_laws.1, hsame]
  have h0 : story.labelled.functions[0]? = some (written 0) := rfl
  have h1 : story.labelled.functions[1]? = some (written 1) := rfl
  refine ⟨hsame, hcomm, Value.same_laws.2.1 _ _ _ hsame hcomm, ?_, h0, h1, ?_⟩
  · rw [← Bool.not_eq_true, Value.same_laws.2.2.1]
    intro hx
    have hnan := hx (0 / 0) (by simp [applied, Value.numbers, Function.numbers, numbersInValues])
    revert hnan
    decide
  · rw [← Bool.not_eq_true, Value.same_laws.2.2.2 story 0 1 _ _ _ _ h0 h1]
    rintro ⟨⟨⟩, -⟩

end Tale
