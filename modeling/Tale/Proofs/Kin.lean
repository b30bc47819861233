import Mathlib.Data.List.Forall2
import Mathlib.Logic.Basic
import Tale.Proofs.Places
import Tale.Value.Describe
import Tale.Value.Equality
import Tale.World

/-!
# Akin values

A story can be told twice with a difference between the tellings that should not matter: places
moved or taken off, or another seed. A `Kin` says what the difference is, and values are akin if
they differ only so. Where the seeds differ no value may reach a function that draws; the cells of
these functions stay closed, and a name counts as named if it can do without them.

Akin values are described by the same words, and what is equal to one is equal to the other.
-/

namespace Tale

/-- Whether a function of the library draws random numbers. -/
def Native.draws : Native → Bool
  | .random | .randomInt | .randomBoolean | .randomBiased => true
  | _ => false

/-- How two tellings may differ. -/
structure Kin where
  /-- Whether both draw the same numbers. -/
  chance : Prop
  /-- The place in the second telling of what has a place in the first one. -/
  place : Option Location → Option Location
  nowhere : place none = none

namespace Kin

variable (K : Kin)

/-- The name of a function that draws may be used only if both tellings draw alike. -/
def Named (name : String) : Prop :=
  ∀ n : Native, n.name = name → n.draws = true → K.chance

/-- The cells that may be read. -/
def Open (a : Address) : Prop :=
  ∀ n : Native, Native.all[a]? = some n → n.draws = true → K.chance

/-- Cells that names mean are open, as far as the names may be used. -/
def Leads (names : List (String × Address)) : Prop :=
  ∀ p ∈ names, K.Named p.1 → K.Open p.2

end Kin

mutual

inductive Value.Akin (K : Kin) : Value → Value → Prop
  | number (x : Float) : Value.Akin K (.number x) (.number x)
  | boolean (b : Bool) : Value.Akin K (.boolean b) (.boolean b)
  | string (s : String) : Value.Akin K (.string s) (.string s)
  | null : Value.Akin K .null .null
  | list {vs vs' : List Value} (h : ValuesAkin K vs vs') : Value.Akin K (.list vs) (.list vs')
  | choice {c c' : Choice} (h : Choice.Akin K c c') : Value.Akin K (.choice c) (.choice c')
  | action {a a' : Action} (h : Action.Akin K a a') : Value.Akin K (.action a) (.action a')
  | function {f f' : Function} (h : Function.Akin K f f') :
      Value.Akin K (.function f) (.function f')

inductive ValuesAkin (K : Kin) : List Value → List Value → Prop
  | nil : ValuesAkin K [] []
  | cons {v v' : Value} {vs vs' : List Value} (h : Value.Akin K v v') (hs : ValuesAkin K vs vs') :
      ValuesAkin K (v :: vs) (v' :: vs')

inductive Choice.Akin (K : Kin) : Choice → Choice → Prop
  | disabled (text : String) : Choice.Akin K ⟨text, none⟩ ⟨text, none⟩
  | enabled (text : String) {k k' : Consequence} (h : Consequence.Akin K k k') :
      Choice.Akin K ⟨text, some k⟩ ⟨text, some k'⟩

inductive Consequence.Akin (K : Kin) : Consequence → Consequence → Prop
  | act {a a' : Action} (h : Action.Akin K a a') : Consequence.Akin K (.act a) (.act a')
  | call {f f' : Function} (h : Function.Akin K f f') (creator : Option Location) :
      Consequence.Akin K (.call f creator) (.call f' (K.place creator))

inductive Action.Akin (K : Kin) : Action → Action → Prop
  | goto (names : List String) : Action.Akin K (.goto names) (.goto names)
  | exit : Action.Akin K .exit .exit
  | selection {cs cs' : List Choice} (h : ChoicesAkin K cs cs') :
      Action.Akin K (.selection cs) (.selection cs')

inductive ChoicesAkin (K : Kin) : List Choice → List Choice → Prop
  | nil : ChoicesAkin K [] []
  | cons {c c' : Choice} {cs cs' : List Choice} (h : Choice.Akin K c c')
      (hs : ChoicesAkin K cs cs') : ChoicesAkin K (c :: cs) (c' :: cs')

inductive Function.Akin (K : Kin) : Function → Function → Prop
  | closure (code : FunctionExpr Nat) (captured : List (String × Address))
      (named : ∀ x ∈ code.references, K.Named x) (leads : K.Leads captured) :
      Function.Akin K (.closure code captured) (.closure (code.relocate K.place) captured)
  | native (n : Native) (h : n.draws = true → K.chance) :
      Function.Akin K (.native n) (.native n)
  | applied (side : Side) {vs vs' : List Value} {f f' : Function} (hs : ValuesAkin K vs vs')
      (h : Function.Akin K f f') : Function.Akin K (.applied side vs f) (.applied side vs' f')

end

variable {K : Kin}

theorem valuesAkin_iff {vs vs' : List Value} :
    ValuesAkin K vs vs' ↔ List.Forall₂ (Value.Akin K) vs vs' := by
  constructor
  · intro h
    induction vs generalizing vs' with
    | nil => cases h; exact .nil
    | cons v vs ih => cases h with | cons h hs => exact .cons h (ih hs)
  · intro h
    induction h with
    | nil => exact .nil
    | cons h _ ih => exact .cons h ih

theorem choicesAkin_iff {cs cs' : List Choice} :
    ChoicesAkin K cs cs' ↔ List.Forall₂ (Choice.Akin K) cs cs' := by
  constructor
  · intro h
    induction cs generalizing cs' with
    | nil => cases h; exact .nil
    | cons c cs ih => cases h with | cons h hs => exact .cons h (ih hs)
  · intro h
    induction h with
    | nil => exact .nil
    | cons h _ ih => exact .cons h ih

/-! ## Descriptions -/

/-- How a function is described by the names of its parameters. -/
def describeParameters (names : List String) : String :=
  "function (arguments = [" ++ commaSeparated names ++ "])"

mutual

theorem Value.Akin.describe : ∀ {v v' : Value}, v.Akin K v' → v'.describe = v.describe
  | _, _, .number _ => rfl
  | _, _, .boolean _ => rfl
  | _, _, .string _ => rfl
  | _, _, .null => rfl
  | _, _, .list h =>
    congrArg (fun texts => "list (elements = [" ++ commaSeparated texts ++ "])") h.describe
  | _, _, .choice h => Choice.Akin.describe h
  | _, _, .action h => Action.Akin.describe h
  | _, _, .function h => Function.Akin.describe h

theorem ValuesAkin.describe : ∀ {vs vs' : List Value}, ValuesAkin K vs vs' →
    describeValues vs' = describeValues vs
  | _, _, .nil => rfl
  | _, _, .cons h hs => congrArg₂ List.cons h.describe hs.describe

theorem Choice.Akin.describe : ∀ {c c' : Choice}, c.Akin K c' → c'.describe = c.describe
  | _, _, .disabled _ => rfl
  | _, _, .enabled text h =>
    congrArg (fun action =>
      "choice (action = " ++ action ++ ", label = " ++ Text.inQuotes text ++ ")") h.describe

theorem Consequence.Akin.describe : ∀ {k k' : Consequence}, k.Akin K k' →
    describeConsequence (some k') = describeConsequence (some k)
  | _, _, .act h => Action.Akin.describe h
  | _, _, .call h _ =>
    congrArg (fun f => "action (type = function, fn = " ++ f ++ ")") (Function.Akin.describe h)

theorem Action.Akin.describe : ∀ {a a' : Action}, a.Akin K a' → a'.describe = a.describe
  | _, _, .goto _ => rfl
  | _, _, .exit => rfl
  | _, _, .selection h =>
    congrArg (fun texts =>
      "action (type = selection, choices = [" ++ commaSeparated texts ++ "])") h.describe

theorem ChoicesAkin.describe : ∀ {cs cs' : List Choice}, ChoicesAkin K cs cs' →
    describeChoices cs' = describeChoices cs
  | _, _, .nil => rfl
  | _, _, .cons h hs => congrArg₂ List.cons h.describe hs.describe

theorem Function.Akin.describe : ∀ {f f' : Function}, f.Akin K f' → f'.describe = f.describe
  | _, _, .closure ⟨_, ps, _, _, _⟩ _ _ _ =>
    congrArg describeParameters (relocateParameters_names K.place ps)
  | _, _, .native _ _ => rfl
  | _, _, .applied side hs h =>
    congrArg₂ (fun texts target => "function (partial " ++ side.name ++ ", applied = ["
      ++ commaSeparated texts ++ "], targetFn = " ++ target ++ ")") hs.describe h.describe

end

theorem Value.Akin.type {v v' : Value} (h : v.Akin K v') : v'.type = v.type := by
  cases h <;> rfl

theorem Value.Akin.eq_null_iff {v v' : Value} (h : v.Akin K v') : v' = .null ↔ v = .null := by
  cases h <;> simp only [reduceCtorEq]

theorem Value.Akin.isNull {v v' : Value} (h : v.Akin K v') : v'.isNull = v.isNull := by
  cases h <;> rfl

theorem Value.Akin.display {v v' : Value} (h : v.Akin K v') : v'.display = v.display := by
  have hd := h.describe
  cases h with
  | number x => rfl
  | boolean b => rfl
  | string s => rfl
  | null => rfl
  | list h => exact hd
  | choice h => exact hd
  | action h => exact hd
  | function h => exact hd

/-! ## Equality -/

mutual

theorem Value.Akin.same : ∀ {u u' v v' : Value}, u.Akin K u' → v.Akin K v' →
    u'.same v' = u.same v
  | _, _, _, _, .number _, hv | _, _, _, _, .boolean _, hv | _, _, _, _, .string _, hv
  | _, _, _, _, .null, hv => by cases hv <;> simp only [Value.same]
  | _, _, _, _, .list hu, hv => by
    cases hv with
    | list hv => simp only [Value.same, hu.same hv]
    | _ => simp only [Value.same]
  | _, _, _, _, .choice hu, hv => by
    cases hv with
    | choice hv => simp only [Value.same, Choice.Akin.same hu hv]
    | _ => simp only [Value.same]
  | _, _, _, _, .action hu, hv => by
    cases hv with
    | action hv => simp only [Value.same, Action.Akin.same hu hv]
    | _ => simp only [Value.same]
  | _, _, _, _, .function hu, hv => by
    cases hv with
    | function hv => simp only [Value.same, Function.Akin.same hu hv]
    | _ => simp only [Value.same]

theorem ValuesAkin.same : ∀ {us us' vs vs' : List Value}, ValuesAkin K us us' →
    ValuesAkin K vs vs' → sameValues us' vs' = sameValues us vs
  | _, _, _, _, .nil, hv => by cases hv <;> simp only [sameValues]
  | _, _, _, _, .cons hu hus, hv => by
    cases hv with
    | nil => simp only [sameValues]
    | cons hv hvs => simp only [sameValues, hu.same hv, hus.same hvs]

theorem Choice.Akin.same : ∀ {c c' d d' : Choice}, c.Akin K c' → d.Akin K d' →
    c'.same d' = c.same d
  | _, _, _, _, .disabled _, hd => by
    cases hd <;> simp only [Choice.same, sameConsequence]
  | _, _, _, _, .enabled _ hk, hd => by
    cases hd with
    | disabled _ => simp only [Choice.same, sameConsequence]
    | enabled _ hl => simp only [Choice.same, hk.same hl]

theorem Consequence.Akin.same : ∀ {k k' l l' : Consequence}, k.Akin K k' → l.Akin K l' →
    sameConsequence (some k') (some l') = sameConsequence (some k) (some l)
  | _, _, _, _, .act hk, hl => by
    cases hl with
    | act hl => simp only [sameConsequence, Action.Akin.same hk hl]
    | call _ _ => simp only [sameConsequence]
  | _, _, _, _, .call hk _, hl => by
    cases hl with
    | act _ => simp only [sameConsequence]
    | call hl _ => simp only [sameConsequence, Function.Akin.same hk hl]

theorem Action.Akin.same : ∀ {a a' b b' : Action}, a.Akin K a' → b.Akin K b' →
    a'.same b' = a.same b
  | _, _, _, _, .goto _, hb | _, _, _, _, .exit, hb => by cases hb <;> simp only [Action.same]
  | _, _, _, _, .selection ha, hb => by
    cases hb with
    | selection hb => simp only [Action.same, ha.same hb]
    | _ => simp only [Action.same]

theorem ChoicesAkin.same : ∀ {cs cs' ds ds' : List Choice}, ChoicesAkin K cs cs' →
    ChoicesAkin K ds ds' → sameChoices cs' ds' = sameChoices cs ds
  | _, _, _, _, .nil, hd => by cases hd <;> simp only [sameChoices]
  | _, _, _, _, .cons hc hcs, hd => by
    cases hd with
    | nil => simp only [sameChoices]
    | cons hd hds => simp only [sameChoices, Choice.Akin.same hc hd, hcs.same hds]

/-- Functions are told apart by their labels, which are no places. -/
theorem Function.Akin.same : ∀ {f f' g g' : Function}, f.Akin K f' → g.Akin K g' →
    f'.same g' = f.same g
  | _, _, _, _, .closure _ _ _ _, hg => by
    cases hg with
    | closure _ _ _ _ => simp only [Function.same, FunctionExpr.relocate_label]
    | _ => simp only [Function.same]
  | _, _, _, _, .native _ _, hg => by cases hg <;> simp only [Function.same]
  | _, _, _, _, .applied _ hus hf, hg => by
    cases hg with
    | applied _ hvs hg => simp only [Function.same, Function.Akin.same hf hg, hus.same hvs]
    | _ => simp only [Function.same]

end

/-! ## Functions -/

/-- What is behind arguments given ahead. -/
inductive Callee.Akin (K : Kin) : Callee → Callee → Prop
  | closure (code : FunctionExpr Nat) (captured : List (String × Address))
      (named : ∀ x ∈ code.references, K.Named x) (leads : K.Leads captured) :
      Callee.Akin K (.closure code captured) (.closure (code.relocate K.place) captured)
  | native (n : Native) (h : n.draws = true → K.chance) : Callee.Akin K (.native n) (.native n)

theorem Function.Akin.flatten : ∀ {f f' : Function}, f.Akin K f' →
    List.Forall₂ (Value.Akin K) f.flatten.1 f'.flatten.1
      ∧ Callee.Akin K f.flatten.2.1 f'.flatten.2.1
      ∧ List.Forall₂ (Value.Akin K) f.flatten.2.2 f'.flatten.2.2
  | _, _, .closure code captured named leads =>
    ⟨.nil, .closure code captured named leads, .nil⟩
  | _, _, .native n h => ⟨.nil, .native n h, .nil⟩
  | _, _, .applied .left hs h => by
    obtain ⟨hb, hc, ha⟩ := Function.Akin.flatten h
    exact ⟨List.rel_append hb (valuesAkin_iff.mp hs), hc, ha⟩
  | _, _, .applied .right hs h => by
    obtain ⟨hb, hc, ha⟩ := Function.Akin.flatten h
    exact ⟨hb, hc, List.rel_append (valuesAkin_iff.mp hs) ha⟩

/-! ## No difference -/

/-- Both tellings draw alike, and places stay. -/
def Kin.same : Kin where
  chance := True
  place := id
  nowhere := rfl

mutual

theorem Value.akin_self : ∀ v : Value, v.Akin .same v
  | .number x => .number x
  | .boolean b => .boolean b
  | .string s => .string s
  | .null => .null
  | .list vs => .list (valuesAkin_self vs)
  | .choice c => .choice (Choice.akin_self c)
  | .action a => .action (Action.akin_self a)
  | .function f => .function (Function.akin_self f)

theorem valuesAkin_self : ∀ vs : List Value, ValuesAkin .same vs vs
  | [] => .nil
  | v :: vs => .cons (Value.akin_self v) (valuesAkin_self vs)

theorem Choice.akin_self : ∀ c : Choice, c.Akin .same c
  | ⟨text, none⟩ => .disabled text
  | ⟨text, some k⟩ => .enabled text (Consequence.akin_self k)

theorem Consequence.akin_self : ∀ k : Consequence, k.Akin .same k
  | .act a => .act (Action.akin_self a)
  | .call f creator => .call (Function.akin_self f) creator

theorem Action.akin_self : ∀ a : Action, a.Akin .same a
  | .goto names => .goto names
  | .exit => .exit
  | .selection cs => .selection (choicesAkin_self cs)

theorem choicesAkin_self : ∀ cs : List Choice, ChoicesAkin .same cs cs
  | [] => .nil
  | c :: cs => .cons (Choice.akin_self c) (choicesAkin_self cs)

theorem Function.akin_self : ∀ f : Function, f.Akin .same f
  | .closure code captured => by
    have h := Function.Akin.closure (K := .same) code captured (fun _ _ _ _ _ => trivial)
      fun _ _ _ _ _ _ => trivial
    rwa [show code.relocate Kin.same.place = code from code.relocate_id] at h
  | .native n => .native n fun _ => trivial
  | .applied side vs f => .applied side (valuesAkin_self vs) (Function.akin_self f)

end

end Tale
