import Tale.Proofs.Closed
import Tale.Proofs.Placed

/-!
# The registers of parsed trees

A statement with a register is read only where some scope around it has the register, be it that
of another function. Whatever is read as `yield` stands in a block, and nothing but a function has
the register of `return`. So only `break` can stand where it does not belong.
-/

namespace Tale

variable {α β : Type}

namespace LexicalScopes

/-- The registers of scopes, innermost first. -/
def registers (ss : LexicalScopes) : List (List Register) :=
  ss.map (·.registers)

/-- The registers that can be seen from within the innermost function. -/
def visible : List (List Register) → List Register
  | [] => []
  | rs :: g => if .return ∈ rs then rs else rs ++ visible g

theorem return_mem_visible : ∀ {g : List (List Register)}, (∃ rs ∈ g, .return ∈ rs) →
    .return ∈ visible g
  | [], h => by
    obtain ⟨rs, hm, -⟩ := h
    cases hm
  | rs :: g, h => by
    rw [visible]
    split
    · assumption
    · rename_i hn
      obtain ⟨rs', hm, hr⟩ := h
      rcases List.mem_cons.mp hm with rfl | hm
      · exact absurd hr hn
      · exact List.mem_append_right _ (return_mem_visible ⟨rs', hm, hr⟩)

theorem hasRegister_iff {ss : LexicalScopes} {r : Register} :
    ss.hasRegister r = true ↔ ∃ rs ∈ ss.registers, r ∈ rs := by
  simp only [hasRegister, registers, List.any_eq_true, List.contains_iff_mem, List.mem_map]
  constructor
  · rintro ⟨s, hs, hr⟩
    exact ⟨_, ⟨s, hs, rfl⟩, hr⟩
  · rintro ⟨_, ⟨s, hs, rfl⟩, hr⟩
    exact ⟨s, hs, hr⟩

theorem registers_resolve (name : String) : ∀ ss : LexicalScopes,
    (ss.resolve name).2.registers = ss.registers
  | [] => rfl
  | s :: ss => by
    simp only [resolve]
    split
    · rfl
    · simpa [registers, LexicalScope.capture] using registers_resolve name ss

theorem registers_declare (name : String) (ss : LexicalScopes) :
    (ss.declare name).registers = ss.registers := by
  cases ss <;> rfl

theorem registers_declareAll : ∀ (names : List String) (ss : LexicalScopes),
    (ss.declareAll names).registers = ss.registers
  | [], _ => rfl
  | n :: ns, ss => (registers_declareAll ns (ss.declare n)).trans (registers_declare n ss)

end LexicalScopes

open LexicalScopes (visible registers_resolve registers_declare registers_declareAll)

/-- What holds of a result of a parser that leaves the registers in sight as they are. -/
def Settles (g : List (List Register)) (p : Parser α) (V : α → Prop) : Prop :=
  ∀ ss : LexicalScopes, ss.registers = g → Reads ss p fun a ss' => V a ∧ ss'.registers = g

namespace Settles

variable {g : List (List Register)} {p : Parser α} {V : α → Prop} {U : β → Prop}

theorem bind {f : α → Parser β} (h : Settles g p V) (hf : ∀ a, V a → Settles g (f a) U) :
    Settles g (p >>= f) U :=
  fun ss hs => .bind (h ss hs) fun a ss' ha => hf a ha.1 ss' ha.2

theorem mono {V' : α → Prop} (h : Settles g p V) (hv : ∀ a, V a → V' a) : Settles g p V' :=
  fun ss hs => (h ss hs).mono fun a _ ha => ⟨hv a ha.1, ha.2⟩

theorem pass {q : Parser β} {f : β → Parser α} (h : Passes q U)
    (hf : ∀ b, U b → Settles g (f b) V) : Settles g (q >>= f) V :=
  fun ss hs => .pass h fun b hb => hf b hb ss hs

theorem pure {a : α} (h : V a) : Settles g (pure a) V :=
  fun _ hs => .pure ⟨h, hs⟩

theorem throw {e : SourceError} : Settles g (throw e : Parser α) V :=
  fun _ _ => .throw

theorem fails (h : Passes p fun _ => False) : Settles g p V :=
  fun _ _ => .of_passes h fun _ hf => hf.elim

theorem map {f : α → β} (h : Settles g p V) (hf : ∀ a, V a → U (f a)) : Settles g (f <$> p) U :=
  bind h fun a ha => pure (hf a ha)

theorem guard {c : Prop} [Decidable c] {q : Parser PUnit} {k : PUnit → Parser α}
    (hq : Passes q fun _ => False) (h : ¬ c → Settles g (k ⟨⟩) V) :
    Settles g (if c then q >>= k else k ⟨⟩) V :=
  fun ss hs => .guard hq fun hc => h hc ss hs

theorem get_bind {f : Reading → Parser α} (h : ∀ r : Reading, r.scopes.registers = g →
    Settles g (f r) V) : Settles g (get >>= f) V :=
  fun ss hs => .get_bind fun r _ hr => h r (hr ▸ hs) ss hs

theorem modifyScopes {f : LexicalScopes → LexicalScopes} {V : Unit → Prop} (h : V ())
    (hf : ∀ ss, (f ss).registers = ss.registers) : Settles g (Parser.modifyScopes f) V :=
  fun ss hs => .modifyScopes ⟨h, (hf ss).trans hs⟩

theorem exit {rs : List Register} {ss : LexicalScopes} {a : α} (hs : ss.registers = rs :: g)
    (ha : V a) : Reads ss (do Parser.modifyScopes .exit; return a) fun a ss' =>
      V a ∧ ss'.registers = g := by
  refine .bind (.modifyScopes (Q := fun _ ss' => ss'.registers = g) ?_) fun _ _ hs => .pure ⟨ha, hs⟩
  rcases ss with _ | ⟨s, ss⟩
  · cases hs
  · exact (List.cons.inj hs).2

theorem inScope {r : Register} (h : Settles ([r] :: g) p V) :
    Settles g (Parser.inScope r p) V := by
  rintro ss rfl
  refine .bind (.modifyScopes (Q := fun _ ss' => ss'.registers = [r] :: ss.registers) rfl) ?_
  exact fun _ ss₁ hs₁ => .bind (h ss₁ hs₁) fun a ss₂ ha => exit ha.2 ha.1

theorem inFunction (h : Settles ([.return] :: g) p V) :
    Settles g (Parser.inFunction p) fun a => V a.1 := by
  rintro ss rfl
  refine .bind (.modifyScopes (Q := fun _ ss' => ss'.registers = [.return] :: ss.registers) rfl) ?_
  refine fun _ ss₁ hs₁ => .bind (h ss₁ hs₁) fun a ss₂ ha => .get_bind fun r _ _ => ?_
  exact exit ha.2 ha.1

theorem repeatWhile {more : Parser Bool} {V : List (List Register) → α → Prop}
    (hm : Passes more fun _ => True) (h : ∀ g, Settles g p (V g)) (turns : Nat) :
    Settles g (Parser.repeatWhile more p turns) fun as => ∀ a ∈ as, V g a := by
  rintro ss rfl
  refine Parser.repeatWhile_reads (J := fun ss as ss' =>
    (∀ a ∈ as, V ss.registers a) ∧ ss'.registers = ss.registers) hm
    (fun ss => ⟨fun _ => nofun, rfl⟩) (fun ss => ?_) turns ss
  refine (h _ ss rfl).mono fun a ss₁ ha as ss₂ has => ?_
  rw [ha.2] at has
  exact ⟨List.forall_mem_cons.mpr ⟨ha.1, has.1⟩, has.2⟩

theorem upTo {close : String} {V : List (List Register) → α → Prop} (h : ∀ g, Settles g p (V g))
    (turns : Nat) : Settles g (Parser.upTo close p turns) fun as => ∀ a ∈ as, V g a :=
  repeatWhile (.bind Parser.sees_passes fun _ _ => .pure trivial) h turns

end Settles

/-- The register that is looked for beyond functions as well. -/
def Loose (r : Register) : Prop :=
  r = .break

namespace Grammar

open Tale.Parser

variable {sub : Operand} {turns : Nat} {g : List (List Register)} {location : Option Location}

section Sub

variable (hs : ∀ min max g, Settles g (sub min max) (Expr.Placed Loose (visible g)))

include hs in
theorem some_settles : Settles g (some <$> expression sub) (optionPlaced Loose (visible g)) :=
  .map (hs _ _ g) fun _ he => he

include hs in
theorem option_settles {kind : TokenKind} {content : String} {k : Option (Expr Unit) → Parser α}
    {V : α → Prop} (hk : ∀ e, optionPlaced Loose (visible g) e → Settles g (k e) V) : Settles g (do
      if ← accept kind content then
        let e ← some <$> expression sub
        k e
      else
        let e ← pure none
        k e) V := by
  refine .pass accept_passes fun b _ => ?_
  split
  · exact .bind (some_settles hs) hk
  · exact hk none trivial

include hs in
theorem element_settles (g : List (List Register)) :
    Settles g (element sub) fun e => e.expr.Placed Loose (visible g) := by
  refine .pass sees_passes fun b _ => ?_
  split
  · refine .pass next_passes fun t _ => .bind (hs _ _ g) fun e he => ?_
    exact .pass located_passes fun _ _ => .pure he
  · exact .bind (hs _ _ g) fun e he => .pure he

include hs in
theorem list_settles : Settles g (list sub turns) (Expr.Placed Loose (visible g)) := by
  refine .pass expect_passes fun _ _ => .bind (.upTo (element_settles hs) turns) fun es hes => ?_
  refine .pass expect_passes fun _ _ => .pass located_passes fun _ _ => .pure ?_
  exact elementsPlaced_iff.mpr hes

include hs in
theorem switchCases_settles : ∀ turns, Settles g (switchCases sub turns) fun p =>
    casesPlaced Loose (visible g) p.1 ∧ optionPlaced Loose (visible g) p.2
  | 0 => by
    refine .pass sees_passes fun b _ => ?_
    split
    · exact .pure ⟨trivial, trivial⟩
    · exact .throw
  | n + 1 => by
    refine .pass sees_passes fun b _ => ?_
    split
    · exact .pure ⟨trivial, trivial⟩
    · refine .bind (hs _ _ g) fun p hp => .pass sees_passes fun b _ => ?_
      split
      · exact .pure ⟨trivial, hp⟩
      · refine .bind (hs _ _ g) fun r hr => .bind (switchCases_settles n) fun cs hcs => .pure ?_
        exact ⟨⟨hp, hr, hcs.1⟩, hcs.2⟩

include hs in
theorem switchOn_settles {subject : Expr Unit} (h : subject.Placed Loose (visible g)) :
    Settles g (switchOn sub turns subject location) (Expr.Placed Loose (visible g)) := by
  refine .pass expect_passes fun _ _ => .bind (switchCases_settles hs turns) fun p hp => ?_
  exact .pass expect_passes fun _ _ => .pure ⟨h, hp⟩

include hs in
theorem parameters_settles : ∀ turns used, Settles ([.return] :: g) (parameters sub turns used)
    fun p => parametersPlaced Loose p.1
  | 0, used => by
    refine .pass sees_passes fun b _ => ?_
    split
    · exact .pure trivial
    · refine .pass accept_passes fun b _ => ?_
      split
      · exact .pass take_passes fun t _ => .guard fail_passes fun _ => .pure trivial
      · exact .throw
  | n + 1, used => by
    refine .pass sees_passes fun b _ => ?_
    split
    · exact .pure trivial
    · refine .pass accept_passes fun b _ => ?_
      split
      · exact .pass take_passes fun t _ => .guard fail_passes fun _ => .pure trivial
      · refine .pass typeBound_passes fun bound _ => .pass take_passes fun t _ => ?_
        refine .guard fail_passes fun _ => option_settles hs fun e he => ?_
        refine .pass located_passes fun _ _ => ?_
        exact .bind (parameters_settles n _) fun ps hps => .pure ⟨he, hps⟩

include hs in
theorem functionParts_settles {full : Bool} :
    Settles ([.return] :: g) (functionParts sub turns full) fun p =>
      parametersPlaced Loose p.1 ∧ p.2.2.Placed Loose [.return] := by
  refine .pass sees_passes fun b _ => ?_
  split
  · exact .bind (hs _ _ ([.return] :: g)) fun e he => .pure ⟨trivial, he⟩
  · refine .pass sees_passes fun b _ => ?_
    split
    · refine .pass next_passes fun t _ => .pass located_passes fun location _ => ?_
      refine .bind (switchOn_settles hs trivial) fun e he => ?_
      refine .bind (.modifyScopes (V := fun _ => True) trivial (registers_declare _)) fun _ _ => ?_
      exact .pure ⟨⟨trivial, trivial⟩, he⟩
    · refine .pass expect_passes fun _ _ => .bind (parameters_settles hs turns []) fun p hp => ?_
      refine .pass expect_passes fun _ _ => .bind (.modifyScopes (V := fun _ => True) trivial
        (registers_declareAll _)) fun _ _ => ?_
      exact .bind (hs _ _ ([.return] :: g)) fun e he => .pure ⟨hp, he⟩

include hs in
theorem function_settles {full : Bool} :
    Settles g (function sub turns full) (FunctionExpr.Placed Loose) :=
  .bind (.inFunction (functionParts_settles hs)) fun _ hp => .pure hp

include hs in
theorem declaration_settles (g : List (List Register)) : Settles g (declaration sub turns) fun d =>
    optionPlaced Loose (visible g) d.initial := by
  refine .pass typeBound_passes fun bound _ => .pass take_passes fun t _ => ?_
  have short : Passes (pure (bound == some [.function])
      <&&> (sees .punctuation "[" <||> sees .keyword "switch")) fun _ => True := by
    refine .bind (.pure (V := fun _ => True) trivial) fun b _ => ?_
    cases b with
    | false => exact .pure trivial
    | true =>
      refine .bind sees_passes fun b _ => ?_
      cases b with
      | false => exact sees_passes
      | true => exact .pure trivial
  refine .pass short fun _ _ => .pass located_passes fun location _ => ?_
  have declared : ∀ initial : Option (Expr Unit), optionPlaced Loose (visible g) initial →
      Settles g (do
        if (← get).scopes.declaresHere t.content then failAt t (.variableRepeated t.content)
        modifyScopes (·.declare t.content)
        return (⟨t.content, bound, initial, location⟩ : Declaration Unit)) fun d =>
          optionPlaced Loose (visible g) d.initial := by
    intro initial hi
    refine .get_bind fun r _ => .guard fail_passes fun _ => ?_
    exact .bind (.modifyScopes (V := fun _ => True) trivial (registers_declare _))
      fun _ _ => .pure hi
  refine .pass accept_passes fun b _ => ?_
  split
  · exact .bind (some_settles hs) declared
  · split
    · exact .bind (function_settles hs) fun f hf => declared (some _) hf
    · exact declared none trivial

include hs in
theorem declarations_settles : Settles g (declarations sub turns) fun s =>
    s.shape.Placed Loose (visible g) := by
  refine .pass expect_passes fun word _ => .pass accept_passes fun b _ => ?_
  have row : ∀ ds : List (Declaration Unit),
      (∀ d ∈ ds, optionPlaced Loose (visible g) d.initial) →
        Settles g (do return (⟨.declare ds, ← located word⟩ : Statement Unit)) fun s =>
          s.shape.Placed Loose (visible g) :=
    fun ds hds => .pass located_passes fun _ _ => .pure (declarationsPlaced_iff.mpr hds)
  split
  · refine .bind (.upTo (declaration_settles hs) turns) fun ds hds => ?_
    exact .guard unexpected_passes fun _ => .pass next_passes fun _ _ => row ds hds
  · refine .bind (declaration_settles hs g) fun d hd => row [d] ?_
    exact fun _ hm => List.mem_singleton.mp hm ▸ hd

include hs in
theorem climb_settles {min max : Nat} : ∀ (turns : Nat) {left : Expr Unit},
    left.Placed Loose (visible g) →
      Settles g (climb sub turns left min max) (Expr.Placed Loose (visible g))
  | 0, left, hl => by
    rw [climb]
    refine .pass binding?_passes fun b _ => ?_
    split
    · exact .pure hl
    · exact .throw
  | n + 1, left, hl => by
    rw [climb]
    refine .pass binding?_passes fun b _ => ?_
    split
    · exact .pure hl
    · refine .pass next_passes fun _ _ => .pass located_passes fun _ _ => ?_
      split
      · exact .bind (hs _ _ g) fun r hr => climb_settles n ⟨hl, hr⟩
      · refine .bind (hs _ _ g) fun y hy => .pass expect_passes fun _ _ => ?_
        exact .bind (hs _ _ g) fun o ho => climb_settles n ⟨hl, hy, ho⟩

include hs in
theorem loop_settles : Settles g (loop sub location) (Expr.Placed Loose (visible g)) := by
  have hr : visible ([.break] :: g) = .break :: visible g := rfl
  refine .inScope (option_settles hs fun b hb => ?_)
  refine .pass expect_passes fun _ _ => .bind (hs _ _ _) fun c hc => ?_
  rw [hr] at hb hc
  split
  · exact .bind (some_settles hs) fun a ha => .pure ⟨hb, hc, hr ▸ ha⟩
  · exact option_settles hs fun a ha => .pure ⟨hb, hc, hr ▸ ha⟩

include hs in
/-- In a block, a register that some scope has is in visible unless it is loose. -/
theorem registerStatement_settles {register : Register} :
    Settles g (registerStatement sub register) fun s =>
      .yield ∈ visible g → s.shape.Placed Loose (visible g) := by
  refine .pass expect_passes fun _ _ => .get_bind fun r hr => .guard fail_passes fun hn => ?_
  have found : .yield ∈ visible g → register ∈ visible g ∨ Loose register := by
    intro hy
    have hf := LexicalScopes.hasRegister_iff.mp (by simpa using hn)
    rw [hr] at hf
    cases register with
    | yield => exact .inl hy
    | «return» => exact .inl (LexicalScopes.return_mem_visible hf)
    | «break» => exact .inr rfl
  refine .pass located_passes fun _ _ => .pass accept_passes fun b _ => ?_
  split
  · exact .bind (hs _ _ g) fun e he => .pure fun hy => ⟨found hy, he⟩
  · refine .pass peek?_passes fun t _ => ?_
    split
    · exact .bind (hs _ _ g) fun e he => .pure fun hy => ⟨found hy, he⟩
    · exact .pure fun hy => ⟨found hy, trivial⟩

include hs in
theorem statement_settles (g : List (List Register)) : Settles g (statement sub turns) fun s =>
    .yield ∈ visible g → s.shape.Placed Loose (visible g) := by
  refine .pass peek?_passes fun t _ => ?_
  split
  · exact .bind (hs _ _ g) fun _ he => .pure fun _ => he
  · split
    · exact .bind (hs _ _ g) fun _ he => .pass located_passes fun _ _ => .pure fun _ => he
    · split
      · exact (declarations_settles hs).mono fun _ h _ => h
      · exact registerStatement_settles hs
      · exact registerStatement_settles hs
      · exact registerStatement_settles hs
      · exact .pass next_passes fun _ _ => .pass located_passes fun _ _ => .pure fun _ => trivial
      · exact .bind (hs _ _ g) fun _ he => .pass located_passes fun _ _ => .pure fun _ => he

include hs in
theorem block_settles : Settles g (block sub turns location) (Expr.Placed Loose (visible g)) := by
  refine .pass expect_passes fun _ _ => ?_
  refine .bind (.inScope (.upTo (statement_settles hs) turns)) fun ss hss => ?_
  refine .pass expect_passes fun _ _ => .pure (statementsPlaced_iff.mpr fun s hm => ?_)
  exact hss s hm (.head _)

include hs in
theorem keywordAtom_settles {word : String} :
    Settles g (keywordAtom sub turns word location) (Expr.Placed Loose (visible g)) := by
  unfold keywordAtom
  split
  · exact .pass next_passes fun _ _ => .pure trivial
  · exact .pass next_passes fun _ _ => .pure trivial
  · exact .pass next_passes fun _ _ => .pure trivial
  · exact .pass next_passes fun _ _ => .pure trivial
  · exact .pass next_passes fun _ _ => .bind (hs _ _ g) fun _ he => .pure he
  · refine .pass next_passes fun _ _ => .bind (hs _ _ g) fun t ht => ?_
    exact .bind (hs _ _ g) fun a ha => .pure ⟨ht, ha⟩
  · exact .pass next_passes fun _ _ => .pass gotoTargets_passes fun _ _ => .pure trivial
  · exact .pass next_passes fun _ _ => .bind (function_settles hs) fun _ hf => .pure hf
  · exact .pass next_passes fun _ _ => .bind (hs _ _ g) fun e he => switchOn_settles hs he
  · exact loop_settles hs
  · exact loop_settles hs
  · refine .pass next_passes fun _ _ => .bind (hs _ _ g) fun c hc => .bind (hs _ _ g) fun y hy => ?_
    exact option_settles hs fun o ho => .pure ⟨hc, hy, ho⟩
  · exact .fails unexpected_passes

include hs in
theorem punctuationAtom_settles {mark : String} :
    Settles g (punctuationAtom sub turns mark location) (Expr.Placed Loose (visible g)) := by
  unfold punctuationAtom
  split
  · refine .pass next_passes fun _ _ => .bind (hs _ _ g) fun e he => ?_
    exact .pass expect_passes fun _ _ => .pure he
  · exact list_settles hs
  · exact .pass next_passes fun _ _ => .bind (function_settles hs) fun _ hf => .pure hf
  · exact block_settles hs
  · exact .fails unexpected_passes

theorem resolve_settles {name : String} : Settles g (resolve name) fun _ => True := by
  rintro ss hs r hr rfl _ _ ⟨⟩
  exact ⟨hr, trivial, (registers_resolve name r.scopes).trans hs⟩

include hs in
theorem atom_settles : Settles g (atom sub turns) (Expr.Placed Loose (visible g)) := by
  refine .pass peek?_passes fun t _ => ?_
  split
  · exact .fails unexpected_passes
  · refine .pass located_passes fun location _ => ?_
    split
    · exact .pass next_passes fun _ _ => .pure trivial
    · exact .pass next_passes fun _ _ => .pure trivial
    · exact .pass next_passes fun _ _ => .pure trivial
    · refine .pass next_passes fun _ _ => .bind resolve_settles fun b _ => ?_
      exact .guard fail_passes fun _ => .pure trivial
    · refine .pass next_passes fun _ _ => ?_
      split
      · exact .throw
      · exact .bind (hs _ _ g) fun _ he => .pure he
    · exact keywordAtom_settles hs
    · exact punctuationAtom_settles hs

end Sub

theorem operand_settles : ∀ (n min max : Nat) (g : List (List Register)),
    Settles g (operand n min max) (Expr.Placed Loose (visible g))
  | 0, _, _, _ => .throw
  | n + 1, _, _, _ =>
    .bind (atom_settles (operand_settles n)) fun _ he => climb_settles (operand_settles n) n he

end Grammar

/-! ## Documents -/

namespace Logic

open Tale.Parser Grammar

variable {sub : Operand} {g : List (List Register)}

/-- A section as it has to be where there is nothing to be left. -/
def PlacedSection (x : Section Unit) : Prop :=
  optionPlaced Loose [] x.executes ∧ x.next.Placed Loose []

section Sub

variable (hs : ∀ min max g, Settles g (sub min max) (Expr.Placed Loose (visible g)))

include hs in
theorem section_settles {earlier : List String} (hg : visible g = []) :
    Settles g («section» sub earlier) PlacedSection := by
  refine .pass expect_passes fun word _ => .pass take_passes fun t _ => ?_
  refine .guard fail_passes fun _ => ?_
  have rest : ∀ executes : Option (Expr Unit), optionPlaced Loose (visible g) executes →
      Settles g (do
        let _ ← expect .keyword "then"
        let next ← expression sub
        return (⟨t.content, executes, next, [], ← located word⟩ : Section Unit)) PlacedSection := by
    intro executes he
    refine .pass expect_passes fun _ _ => .bind (hs _ _ g) fun e hn => ?_
    exact .pass located_passes fun _ _ => .pure ⟨hg ▸ he, hg ▸ hn⟩
  refine .pass sees_passes fun b _ => ?_
  split
  · exact rest none trivial
  · exact .bind (some_settles hs) rest

include hs in
theorem blocks_settles (hg : visible g = []) : ∀ (turns : Nat) (earlier : List String),
    Settles g (blocks sub turns earlier) fun p =>
      statementsPlaced Loose [] p.1 ∧ ∀ x ∈ p.2, PlacedSection x
  | 0, earlier => by
    refine .pass peek?_passes fun t _ => ?_
    split
    · exact .pure ⟨trivial, fun _ => nofun⟩
    · exact .throw
  | n + 1, earlier => by
    refine .pass peek?_passes fun t _ => ?_
    split
    · exact .pure ⟨trivial, fun _ => nofun⟩
    · refine .pass sees_passes fun b _ => ?_
      split
      · refine .bind (declarations_settles hs) fun s h => ?_
        refine .bind (blocks_settles hg n earlier) fun p hp => .pure ⟨?_, hp.2⟩
        exact statementsPlaced_iff.mpr
          (List.forall_mem_cons.mpr ⟨hg ▸ h, statementsPlaced_iff.mp hp.1⟩)
      · refine .pass sees_passes fun b _ => ?_
        split
        · refine .bind (section_settles hs hg) fun s h => ?_
          refine .bind (blocks_settles hg n _) fun p hp => ?_
          exact .pure ⟨hp.1, List.forall_mem_cons.mpr ⟨h, hp.2⟩⟩
        · exact .fails unexpected_passes

end Sub

theorem logic_settles {room : Nat} (hg : visible g = []) :
    Settles g (logic room) fun l => l.story.Placed Loose := by
  refine .pass version_passes fun v _ => ?_
  refine .bind (blocks_settles (operand_settles room) hg room []) fun p hp => ?_
  refine .get_bind fun r _ => .pass (forIn_passes (fun t => ?_) _) fun _ _ => .pure hp
  split
  · exact .throw
  · exact .pure trivial

theorem parse_placed {source : String} {mapped : Bool} {l : Logic}
    (h : Logic.parse source mapped = .ok l) : l.story.Placed Loose :=
  of_parse (fun _ => (logic_settles rfl .initial rfl).mono fun _ _ hl => hl.1) h

end Logic

theorem Document.parse_placed {options : Options} {source : String} {story : Story Unit}
    (h : Document.parse options source = .ok story) : story.Placed Loose := by
  obtain ⟨l, hl, h⟩ := ok_of_bind h
  obtain ⟨sections, ha, h⟩ := ok_of_bind h
  cases h
  have hp := Logic.parse_placed hl
  exact ⟨hp.1, attachAll_forall (P := Logic.PlacedSection) (fun _ _ _ h => h) ha hp.2⟩

end Tale
