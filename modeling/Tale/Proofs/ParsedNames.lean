import Tale.Proofs.Sight

/-!
# The names of parsed trees

Whatever the grammar reads, it looks up just the free names of the tree, in their order, and finds
them all in sight; each function of the tree is captured.
-/

namespace Tale

variable {α β : Type}

/-! ## Tokens -/

namespace Parser

theorem fail_passes {V : α → Prop} {cause : SourceError.Cause} {location : Option Location} :
    Passes (fail cause location : Parser α) V :=
  .throw

theorem peek?_passes : Passes peek? fun t => ∀ t' ∈ t, t'.Named :=
  .get_bind fun _ hr => .pure fun _ ht => hr _ (List.mem_of_mem_head? ht)

theorem endLocation_passes : Passes endLocation fun _ => True :=
  .get_bind fun _ _ => .pure trivial

theorem unexpected_passes {V : α → Prop} {expected : String} :
    Passes (unexpected expected : Parser α) V := by
  refine .bind peek?_passes fun t _ => ?_
  split
  · exact fail_passes
  · exact .bind endLocation_passes fun _ _ => fail_passes

theorem next_passes : Passes next Token.Named := by
  intro ss
  refine .get_bind fun r hr hs => ?_
  split
  · exact .pass endLocation_passes fun _ _ => .throw
  · rename_i t ht
    split
    · exact .throw
    · rintro r' hr' hs' _ _ ⟨⟩
      exact ⟨fun _ => nofun, hr t (by simp [ht]), hs⟩
  · rename_i t ts _ ht
    rintro r' hr' hs' _ _ ⟨⟩
    exact ⟨fun t' h => hr t' (by simp [ht, h]), hr t (by simp [ht]), hs⟩

theorem sees_passes {kind : TokenKind} {content : String} :
    Passes (sees kind content) fun _ => True :=
  .bind peek?_passes fun _ _ => .pure trivial

theorem take_passes {kind : TokenKind} : Passes (take kind) Token.Named := by
  refine .bind peek?_passes fun _ _ => ?_
  split
  · exact next_passes
  · exact unexpected_passes

theorem expect_passes {kind : TokenKind} {content : String} :
    Passes (expect kind content) Token.Named := by
  refine .bind sees_passes fun _ _ => ?_
  split
  · exact next_passes
  · exact unexpected_passes

theorem accept_passes {kind : TokenKind} {content : String} :
    Passes (accept kind content) fun _ => True := by
  refine .bind sees_passes fun _ _ => ?_
  split
  · exact .bind next_passes fun _ _ => .pure trivial
  · exact .pure trivial

theorem located_passes {t : Token} : Passes (located t) fun _ => True :=
  .get_bind fun _ _ => .pure trivial

/-- Items that hold together as `J` says. -/
theorem repeatWhile_reads {more : Parser Bool} {item : Parser α}
    {J : LexicalScopes → List α → LexicalScopes → Prop} (hm : Passes more fun _ => True)
    (hnil : ∀ ss, J ss [] ss)
    (hi : ∀ ss, Reads ss item fun a ss₁ => ∀ as ss₂, J ss₁ as ss₂ → J ss (a :: as) ss₂) :
    ∀ (turns : Nat) (ss : LexicalScopes), Reads ss (repeatWhile more item turns) (J ss)
  | 0, ss => by
    refine .pass hm fun b _ => ?_
    split
    · exact .pure (hnil ss)
    · exact .throw
  | n + 1, ss => by
    refine .pass hm fun b _ => ?_
    split
    · exact .pure (hnil ss)
    · refine .bind (hi ss) fun a ss₁ ha => ?_
      exact .bind (repeatWhile_reads hm hnil hi n ss₁) fun as ss₂ has => .pure (ha as ss₂ has)

theorem upTo_reads {close : String} {item : Parser α}
    {J : LexicalScopes → List α → LexicalScopes → Prop} (hnil : ∀ ss, J ss [] ss)
    (hi : ∀ ss, Reads ss item fun a ss₁ => ∀ as ss₂, J ss₁ as ss₂ → J ss (a :: as) ss₂)
    (turns : Nat) (ss : LexicalScopes) : Reads ss (upTo close item turns) (J ss) :=
  repeatWhile_reads (.bind sees_passes fun _ _ => .pure trivial) hnil hi turns ss

theorem repeatWhile_passes {more : Parser Bool} {item : Parser α}
    (hm : Passes more fun _ => True) (hi : Passes item fun _ => True) (turns : Nat) :
    Passes (repeatWhile more item turns) fun _ => True := by
  refine repeatWhile_reads (J := fun ss _ ss' => True ∧ ss' = ss) hm (fun _ => ⟨trivial, rfl⟩)
    (fun ss => ?_) turns
  exact .of_passes hi fun _ _ _ _ h => h

end Parser

/-! ## Expressions -/

/-- A parser that looks up the free names of what it reads. -/
def Uses (p : Parser α) (free : α → List String) (captured : α → Prop) : Prop :=
  ∀ ss, Reads ss p fun a ss' => captured a ∧ Traced ss (free a) [] ss'

namespace Grammar

open Tale.Parser

variable {sub : Operand} {turns : Nat} {ss : LexicalScopes} {location : Option Location}

theorem typeBound_passes : Passes (typeBound turns) fun _ => True :=
  .bind (repeatWhile_passes (.bind peek?_passes fun _ _ => .pure trivial)
    (.bind next_passes fun _ _ => .pure trivial) turns) fun _ _ => .pure trivial

theorem sectionName_passes : Passes sectionName fun _ => True := by
  refine .bind take_passes fun t _ => .bind (V := fun _ => True) ?_ fun _ _ => .pure trivial
  rintro ss r hr rfl _ _ ⟨⟩
  exact ⟨hr, trivial, rfl⟩

theorem gotoTargets_passes : Passes (gotoTargets turns) fun _ => True := by
  refine .bind accept_passes fun _ _ => ?_
  split
  · exact .bind (repeatWhile_passes (.bind sees_passes fun _ _ => .pure trivial)
      sectionName_passes turns) fun _ _ => .bind next_passes fun _ _ => .pure trivial
  · exact .bind sectionName_passes fun _ _ => .pure trivial

section Sub

variable (hs : ∀ min max, Uses (sub min max) Expr.free Expr.Captured)

include hs in
theorem some_uses : Uses (some <$> expression sub) freeInOption optionCaptured :=
  fun ss => .map (hs _ _ ss) fun _ _ he => he

include hs in
/-- An expression that may be missing. -/
theorem option_reads {kind : TokenKind} {content : String} {k : Option (Expr Unit) → Parser α}
    {Q : α → LexicalScopes → Prop} (hk : ∀ e ss', optionCaptured e →
      Traced ss (freeInOption e) [] ss' → Reads ss' (k e) Q) :
    Reads ss (do
      if ← accept kind content then
        let e ← some <$> expression sub
        k e
      else
        let e ← pure none
        k e) Q := by
  refine .pass accept_passes fun b _ => ?_
  split
  · exact .bind (some_uses hs ss) fun e ss' he => hk e ss' he.1 he.2
  · exact hk none ss trivial (.refl ss)

include hs in
theorem element_uses :
    Uses (element sub) (fun e => freeInElements [e]) fun e => elementsCaptured [e] := by
  intro ss
  refine .pass sees_passes fun b _ => ?_
  split
  · refine .pass next_passes fun t _ => .bind (hs _ _ ss) fun e ss' he => ?_
    exact .pass located_passes fun _ _ => .pure ⟨⟨he.1, trivial⟩, he.2.trans (.refl ss')⟩
  · exact .bind (hs _ _ ss) fun e ss' he => .pure ⟨⟨he.1, trivial⟩, he.2.trans (.refl ss')⟩

theorem freeInElements_cons (e : Element Unit) (es : List (Element Unit)) :
    freeInElements (e :: es) = freeInElements [e] ++ freeInElements es := by
  cases e <;> simp [freeInElements]

theorem elementsCaptured_cons {e : Element Unit} {es : List (Element Unit)} :
    elementsCaptured (e :: es) ↔ elementsCaptured [e] ∧ elementsCaptured es := by
  cases e <;> simp [elementsCaptured]

include hs in
theorem list_uses : Uses (list sub turns) Expr.free Expr.Captured := by
  intro ss
  refine .pass expect_passes fun _ _ => .bind (upTo_reads
    (J := fun ss es ss' => elementsCaptured es ∧ Traced ss (freeInElements es) [] ss')
    (fun ss => ⟨trivial, .refl ss⟩) (fun ss => ?_) turns ss) fun es ss' hes => ?_
  · refine (element_uses hs ss).mono fun e ss₁ he es ss₂ hes => ?_
    exact ⟨elementsCaptured_cons.mpr ⟨he.1, hes.1⟩, freeInElements_cons e es ▸ he.2.trans hes.2⟩
  · exact .pass expect_passes fun _ _ => .pass located_passes fun _ _ => .pure hes

include hs in
theorem switchCases_uses : ∀ turns, Uses (switchCases sub turns)
    (fun p => freeInCases p.1 ++ freeInOption p.2)
    fun p => casesCaptured p.1 ∧ optionCaptured p.2
  | 0, ss => by
    refine .pass sees_passes fun b _ => ?_
    split
    · exact .pure ⟨⟨trivial, trivial⟩, .refl ss⟩
    · exact .throw
  | n + 1, ss => by
    refine .pass sees_passes fun b _ => ?_
    split
    · exact .pure ⟨⟨trivial, trivial⟩, .refl ss⟩
    · refine .bind (hs _ _ ss) fun p ss₁ hp => .pass sees_passes fun b _ => ?_
      split
      · exact .pure ⟨⟨trivial, hp.1⟩, hp.2⟩
      · refine .bind (hs _ _ ss₁) fun r ss₂ hr => ?_
        refine .bind (switchCases_uses n ss₂) fun cs ss₃ hcs => .pure ?_
        refine ⟨⟨⟨hp.1, hr.1, hcs.1.1⟩, hcs.1.2⟩, ?_⟩
        simpa [freeInCases] using hp.2.trans (hr.2.trans hcs.2)

include hs in
theorem switchOn_reads {subject : Expr Unit} : Reads ss (switchOn sub turns subject location)
    fun e ss' => ∃ cs d, e = ⟨.switch subject cs d, location⟩ ∧ casesCaptured cs
      ∧ optionCaptured d ∧ Traced ss (freeInCases cs ++ freeInOption d) [] ss' := by
  refine .pass expect_passes fun _ _ => .bind (switchCases_uses hs turns ss) fun p ss' hp => ?_
  exact .pass expect_passes fun _ _ => .pure ⟨p.1, p.2, rfl, hp.1.1, hp.1.2, hp.2⟩

include hs in
theorem parameters_uses : ∀ turns used, Uses (parameters sub turns used)
    (fun p => freeInParameters p.1) fun p => parametersCaptured p.1
  | 0, used, ss => by
    refine .pass sees_passes fun b _ => ?_
    split
    · exact .pure ⟨trivial, .refl ss⟩
    · refine .pass accept_passes fun b _ => ?_
      split
      · exact .pass take_passes fun t _ => .guard fail_passes fun _ => .pure ⟨trivial, .refl ss⟩
      · exact .throw
  | n + 1, used, ss => by
    refine .pass sees_passes fun b _ => ?_
    split
    · exact .pure ⟨trivial, .refl ss⟩
    · refine .pass accept_passes fun b _ => ?_
      split
      · exact .pass take_passes fun t _ => .guard fail_passes fun _ => .pure ⟨trivial, .refl ss⟩
      · refine .pass typeBound_passes fun bound _ => .pass take_passes fun t _ => ?_
        refine .guard fail_passes fun _ => option_reads hs fun e ss₁ hc he => ?_
        refine .pass located_passes fun _ _ => ?_
        refine .bind (parameters_uses n _ ss₁) fun ps ss₂ hps => .pure ?_
        exact ⟨⟨hc, hps.1⟩, he.trans hps.2⟩

theorem removeAll_eq_self {xs : List String} {x : String} (h : x ∉ xs) : xs.removeAll [x] = xs := by
  refine List.filter_eq_self.mpr fun y hy => ?_
  have : y ≠ x := fun hyx => h (hyx ▸ hy)
  simpa using this

include hs in
theorem functionParts_reads {full : Bool} : Reads ss (functionParts sub turns full)
    fun p ss' => parametersCaptured p.1 ∧ p.2.2.Captured
      ∧ ∃ ns, Traced ss (FunctionExpr.free ⟨(), p.1, p.2.1, [], p.2.2⟩) ns ss' := by
  refine .pass sees_passes fun b _ => ?_
  split
  · refine .bind (hs _ _ ss) fun e ss₁ he => .pure ⟨trivial, he.1, [], ?_⟩
    simpa [FunctionExpr.free, freeInParameters] using he.2
  · refine .pass sees_passes fun b _ => ?_
    split
    · refine .pass next_passes fun t _ => .pass located_passes fun location _ => ?_
      refine .bind (switchOn_reads hs) fun e ss₁ he => ?_
      obtain ⟨cs, d, rfl, hc, hd, ht⟩ := he
      refine .bind (.modifyScopes (Q := fun _ ss' => Traced ss₁ [] [switchName] ss')
        (.declared [switchName] ss₁)) fun _ ss₂ hd' => .pure ?_
      refine ⟨⟨trivial, trivial⟩, ⟨trivial, hc, hd⟩, [] ++ [switchName], ?_⟩
      have hx : (switchName :: (freeInCases cs ++ freeInOption d)).removeAll [switchName]
          = freeInCases cs ++ freeInOption d := by
        rw [List.cons_removeAll, if_neg (by simp)]
        exact removeAll_eq_self ht.written
      simpa [FunctionExpr.free, freeInParameters, freeInOption, Expr.free, Shape.free, hx]
        using ht.bind hd'
    · refine .pass expect_passes fun _ _ => ?_
      refine .bind (parameters_uses hs turns [] ss) fun p ss₁ hp => ?_
      refine .pass expect_passes fun _ _ => .bind (.modifyScopes
        (Q := fun _ ss' => Traced ss₁ [] (p.1.map (·.name) ++ p.2.toList) ss')
        (.declared _ ss₁)) fun _ ss₂ hd => .bind (hs _ _ ss₂) fun e ss₃ he => .pure ?_
      refine ⟨hp.1, he.1, [] ++ ((p.1.map (·.name) ++ p.2.toList) ++ []), ?_⟩
      simpa [FunctionExpr.free] using hp.2.bind (hd.bind he.2)

include hs in
theorem function_uses {full : Bool} :
    Uses (function sub turns full) FunctionExpr.free FunctionExpr.Captured := by
  intro ss
  refine .bind (Q := fun p ss' =>
    FunctionExpr.Captured ⟨(), p.1.1, p.1.2.1, p.2, p.1.2.2⟩
      ∧ Traced ss (FunctionExpr.free ⟨(), p.1.1, p.1.2.1, p.2, p.1.2.2⟩) [] ss') ?_
    fun _ _ hp => .pure hp
  refine .bind (.modifyScopes (Q := fun _ ss' => ss' = ss.enterFunction) rfl) ?_
  rintro _ _ rfl
  refine .bind (functionParts_reads hs) fun p ss₁ hp => ?_
  rcases hp with ⟨hps, hb, ns, ht⟩
  refine .get_bind fun r _ hr => .bind (.modifyScopes (Q := fun _ ss' => ss' = ss₁.exit) rfl) ?_
  rintro _ _ rfl
  refine .pure ⟨⟨?_, hps, hb⟩, ht.exit rfl⟩
  rw [hr]
  exact ht.captures rfl rfl

include hs in
/-- What is declared can be used by what is declared after it. -/
theorem declaration_reads : Reads ss (declaration sub turns) fun d ss' =>
    optionCaptured d.initial ∧ Traced ss (freeInOption d.initial) [d.name] ss' := by
  refine .pass typeBound_passes fun bound _ => .pass take_passes fun t _ => ?_
  have short : Passes (pure (bound == some [.function])
      <&&> (sees .punctuation "[" <||> sees .keyword "switch")) fun _ => True := by
    refine .bind (.pure (V := fun _ => True) trivial) fun b _ => ?_
    cases b with
    | false => exact .pure trivial
    | true =>
      refine .bind sees_passes fun b _ => ?_
      cases b with
      | false => exact sees_passes
      | true => exact .pure trivial
  refine .pass short fun _ _ => .pass located_passes fun location _ => ?_
  have declared : ∀ (initial : Option (Expr Unit)) (ss₁ : LexicalScopes), optionCaptured initial →
      Traced ss (freeInOption initial) [] ss₁ → Reads ss₁ (do
        if (← get).scopes.declaresHere t.content then failAt t (.variableRepeated t.content)
        modifyScopes (·.declare t.content)
        return (⟨t.content, bound, initial, location⟩ : Declaration Unit)) fun d ss' =>
          optionCaptured d.initial ∧ Traced ss (freeInOption d.initial) [d.name] ss' := by
    intro initial ss₁ hc ht
    refine .get_bind fun r _ _ => .guard fail_passes fun _ => ?_
    refine .bind (.modifyScopes (Q := fun _ ss' => Traced ss₁ [] [t.content] ss')
      (.declared [t.content] ss₁)) fun _ ss₂ hd => ?_
    refine .pure ⟨hc, ?_⟩
    simpa using ht.bind hd
  refine .pass accept_passes fun b _ => ?_
  split
  · exact .bind (some_uses hs ss) fun e ss₁ he => declared e ss₁ he.1 he.2
  · split
    · exact .bind (function_uses hs ss) fun f ss₁ hf => declared (some _) ss₁ hf.1 hf.2
    · exact declared none ss trivial (.refl ss)

include hs in
theorem declarations_reads : Reads ss (declarations sub turns) fun s ss' => s.shape.Captured
    ∧ Traced ss s.shape.free s.shape.names ss' := by
  refine .pass expect_passes fun word _ => .pass accept_passes fun b _ => ?_
  have row : ∀ (ds : List (Declaration Unit)) (ss₁ : LexicalScopes), declarationsCaptured ds →
      Traced ss (freeInDeclarations ds) (ds.map (·.name)) ss₁ →
        Reads ss₁ (do return (⟨.declare ds, ← located word⟩ : Statement Unit)) fun s ss' =>
          s.shape.Captured ∧ Traced ss s.shape.free s.shape.names ss' :=
    fun ds ss₁ hc ht => .pass located_passes fun _ _ => .pure ⟨hc, ht⟩
  split
  · refine .bind (upTo_reads (J := fun ss ds ss' => declarationsCaptured ds
      ∧ Traced ss (freeInDeclarations ds) (ds.map (·.name)) ss')
      (fun ss => ⟨trivial, .refl ss⟩) (fun ss => ?_) turns ss) fun ds ss₁ hds => ?_
    · refine (declaration_reads hs).mono fun d ss₁ hd ds ss₂ hds => ?_
      rcases d with ⟨name, bound, initial, location⟩
      exact ⟨⟨hd.1, hds.1⟩, hd.2.bind hds.2⟩
    · refine .guard unexpected_passes fun _ => .pass next_passes fun _ _ => ?_
      exact row ds ss₁ hds.1 hds.2
  · refine .bind (declaration_reads hs) fun d ss₁ hd => row [d] ss₁ ?_ ?_
    · rcases d with ⟨name, bound, initial, location⟩
      exact ⟨hd.1, trivial⟩
    · rcases d with ⟨name, bound, initial, location⟩
      simpa [freeInDeclarations] using hd.2

theorem binding?_passes {min max : Nat} : Passes (binding? min max) fun _ => True := by
  refine .bind peek?_passes fun t _ => ?_
  split
  · exact .pure trivial
  · split
    · exact .pure trivial
    · split
      · exact .pure trivial
      · split
        · exact .pure trivial
        · exact .pure trivial

include hs in
theorem climb_reads {ss₀ : LexicalScopes} {min max : Nat} :
    ∀ (turns : Nat) {left : Expr Unit} {ss : LexicalScopes}, left.Captured →
      Traced ss₀ left.free [] ss → Reads ss (climb sub turns left min max) fun e ss' =>
        e.Captured ∧ Traced ss₀ e.free [] ss'
  | 0, left, ss, hl, ht => by
    rw [climb]
    refine .pass binding?_passes fun b _ => ?_
    split
    · exact .pure ⟨hl, ht⟩
    · exact .throw
  | n + 1, left, ss, hl, ht => by
    rw [climb]
    refine .pass binding?_passes fun b _ => ?_
    split
    · exact .pure ⟨hl, ht⟩
    · refine .pass next_passes fun _ _ => .pass located_passes fun _ _ => ?_
      split
      · exact .bind (hs _ _ ss) fun r ss₁ hr => climb_reads n ⟨hl, hr.1⟩ (ht.trans hr.2)
      · refine .bind (hs _ _ ss) fun y ss₁ hy => .pass expect_passes fun _ _ => ?_
        exact .bind (hs _ _ ss₁) fun o ss₂ ho =>
          climb_reads n ⟨hl, hy.1, ho.1⟩ (ht.trans (hy.2.trans ho.2))

/-- Nothing that is declared inside a scope is seen outside of it. -/
theorem inScope_uses {p : Parser α} {register : Register} (free : α → List String)
    (captured : α → Prop)
    (h : ∀ ss, Reads ss p fun a ss' => captured a ∧ ∃ ns, Traced ss (free a) ns ss') :
    Uses (inScope register p) free captured := by
  intro ss
  refine .bind (.modifyScopes (Q := fun _ ss' => ss' = ss.enter.addRegister register) rfl) ?_
  rintro _ _ rfl
  refine .bind (h _) fun a ss₁ ha => ?_
  rcases ha with ⟨hc, ns, ht⟩
  refine .bind (.modifyScopes (Q := fun _ ss' => ss' = ss₁.exit) rfl) ?_
  rintro _ _ rfl
  exact .pure ⟨hc, ht.exit rfl⟩

include hs in
theorem loop_uses : Uses (loop sub location) Expr.free Expr.Captured := by
  refine inScope_uses _ _ fun ss => option_reads hs fun b ss₁ hb htb => ?_
  refine .pass expect_passes fun _ _ => .bind (hs _ _ ss₁) fun c ss₂ hc => ?_
  split
  · refine .bind (some_uses hs ss₂) fun a ss₃ ha => .pure ?_
    exact ⟨⟨hb, hc.1, ha.1⟩, [], htb.trans (hc.2.trans ha.2)⟩
  · refine option_reads hs fun a ss₃ ha hta => .pure ?_
    exact ⟨⟨hb, hc.1, ha⟩, [], htb.trans (hc.2.trans hta)⟩

include hs in
theorem registerStatement_reads {register : Register} :
    Reads ss (registerStatement sub register) fun s ss' => s.shape.Captured
      ∧ Traced ss s.shape.free s.shape.names ss' := by
  refine .pass expect_passes fun _ _ => .get_bind fun _ _ _ => .guard fail_passes fun _ => ?_
  refine .pass located_passes fun _ _ => .pass accept_passes fun b _ => ?_
  split
  · exact .bind (hs _ _ ss) fun _ _ he => .pure he
  · refine .pass peek?_passes fun t _ => ?_
    split
    · exact .bind (hs _ _ ss) fun _ _ he => .pure he
    · exact .pure ⟨trivial, .refl ss⟩

include hs in
theorem statement_reads : Reads ss (statement sub turns) fun s ss' => s.shape.Captured
    ∧ Traced ss s.shape.free s.shape.names ss' := by
  refine .pass peek?_passes fun t _ => ?_
  split
  · exact .bind (hs _ _ ss) fun _ _ he => .pure he
  · split
    · exact .bind (hs _ _ ss) fun _ _ he => .pass located_passes fun _ _ => .pure he
    · split
      · exact declarations_reads hs
      · exact registerStatement_reads hs
      · exact registerStatement_reads hs
      · exact registerStatement_reads hs
      · exact .pass next_passes fun _ _ => .pass located_passes fun _ _ => .pure ⟨trivial, .refl ss⟩
      · exact .bind (hs _ _ ss) fun _ _ he => .pass located_passes fun _ _ => .pure he

include hs in
theorem block_uses : Uses (block sub turns location) Expr.free Expr.Captured := by
  intro ss
  refine .pass expect_passes fun _ _ => .bind (inScope_uses freeInStatements
    statementsCaptured (fun ss => ?_) ss) fun statements ss₁ h =>
      .pass expect_passes fun _ _ => .pure h
  refine upTo_reads (J := fun ss sts ss' => statementsCaptured sts
    ∧ ∃ ns, Traced ss (freeInStatements sts) ns ss') (fun ss => ⟨trivial, [], .refl ss⟩)
    (fun ss => ?_) turns ss
  refine (statement_reads hs).mono fun s ss₁ h sts ss₂ h' => ?_
  rcases h' with ⟨hc, ns, ht⟩
  rcases s with ⟨shape, location⟩
  exact ⟨⟨h.1, hc⟩, _, h.2.bind ht⟩

include hs in
theorem keywordAtom_uses {word : String} :
    Uses (keywordAtom sub turns word location) Expr.free Expr.Captured := by
  intro ss
  unfold keywordAtom
  split
  · exact .pass next_passes fun _ _ => .pure ⟨trivial, .refl ss⟩
  · exact .pass next_passes fun _ _ => .pure ⟨trivial, .refl ss⟩
  · exact .pass next_passes fun _ _ => .pure ⟨trivial, .refl ss⟩
  · exact .pass next_passes fun _ _ => .pure ⟨trivial, .refl ss⟩
  · exact .pass next_passes fun _ _ => .bind (hs _ _ ss) fun _ _ he => .pure he
  · refine .pass next_passes fun _ _ => .bind (hs _ _ ss) fun t ss₁ ht => ?_
    exact .bind (hs _ _ ss₁) fun a _ ha => .pure ⟨⟨ht.1, ha.1⟩, ht.2.trans ha.2⟩
  · exact .pass next_passes fun _ _ => .pass gotoTargets_passes fun _ _ => .pure ⟨trivial, .refl ss⟩
  · exact .pass next_passes fun _ _ => .bind (function_uses hs ss) fun _ _ hf => .pure hf
  · refine .pass next_passes fun _ _ => .bind (hs _ _ ss) fun e ss₁ he => ?_
    refine (switchOn_reads hs).mono fun e' ss₂ he' => ?_
    rcases he' with ⟨cs, d, rfl, hc, hd, ht⟩
    exact ⟨⟨he.1, hc, hd⟩, he.2.trans ht⟩
  · exact loop_uses hs ss
  · exact loop_uses hs ss
  · refine .pass next_passes fun _ _ => .bind (hs _ _ ss) fun c ss₁ hc => ?_
    refine .bind (hs _ _ ss₁) fun y ss₂ hy => option_reads hs fun o ss₃ ho hto => .pure ?_
    exact ⟨⟨hc.1, hy.1, ho⟩, hc.2.trans (hy.2.trans hto)⟩
  · exact .of_passes (unexpected_passes (V := fun _ => False)) fun _ h => h.elim

include hs in
theorem punctuationAtom_uses {mark : String} :
    Uses (punctuationAtom sub turns mark location) Expr.free Expr.Captured := by
  intro ss
  unfold punctuationAtom
  split
  · refine .pass next_passes fun _ _ => .bind (hs _ _ ss) fun e ss₁ he => ?_
    exact .pass expect_passes fun _ _ => .pure he
  · exact list_uses hs ss
  · exact .pass next_passes fun _ _ => .bind (function_uses hs ss) fun _ _ hf => .pure hf
  · exact block_uses hs ss
  · exact .of_passes (unexpected_passes (V := fun _ => False)) fun _ h => h.elim

theorem resolve_reads {name : String} (h : name ≠ switchName) :
    Reads ss (resolve name) fun found ss' => found = true → Traced ss [name] [] ss' := by
  rintro r hr rfl _ _ ⟨⟩
  refine ⟨hr, fun hf => ⟨?_, ?_, rfl⟩⟩
  · exact List.cons_subset.mpr ⟨LexicalScopes.resolve_found hf, List.nil_subset _⟩
  · simpa using h.symm

include hs in
theorem atom_uses : Uses (atom sub turns) Expr.free Expr.Captured := by
  intro ss
  refine .pass peek?_passes fun t ht => ?_
  split
  · exact .of_passes (unexpected_passes (V := fun _ => False)) fun _ h => h.elim
  · rename_i t
    refine .pass located_passes fun location _ => ?_
    split
    · exact .pass next_passes fun _ _ => .pure ⟨trivial, .refl ss⟩
    · exact .pass next_passes fun _ _ => .pure ⟨trivial, .refl ss⟩
    · exact .pass next_passes fun _ _ => .pure ⟨trivial, .refl ss⟩
    · refine .pass next_passes fun _ _ => .bind (resolve_reads (ht t rfl ‹_›)) fun b ss₁ hb => ?_
      exact .guard fail_passes fun hn => .pure ⟨trivial, hb (by simpa using hn)⟩
    · refine .pass next_passes fun _ _ => ?_
      split
      · exact .throw
      · exact .bind (hs _ _ ss) fun _ _ he => .pure he
    · exact keywordAtom_uses hs ss
    · exact punctuationAtom_uses hs ss

end Sub

/-- All names an expression needs were in sight where it was read, and each function keeps those
of its own. -/
theorem operand_uses : ∀ (n min max : Nat), Uses (operand n min max) Expr.free Expr.Captured
  | 0, _, _, _ => .throw
  | n + 1, _, _, ss =>
    .bind (atom_uses (operand_uses n) ss) fun _ _ he => climb_reads (operand_uses n) n he.1 he.2

end Grammar

end Tale
