import Tale.Proofs.Leads

/-!
# Reading what is written

Each rule of the grammar reads what is written for it, and stops in front of what comes next. An
expression in parentheses can be followed by anything but an operator between operands, and inside
another expression there is none that is not in parentheses. So it is enough that a rule reads its
own words and that the reader one level down is ready for shorter expressions (`Ready`).
-/

namespace Tale

open Words Tale.Parser

variable {α β : Type}

/-- Whether a word is an operator behind an operand. -/
def Words.binds (w : Word) : Bool :=
  w.1 == .operator && ((BinaryOp.ofSymbol? w.2).isSome || w.2 == "?")

/-- No operator comes next. -/
def Stops (ws : List Word) : Prop :=
  ∀ w ∈ ws.head?, binds w = false

theorem stops_cons {w : Word} {ws : List Word} (h : binds w = false) : Stops (w :: ws) := by
  rintro _ ⟨⟩
  exact h

@[simp]
theorem length_enclosed (ws : List Word) : (enclosed ws).length = ws.length + 2 := by
  simp [enclosed]

@[simp]
theorem length_listed (ws : List Word) : (listed ws).length = ws.length + 2 := by
  simp [listed]

theorem enclosed_append (ws ws' : List Word) :
    enclosed ws ++ ws' = mark "(" :: (ws ++ mark ")" :: ws') := by
  simp [enclosed]

theorem listed_append (ws ws' : List Word) :
    listed ws ++ ws' = mark "[" :: (ws ++ mark "]" :: ws') := by
  simp [listed]

theorem enclosed_head {ws ws' : List Word} {w : Word} (h : mark "(" ≠ w) :
    (enclosed ws ++ ws').head? ≠ some w :=
  fun he => h (Option.some.inj he)

theorem stops_enclosed (ws ws' : List Word) : Stops (enclosed ws ++ ws') :=
  stops_cons rfl

namespace Grammar

variable {targets : List String} {sub : Operand} {n turns : Nat} {P : Levels} {ws rest : List Word}
  {b : Ahead} {V : α → Prop} {U : Expr Unit → Prop}

/-- A reader one level down that reads each legal expression in parentheses of at most `n` words. -/
def Ready (targets : List String) (sub : Operand) (n : Nat) : Prop :=
  ∀ (P : Levels) (e : Expr Unit), e.Legal targets P → (enclosed e.words).length ≤ n →
    ∀ (min max : Nat) (rest : List Word), Stops rest →
      Leads targets ⟨enclosed e.words ++ rest, P⟩ ⟨rest, P⟩ (sub min max) (·.bare = e.bare)

/-! ## Operators -/

theorem binding?_stops {min max : Nat} (h : Stops ws) :
    Leads targets ⟨ws, P⟩ ⟨ws, P⟩ (binding? min max) (· = none) := by
  refine .bind peek?_leads fun t ht => ?_
  rcases t with _ | ⟨kind, content, location⟩
  · exact .pure rfl
  · by_cases hk : kind = .operator
    · have hb := h _ ht.symm
      simp only [Token.word, binds, hk, beq_self_eq_true, Bool.true_and, Bool.or_eq_false_iff,
        Option.isSome_eq_false_iff, Option.isNone_iff_eq_none, beq_eq_false_iff_ne] at hb
      refine .no (not_not_intro hk) ?_
      simp only [hb.1]
      exact .no (fun hc => hb.2 hc.1) (.pure rfl)
    · exact .yes hk (.pure rfl)

theorem climb_stops {left : Expr Unit} {min max : Nat} (h : Stops ws) (hu : U left) :
    Leads targets ⟨ws, P⟩ ⟨ws, P⟩ (climb sub turns left min max) U := by
  rw [climb.eq_def]
  exact .bind (binding?_stops h) fun _ hb => hb ▸ .pure hu

theorem ofSymbol?_symbol (op : BinaryOp) : BinaryOp.ofSymbol? op.symbol = some op := by
  cases op <;> rfl

theorem binding?_binary {op : BinaryOp} {min max : Nat} (h : min < op.precedence) :
    Leads targets ⟨operator op.symbol :: ws, P⟩ ⟨operator op.symbol :: ws, P⟩ (binding? min max)
      (· = some (.binary op)) := by
  refine peeked fun location => .no (not_not_intro rfl) ?_
  simp only [operator, ofSymbol?_symbol, if_pos h]
  exact .pure rfl

theorem binding?_conditional {min max : Nat} (h : min < conditionalPrecedence)
    (h' : conditionalPrecedence ≤ max) :
    Leads targets ⟨operator "?" :: ws, P⟩ ⟨operator "?" :: ws, P⟩ (binding? min max)
      (· = some .conditional) := by
  have hs : BinaryOp.ofSymbol? "?" = none := rfl
  refine peeked fun location => .no (not_not_intro rfl) ?_
  simp only [operator, hs]
  exact .yes ⟨trivial, h, h'⟩ (.pure rfl)

/-! ## Atoms -/

theorem atom_keyword {word : String}
    (h : ∀ location,
      Leads targets ⟨keyword word :: ws, P⟩ b (keywordAtom sub turns word location) U) :
    Leads targets ⟨keyword word :: ws, P⟩ b (atom sub turns) U :=
  peeked fun _ => .bind located_leads fun location _ => h location

theorem atom_mark {word : String}
    (h : ∀ location,
      Leads targets ⟨mark word :: ws, P⟩ b (punctuationAtom sub turns word location) U) :
    Leads targets ⟨mark word :: ws, P⟩ b (atom sub turns) U :=
  peeked fun _ => .bind located_leads fun location _ => h location

/-- An expression in parentheses, if what is between them is read. -/
theorem atom_enclosed {e : Expr Unit}
    (h : ∀ rest, Leads targets ⟨e.words ++ mark ")" :: rest, P⟩ ⟨mark ")" :: rest, P⟩
      (expression sub) U) :
    Leads targets ⟨enclosed e.words ++ ws, P⟩ ⟨ws, P⟩ (atom sub turns) U := by
  rw [enclosed_append]
  refine atom_mark fun location => .bind next_leads fun _ _ => .bind (h ws) fun e he => ?_
  exact .bind expect_leads fun _ _ => .pure he

theorem operand_enclosed {e : Expr Unit} (h : ∀ rest, Leads targets
    ⟨e.words ++ mark ")" :: rest, P⟩ ⟨mark ")" :: rest, P⟩ (expression (operand n)) U)
    {min max : Nat} (hs : Stops ws) :
    Leads targets ⟨enclosed e.words ++ ws, P⟩ ⟨ws, P⟩ (operand (n + 1) min max) U :=
  .bind (atom_enclosed h) fun _ he => climb_stops hs he

theorem number_leads {x : Float} (h : Decimal.isNegative x = false) {m : Decimal.Binary}
    (hm : Decimal.magnitude x = .finite m) (hb : Float.ofBits x.toBits = x) :
    Leads targets ⟨(.number, Decimal.numeral x) :: ws, P⟩ ⟨ws, P⟩ (atom sub turns)
      (·.bare = ⟨.number x, none⟩) := by
  refine peeked fun _ => .bind located_leads fun location _ => .bind next_leads fun _ _ => .pure ?_
  rw [Decimal.numberValue_numeral hm h, hb]
  rfl

theorem string_leads {s : String} : Leads targets ⟨(.string, s) :: ws, P⟩ ⟨ws, P⟩ (atom sub turns)
    (·.bare = ⟨.string s, none⟩) :=
  peeked fun _ => .bind located_leads fun _ _ => .bind next_leads fun _ _ => .pure rfl

theorem tag_leads {s : String} : Leads targets ⟨(.tag, s) :: ws, P⟩ ⟨ws, P⟩ (atom sub turns)
    (·.bare = ⟨.tag s, none⟩) :=
  peeked fun _ => .bind located_leads fun _ _ => .bind next_leads fun _ _ => .pure rfl

theorem reference_leads {name : String} (h : P.Sees name) :
    Leads targets ⟨identifier name :: ws, P⟩ ⟨ws, P⟩ (atom sub turns)
      (·.bare = ⟨.reference name, none⟩) := by
  refine peeked fun _ => .bind located_leads fun _ _ => .bind next_leads fun _ _ => ?_
  refine .bind (resolve_leads h) fun found hf => .no ?_ (.pure rfl)
  simp [hf]

theorem null_leads : Leads targets ⟨keyword "null" :: ws, P⟩ ⟨ws, P⟩ (atom sub turns)
    (·.bare = ⟨.null, none⟩) :=
  atom_keyword fun _ => .bind next_leads fun _ _ => .pure rfl

theorem exit_leads : Leads targets ⟨keyword "exit" :: ws, P⟩ ⟨ws, P⟩ (atom sub turns)
    (·.bare = ⟨.exit, none⟩) :=
  atom_keyword fun _ => .bind next_leads fun _ _ => .pure rfl

theorem boolean_leads {x : Bool} :
    Leads targets ⟨keyword (if x then "true" else "false") :: ws, P⟩ ⟨ws, P⟩ (atom sub turns)
      (·.bare = ⟨.boolean x, none⟩) := by
  cases x
  · exact atom_keyword fun _ => .bind next_leads fun _ _ => .pure rfl
  · exact atom_keyword fun _ => .bind next_leads fun _ _ => .pure rfl

/-! ## Targets -/

theorem sectionName_leads {name : String} (h : name ∈ targets) :
    Leads targets ⟨identifier name :: ws, P⟩ ⟨ws, P⟩ sectionName (· = name) := by
  refine .bind take_leads fun t ht => ?_
  refine .bind (V := fun _ => True) (fun r hr => ?_) fun _ _ => .pure ?_
  · refine ⟨_, _, rfl, ⟨hr.words, hr.ending, hr.levels, fun t' ht' => ?_⟩, trivial⟩
    rcases List.mem_cons.mp ht' with rfl | ht'
    · exact (Prod.mk.inj ht).2 ▸ h
    · exact hr.targets t' ht'
  · exact (Prod.mk.inj ht).2

theorem sectionNames_leads : ∀ {names : List String} {turns : Nat}, names ⊆ targets →
    names.length ≤ turns → Leads targets ⟨names.map identifier ++ mark "]" :: ws, P⟩
      ⟨mark "]" :: ws, P⟩ (upTo "]" sectionName turns) (· = names)
  | [], _, _, _ => upTo_done rfl
  | name :: names, turns + 1, h, ht => by
    rw [List.cons_subset] at h
    refine upTo_more nofun (sectionName_leads h.1) (sectionNames_leads h.2 ?_) ?_
    · exact Nat.le_of_succ_le_succ ht
    · rintro _ _ rfl rfl
      rfl

theorem gotoTargets_leads {names : List String} (h : names ⊆ targets) (ht : names.length ≤ turns) :
    Leads targets ⟨listed (names.map identifier) ++ ws, P⟩ ⟨ws, P⟩ (gotoTargets turns)
      (· = names) := by
  rw [listed_append]
  refine accepted (.yes rfl (.bind (sectionNames_leads h ht) fun _ hn => ?_))
  exact .bind next_leads fun _ _ => .pure hn

theorem goto_leads {names : List String} (h : names ⊆ targets) (ht : names.length ≤ turns) :
    Leads targets ⟨keyword "goto" :: (listed (names.map identifier) ++ ws), P⟩ ⟨ws, P⟩
      (atom sub turns) (·.bare = ⟨.goto names, none⟩) := by
  refine atom_keyword fun _ => .bind next_leads fun _ _ => .bind (gotoTargets_leads h ht) ?_
  rintro _ rfl
  exact .pure rfl

/-! ## Types -/

theorem typeOf?_name (t : ValueType) (location : Location) :
    typeOf? ⟨.keyword, t.name, location⟩ = some t := by
  cases t <;> rfl

theorem types_leads {name : String} : ∀ (ts : List ValueType) {turns : Nat}, ts.length ≤ turns →
    Leads targets ⟨ts.map (fun t => keyword t.name) ++ identifier name :: ws, P⟩
      ⟨identifier name :: ws, P⟩ (repeatWhile (do return (← peek?).any (typeOf? · |>.isSome))
        (do return typeOf? (← next)) turns) (· = ts.map some)
  | [], _, _ => repeatWhile_done (peeked fun _ => .pure rfl) rfl
  | t :: ts, turns + 1, h => by
    refine repeatWhile_more (V := (· = some t)) (peeked fun _ => .pure ?_) ?_
      (types_leads ts (Nat.le_of_succ_le_succ h)) ?_
    · simp only [keyword, Option.any_some, typeOf?_name, Option.isSome_some]
    · refine .bind next_leads fun t' ht => .pure ?_
      obtain ⟨_, _, location⟩ := t'
      obtain ⟨rfl, rfl⟩ := Prod.mk.inj ht
      exact typeOf?_name t location
    · rintro _ _ rfl rfl
      rfl

theorem typeBound_leads {bound : TypeBound} {name : String} (hb : bound ≠ some [])
    (ht : (types bound).length ≤ turns) :
    Leads targets ⟨types bound ++ identifier name :: ws, P⟩ ⟨identifier name :: ws, P⟩
      (typeBound turns) (· = bound) := by
  have row : ∀ ts : List ValueType, (ts.map some).filterMap (fun t => t) = ts := fun ts => by
    rw [List.filterMap_map]
    exact List.filterMap_some
  rcases bound with _ | ts
  · refine .bind (types_leads [] (Nat.zero_le _)) ?_
    rintro _ rfl
    exact .pure rfl
  · rw [types, List.length_map] at ht
    refine .bind (types_leads ts ht) ?_
    rintro _ rfl
    simp only [row]
    refine .pure (if_neg fun he => hb ?_)
    rw [List.isEmpty_iff.mp he]

/-- What comes before the name of something that is declared is no mark and no operator. -/
theorem types_head {bound : TypeBound} {name : String} {w : Word} (hk : w.1 ≠ .keyword)
    (hi : w.1 ≠ .identifier) :
    (types bound ++ identifier name :: ws).head? ≠ some w := by
  rcases bound with _ | _ | ⟨t, ts⟩
  all_goals
    rintro ⟨⟩
    first | exact hi rfl | exact hk rfl

theorem types_stops {bound : TypeBound} {name : String} :
    Stops (types bound ++ identifier name :: ws) := by
  rcases bound with _ | _ | ⟨t, ts⟩ <;> exact stops_cons rfl

/-! ## Rules -/

section Ready

variable (hs : Ready targets sub n)

include hs in
theorem some_leads {e : Expr Unit} (he : e.Legal targets P) (hn : (enclosed e.words).length ≤ n)
    (hr : Stops rest) : Leads targets ⟨enclosed e.words ++ rest, P⟩ ⟨rest, P⟩
      (some <$> expression sub) (bareOption · = some e.bare) :=
  .map (hs P e he hn _ _ rest hr) fun _ h => congrArg some h

include hs in
/-- An expression that may be missing, after a word that is missing with it. -/
theorem option_leads {e : Option (Expr Unit)} {kind : TokenKind} {content : String}
    {k : Option (Expr Unit) → Parser α} (he : optionLegal targets P e)
    (hn : (wordsOfOption [(kind, content)] e).length ≤ n) (hw : rest.head? ≠ some (kind, content))
    (hr : Stops rest) (hk : ∀ x, bareOption x = bareOption e → Leads targets ⟨rest, P⟩ b (k x) V) :
    Leads targets ⟨wordsOfOption [(kind, content)] e ++ rest, P⟩ b (do
      if ← accept kind content then
        let e ← some <$> expression sub
        k e
      else
        let e ← pure none
        k e) V := by
  rcases e with _ | e
  · exact unaccepted hw (.no Bool.false_ne_true (hk none rfl))
  · simp only [wordsOfOption, List.cons_append, List.nil_append, List.length_cons] at hn ⊢
    exact accepted (.yes rfl (.bind (some_leads hs he (Nat.le_of_succ_le hn) hr) hk))

/-! ### Lists -/

theorem elements_cons {x : Element Unit} {es : List (Element Unit)} :
    wordsOfElements (x :: es) = wordsOfElements [x] ++ wordsOfElements es := by
  cases x <;> simp [wordsOfElements]

theorem bareElements_cons {x : Element Unit} {es : List (Element Unit)} :
    bareElements (x :: es) = bareElements [x] ++ bareElements es := by
  cases x <;> rfl

theorem elementsLegal_cons {x : Element Unit} {es : List (Element Unit)} :
    elementsLegal targets P (x :: es)
      ↔ elementsLegal targets P [x] ∧ elementsLegal targets P es := by
  cases x <;> simp [elementsLegal]

theorem elements_stops {es : List (Element Unit)} (h : Stops ws) :
    Stops (wordsOfElements es ++ ws) := by
  rcases es with _ | ⟨_ | _, es⟩
  · exact h
  · exact stops_cons rfl
  · exact stops_cons rfl

include hs in
theorem element_leads {x : Element Unit} (hx : elementsLegal targets P [x])
    (hn : (wordsOfElements [x]).length ≤ n) (hr : Stops rest) :
    Leads targets ⟨wordsOfElements [x] ++ rest, P⟩ ⟨rest, P⟩ (element sub)
      fun y => bareElements [y] = bareElements [x] := by
  cases x with
  | item e =>
    simp only [wordsOfElements, List.append_nil] at hn ⊢
    refine unseen nofun (.no Bool.false_ne_true ?_)
    refine .bind (hs P e hx.1 hn _ _ _ hr) fun y hy => .pure ?_
    simp only [bareElements, hy]
  | spread e location =>
    simp only [wordsOfElements, List.append_nil, List.length_cons] at hn ⊢
    refine seen rfl (.yes rfl (.bind next_leads fun t _ => ?_))
    refine .bind (hs P e hx.1 (Nat.le_of_succ_le hn) _ _ _ hr) fun y hy => ?_
    exact .bind located_leads fun _ _ => .pure (by simp only [bareElements, hy])

include hs in
theorem elements_leads : ∀ {es : List (Element Unit)} {turns : Nat}, elementsLegal targets P es →
    (wordsOfElements es).length ≤ n → es.length ≤ turns →
      Leads targets ⟨wordsOfElements es ++ mark "]" :: ws, P⟩ ⟨mark "]" :: ws, P⟩
        (upTo "]" (element sub) turns) (bareElements · = bareElements es)
  | [], _, _, _, _ => upTo_done rfl
  | x :: es, turns + 1, he, hn, ht => by
    rw [elements_cons, List.length_append] at hn
    rw [elements_cons, List.append_assoc]
    obtain ⟨hx, he⟩ := elementsLegal_cons.mp he
    refine upTo_more ?_ (element_leads hs hx (by omega) (elements_stops (stops_cons rfl)))
      (elements_leads he (by omega) (Nat.le_of_succ_le_succ ht)) fun y ys hy hys => ?_
    · cases x <;> simp [wordsOfElements, enclosed, mark, operator]
    · rw [bareElements_cons, hy, hys, ← bareElements_cons]

theorem length_elements (es : List (Element Unit)) : es.length ≤ (wordsOfElements es).length := by
  induction es with
  | nil => exact Nat.le_refl 0
  | cons x es ih =>
    have hx : 1 ≤ (wordsOfElements [x]).length := by cases x <;> simp [wordsOfElements]
    rw [elements_cons, List.length_append, List.length_cons]
    omega

include hs in
theorem list_leads {es : List (Element Unit)} (he : elementsLegal targets P es)
    (hn : (wordsOfElements es).length ≤ n) :
    Leads targets ⟨listed (wordsOfElements es) ++ ws, P⟩ ⟨ws, P⟩ (atom sub n)
      (·.bare = ⟨.list (bareElements es), none⟩) := by
  have ht := Nat.le_trans (length_elements es) hn
  rw [listed_append]
  refine atom_mark fun _ => .bind expect_leads fun _ _ => .bind (elements_leads hs he hn ht) ?_
  intro ys hy
  refine .bind expect_leads fun _ _ => .bind located_leads fun _ _ => .pure ?_
  simp only [Expr.bare, Shape.bare, hy]

/-! ### Switches -/

include hs in
theorem switchCases_leads {d : Option (Expr Unit)} (hd : optionLegal targets P d)
    (hl : (wordsOfOption [] d).length ≤ n) : ∀ {cs : List (SwitchCase Unit)} {turns : Nat},
      casesLegal targets P cs → (wordsOfCases cs).length ≤ n → cs.length + 1 ≤ turns →
        Leads targets ⟨wordsOfCases cs ++ (wordsOfOption [] d ++ mark "]" :: ws), P⟩
          ⟨mark "]" :: ws, P⟩ (switchCases sub turns) fun p =>
            bareCases p.1 = bareCases cs ∧ bareOption p.2 = bareOption d
  | [], turns + 1, _, _, _ => by
    rw [switchCases]
    rcases d with _ | e
    · exact seen rfl (.yes rfl (.pure ⟨rfl, rfl⟩))
    · simp only [wordsOfOption, List.nil_append] at hl ⊢
      refine unseen (enclosed_head (by decide)) (.no Bool.false_ne_true ?_)
      refine .bind (hs P e hd hl _ _ _ (stops_cons rfl)) fun p hp => ?_
      exact seen rfl (.yes rfl (.pure ⟨rfl, congrArg some hp⟩))
  | ⟨p, r⟩ :: cs, turns + 1, hc, hn, ht => by
    simp only [wordsOfCases, List.length_append, List.append_assoc] at hn ⊢
    have hr : Stops (wordsOfCases cs ++ (wordsOfOption [] d ++ mark "]" :: ws)) := by
      rcases cs with _ | ⟨⟨_, _⟩, _⟩
      · rcases d with _ | _ <;> exact stops_cons rfl
      · exact stops_cons rfl
    rw [switchCases]
    refine unseen (enclosed_head (by decide)) (.no Bool.false_ne_true ?_)
    refine .bind (hs P p hc.1 (by omega) _ _ _ (stops_enclosed _ _)) fun p' hp => ?_
    refine unseen (enclosed_head (by decide)) (.no Bool.false_ne_true ?_)
    refine .bind (hs P r hc.2.1 (by omega) _ _ _ hr) fun r' hr' => ?_
    have ht := Nat.le_of_succ_le_succ ht
    refine .bind (switchCases_leads hd hl hc.2.2 (by omega) ht) fun q hq => .pure ?_
    exact ⟨by simp only [bareCases, hp, hr', hq.1], hq.2⟩

theorem length_cases (cs : List (SwitchCase Unit)) : cs.length ≤ (wordsOfCases cs).length := by
  induction cs with
  | nil => exact Nat.le_refl 0
  | cons c cs ih =>
    obtain ⟨p, r⟩ := c
    simp only [wordsOfCases, List.length_append, length_enclosed, List.length_cons]
    omega

include hs in
theorem switch_leads {e : Expr Unit} {cs : List (SwitchCase Unit)} {d : Option (Expr Unit)}
    (h : Shape.Legal targets P (.switch e cs d))
    (hn : (Shape.words (.switch e cs d)).length ≤ n + 1) :
    Leads targets ⟨Shape.words (.switch e cs d) ++ ws, P⟩ ⟨ws, P⟩ (atom sub n)
      (·.bare = ⟨(Shape.switch e cs d).bare, none⟩) := by
  obtain ⟨he, hc, hd⟩ := h
  have hcs := length_cases cs
  simp only [Shape.words, List.length_cons, List.length_append, length_enclosed, length_listed,
    List.cons_append, List.append_assoc] at hn ⊢
  rw [listed_append, List.append_assoc]
  refine atom_keyword fun location => .bind next_leads fun _ _ => ?_
  refine .bind (hs P e he (by simp only [length_enclosed]; omega) _ _ _ (stops_cons rfl)) ?_
  refine fun e' he' => .bind expect_leads fun _ _ => ?_
  refine .bind (switchCases_leads hs hd (by omega) hc (by omega) (by omega)) fun q hq => ?_
  refine .bind expect_leads fun _ _ => .pure ?_
  simp only [Expr.bare, Shape.bare, he', hq.1, hq.2]

/-! ### Functions -/

theorem rest_head {name : Option String} {w : Word} (ho : w.1 ≠ .operator ∨ w.2 ≠ "...")
    (hc : mark "]" ≠ w) : (Words.rest name ++ mark "]" :: ws).head? ≠ some w := by
  rcases name with _ | name
  · exact fun he => hc (Option.some.inj he)
  · rintro ⟨⟩
    exact ho.elim (fun h => h rfl) fun h => h rfl

theorem rest_stops {name : Option String} : Stops (Words.rest name ++ mark "]" :: ws) := by
  rcases name with _ | name <;> exact stops_cons rfl

theorem parameters_head {ps : List (Parameter Unit)} {w : Word} (hk : w.1 ≠ .keyword)
    (hi : w.1 ≠ .identifier) (h : ws.head? ≠ some w) :
    (wordsOfParameters ps ++ ws).head? ≠ some w := by
  rcases ps with _ | ⟨⟨name, bound, fallback, location⟩, ps⟩
  · exact h
  · rw [wordsOfParameters, List.append_assoc]
    exact types_head hk hi

theorem parameters_stops {ps : List (Parameter Unit)} (h : Stops ws) :
    Stops (wordsOfParameters ps ++ ws) := by
  rcases ps with _ | ⟨⟨name, bound, fallback, location⟩, ps⟩
  · exact h
  · rw [wordsOfParameters, List.append_assoc]
    exact types_stops

theorem rest_leads {name : Option String} {used : List String} (hu : ∀ x ∈ name, x ∉ used) :
    Leads targets ⟨Words.rest name ++ mark "]" :: ws, P⟩ ⟨mark "]" :: ws, P⟩
      (parameters sub turns used) (· = ([], name)) := by
  rw [parameters.eq_def]
  rcases name with _ | name
  · exact seen rfl (.yes rfl (.pure rfl))
  · refine unseen nofun (.no Bool.false_ne_true (accepted (.yes rfl ?_)))
    refine .bind take_leads fun t ht => ?_
    have hc : t.content = name := (Prod.mk.inj ht).2
    rw [hc]
    refine .no ?_ (.pure rfl)
    simpa using hu name rfl

include hs in
theorem parameters_leads {name : Option String} : ∀ {ps : List (Parameter Unit)} {turns : Nat}
    {used : List String}, parametersLegal targets P ps → (wordsOfParameters ps).length ≤ n →
      (wordsOfParameters ps).length ≤ turns → (ps.map (·.name) ++ name.toList).Nodup →
      (∀ x ∈ ps.map (·.name) ++ name.toList, x ∉ used) →
        Leads targets ⟨wordsOfParameters ps ++ (Words.rest name ++ mark "]" :: ws), P⟩
          ⟨mark "]" :: ws, P⟩ (parameters sub turns used) fun p =>
            bareParameters p.1 = bareParameters ps ∧ p.2 = name
  | [], turns, used, _, _, _, _, hu =>
    (rest_leads fun x hx => hu x (Option.mem_toList.mpr hx)).mono fun p hp => hp ▸ ⟨rfl, rfl⟩
  | ⟨x, bound, fallback, location⟩ :: ps, turns, used, hp, hn, ht, hd, hu => by
    obtain ⟨hb, hf, hp⟩ := hp
    simp only [wordsOfParameters, List.length_append, List.length_cons, List.append_assoc,
      List.cons_append] at hn ht ⊢
    obtain ⟨turns, rfl⟩ : ∃ k, turns = k + 1 := ⟨turns - 1, by omega⟩
    rw [List.map_cons, List.cons_append, List.nodup_cons] at hd
    simp only [List.map_cons, List.cons_append, List.mem_cons, forall_eq_or_imp] at hu
    rw [parameters]
    refine unseen (types_head nofun nofun) (.no Bool.false_ne_true ?_)
    refine unaccepted (types_head nofun nofun) (.no Bool.false_ne_true ?_)
    refine .bind (typeBound_leads hb (by omega)) fun bound' hb' => .bind take_leads fun t ht' => ?_
    have hc : t.content = x := (Prod.mk.inj ht').2
    rw [hc, hb']
    have hl : (wordsOfOption [operator "="] fallback).length ≤ n := by omega
    refine .no ?_ (option_leads hs hf hl ?_ ?_ fun y hy => .bind located_leads fun _ _ => ?_)
    · simpa using hu.1
    · exact parameters_head nofun nofun (rest_head (.inr (by decide)) nofun)
    · exact parameters_stops rest_stops
    · refine .bind (parameters_leads hp (by omega) (by omega) hd.2 fun z hz => ?_) ?_
      · intro hm
        rcases List.mem_cons.mp hm with rfl | hm
        · exact hd.1 hz
        · exact hu.2 z hz hm
      · refine fun q hq => .pure ⟨?_, hq.2⟩
        simp only [bareParameters, hy, hq.1]

include hs in
theorem function_leads {f : FunctionExpr Unit} (hf : f.Legal targets P) (hn : f.words.length ≤ n)
    (hr : Stops rest) : Leads targets ⟨f.words ++ rest, P⟩ ⟨rest, P⟩ (function sub n true)
      (·.bare = f.bare) := by
  obtain ⟨⟨⟩, ps, name, captures, body⟩ := f
  obtain ⟨hd, hp, hb⟩ := hf
  simp only [FunctionExpr.words, List.length_append, length_listed, length_enclosed,
    List.append_assoc] at hn ⊢
  rw [listed_append, List.append_assoc]
  have hds := Levels.declareAll_cons (ps.map (·.name) ++ name.toList) ⟨[], [.return]⟩ P
  have parts : Leads targets ⟨mark "[" :: (wordsOfParameters ps ++ (Words.rest name
      ++ mark "]" :: (enclosed body.words ++ rest))), P.enter .return⟩
      ⟨rest, (P.enter .return).declareAll (ps.map (·.name) ++ name.toList)⟩
      (functionParts sub n true) fun p =>
        bareParameters p.1 = bareParameters ps ∧ p.2.1 = name ∧ p.2.2.bare = body.bare := by
    refine seen rfl (.no Bool.false_ne_true (unseen nofun (.no Bool.false_ne_true ?_)))
    refine .bind expect_leads fun _ _ => ?_
    refine .bind (parameters_leads hs hp (by omega) (by omega) hd fun _ _ => List.not_mem_nil) ?_
    rintro ⟨qs, _⟩ ⟨hq, rfl⟩
    refine .bind expect_leads fun _ _ => ?_
    have hm : qs.map (·.name) = ps.map (·.name) := by
      rw [← bareParameters_names, hq, bareParameters_names]
    simp only [hm]
    refine .bind declareAll_leads fun _ _ => ?_
    refine .bind (hs _ body hb (by simp only [length_enclosed]; omega) _ _ _ hr) fun e he => ?_
    exact .pure ⟨hq, rfl, he⟩
  rw [Levels.enter, hds] at parts
  refine .bind (inFunction_leads parts) ?_
  rintro ⟨⟨qs, _, e⟩, cs⟩ ⟨hq, rfl, he⟩
  refine .pure ?_
  simp only [FunctionExpr.bare, hq, he]

/-! ### Declarations -/

theorem declarations_head {ds : List (Declaration Unit)} {w : Word} (hk : w.1 ≠ .keyword)
    (hi : w.1 ≠ .identifier) (h : ws.head? ≠ some w) :
    (wordsOfDeclarations ds ++ ws).head? ≠ some w := by
  rcases ds with _ | ⟨⟨name, bound, initial, location⟩, ds⟩
  · exact h
  · rw [wordsOfDeclarations, List.append_assoc]
    exact types_head hk hi

theorem declarations_stops {ds : List (Declaration Unit)} (h : Stops ws) :
    Stops (wordsOfDeclarations ds ++ ws) := by
  rcases ds with _ | ⟨⟨name, bound, initial, location⟩, ds⟩
  · exact h
  · rw [wordsOfDeclarations, List.append_assoc]
    exact types_stops

/-- What follows a declaration inside brackets is not taken for a function. -/
theorem declarations_switch {ds : List (Declaration Unit)} :
    (wordsOfDeclarations ds ++ mark "]" :: ws).head? ≠ some (keyword "switch") := by
  rcases ds with _ | ⟨⟨name, bound, initial, location⟩, ds⟩
  · nofun
  · rw [wordsOfDeclarations, List.append_assoc]
    rcases bound with _ | _ | ⟨t, ts⟩
    · nofun
    · nofun
    · cases t <;> simp [types, keyword, ValueType.name]

theorem short_leads {x : Bool} {a : Ahead} (hb : a.words.head? ≠ some (mark "["))
    (hw : a.words.head? ≠ some (keyword "switch")) :
    Leads targets a a (pure x <&&> (sees .punctuation "[" <||> sees .keyword "switch"))
      (· = false) := by
  refine .bind (V := fun _ => True) (.pure trivial) fun y _ => ?_
  cases y with
  | false => exact .pure rfl
  | true => exact unseen hb (sees_leads.mono fun s h => Bool.eq_false_iff.mpr fun hc => hw (h hc))

include hs in
theorem declaration_leads {name : String} {bound : TypeBound} {initial : Option (Expr Unit)}
    (hb : bound ≠ some []) (hi : optionLegal targets P initial) (hd : ¬ P.DeclaresHere name)
    (hn : (wordsOfOption [operator "="] initial).length ≤ n) (ht : (types bound).length ≤ n)
    (ho : ∀ w : Word, w.1 = .operator ∨ w = mark "[" ∨ w = keyword "switch" → rest.head? ≠ some w)
    (hr : Stops rest) :
    Leads targets
      ⟨types bound ++ identifier name :: (wordsOfOption [operator "="] initial ++ rest), P⟩
      ⟨rest, P.declare name⟩ (declaration sub n) fun d =>
        bareDeclarations [d] = bareDeclarations [⟨name, bound, initial, none⟩] := by
  refine .bind (typeBound_leads hb ht) fun bound' hb' => .bind take_leads fun t ht' => ?_
  have hc : t.content = name := (Prod.mk.inj ht').2
  rw [hc, hb']
  have declared : ∀ (y : Option (Expr Unit)) (location : Option Location),
      bareOption y = bareOption initial → Leads targets ⟨rest, P⟩ ⟨rest, P.declare name⟩ (do
        if (← get).scopes.declaresHere name then failAt t (.variableRepeated name)
        modifyScopes (·.declare name)
        return (⟨name, bound, y, location⟩ : Declaration Unit)) fun d =>
          bareDeclarations [d] = bareDeclarations [⟨name, bound, initial, none⟩] := by
    intro y location hy
    refine .get_bind fun r hr => .no (not_declaresHere hr hd) (.bind declare_leads fun _ _ => ?_)
    exact .pure (by simp only [bareDeclarations, hy])
  rcases initial with _ | e
  · refine .bind (short_leads (ho _ (.inr (.inl rfl))) (ho _ (.inr (.inr rfl)))) ?_
    rintro _ rfl
    refine .bind located_leads fun _ _ => unaccepted (ho _ (.inl rfl)) (.no Bool.false_ne_true ?_)
    exact .no Bool.false_ne_true (declared none _ rfl)
  · simp only [wordsOfOption, List.cons_append, List.nil_append, List.length_cons] at hn ⊢
    refine .bind (short_leads nofun nofun) fun _ _ => .bind located_leads fun _ _ => ?_
    refine accepted (.yes rfl (.bind (some_leads hs hi (by omega) hr) fun y hy => ?_))
    exact declared y _ hy

theorem declarations_cons {d : Declaration Unit} {ds : List (Declaration Unit)} :
    bareDeclarations (d :: ds) = bareDeclarations [d] ++ bareDeclarations ds := by
  cases d
  rfl

include hs in
theorem row_leads : ∀ {ds : List (Declaration Unit)} {P : Levels} {turns : Nat},
    declarationsLegal targets P ds → (wordsOfDeclarations ds).length ≤ n → ds.length ≤ turns →
      Leads targets ⟨wordsOfDeclarations ds ++ mark "]" :: ws, P⟩
        ⟨mark "]" :: ws, P.declareAll (ds.map (·.name))⟩ (upTo "]" (declaration sub n) turns)
        (bareDeclarations · = bareDeclarations ds)
  | [], _, _, _, _, _ => upTo_done rfl
  | ⟨name, bound, initial, location⟩ :: ds, P, turns + 1, hd, hn, ht => by
    obtain ⟨hb, hi, hd, hds⟩ := hd
    simp only [wordsOfDeclarations, List.length_append, List.length_cons, List.append_assoc,
      List.cons_append] at hn ⊢
    have ho : ∀ w : Word, w.1 = .operator ∨ w = mark "[" ∨ w = keyword "switch" →
        (wordsOfDeclarations ds ++ mark "]" :: ws).head? ≠ some w := by
      rintro w (hw | rfl | rfl)
      · refine declarations_head (hw ▸ nofun) (hw ▸ nofun) ?_
        rintro ⟨⟩
        cases hw
      · exact declarations_head nofun nofun (by simp [mark])
      · exact declarations_switch
    have hr : Stops (wordsOfDeclarations ds ++ mark "]" :: ws) :=
      declarations_stops (stops_cons rfl)
    refine upTo_more (types_head nofun nofun)
      (declaration_leads hs hb hi hd (by omega) (by omega) ho hr)
      (row_leads hds (by omega) (Nat.le_of_succ_le_succ ht)) ?_
    intro y ys hy hys
    rw [declarations_cons, hy, hys]
    rfl

theorem length_declarations (ds : List (Declaration Unit)) :
    ds.length ≤ (wordsOfDeclarations ds).length := by
  induction ds with
  | nil => exact Nat.le_refl 0
  | cons d ds ih =>
    obtain ⟨name, bound, initial, location⟩ := d
    simp only [wordsOfDeclarations, List.length_append, List.length_cons]
    omega

include hs in
theorem declarations_leads {ds : List (Declaration Unit)} (hne : ds ≠ [])
    (hd : declarationsLegal targets P ds) (hn : (wordsOfDeclarations ds).length ≤ n) :
    Leads targets ⟨keyword "declare" :: (listed (wordsOfDeclarations ds) ++ ws), P⟩
      ⟨ws, P.declareAll (ds.map (·.name))⟩ (declarations sub n) fun s =>
        bareStatements [s] = bareStatements [⟨.declare ds, none⟩] := by
  have hl := Nat.le_trans (length_declarations ds) hn
  rw [listed_append]
  refine .bind expect_leads fun word _ => accepted (.yes rfl (.bind (row_leads hs hd hn hl) ?_))
  intro ys hy
  have done : Leads targets ⟨ws, P.declareAll (ds.map (·.name))⟩
      ⟨ws, P.declareAll (ds.map (·.name))⟩
      (do return (⟨.declare ys, ← located word⟩ : Statement Unit)) fun s =>
        bareStatements [s] = bareStatements [⟨.declare ds, none⟩] :=
    .bind located_leads fun _ _ => .pure (by simp only [bareStatements, StatementShape.bare, hy])
  refine .no ?_ (.bind next_leads fun _ _ => done)
  intro he
  rw [List.isEmpty_iff.mp he] at hy
  rcases ds with _ | ⟨⟨_, _, _, _⟩, _⟩
  · exact hne rfl
  · cases hy

/-! ### Statements -/

include hs in
theorem leave_leads {r : Register} {e : Expr Unit} (hr : P.Has r) (he : e.Legal targets P)
    (hn : (enclosed e.words).length ≤ n) (ht : Stops rest) :
    Leads targets ⟨keyword r.name :: (enclosed e.words ++ rest), P⟩ ⟨rest, P⟩
      (registerStatement sub r) fun s =>
        bareStatements [s] = bareStatements [⟨.leave r e, none⟩] := by
  refine .bind expect_leads fun word _ => .get_bind fun _ ha => .no ?_ ?_
  · simp [hasRegister ha hr]
  · refine .bind located_leads fun _ _ => unaccepted (enclosed_head (by decide)) ?_
    refine .no Bool.false_ne_true ?_
    have first : enclosed e.words ++ rest = mark "(" :: (e.words ++ mark ")" :: rest) :=
      enclosed_append _ _
    rw [first]
    refine peeked fun _ => .yes rfl ?_
    rw [← first]
    exact .bind (hs P e he hn _ _ _ ht) fun y hy => .pure (by
      simp only [bareStatements, StatementShape.bare, hy])

include hs in
theorem set_leads {r : Register} {e : Expr Unit} (hr : P.Has r) (he : e.Legal targets P)
    (hn : (enclosed e.words).length ≤ n) (ht : Stops rest) :
    Leads targets ⟨keyword r.name :: operator "=" :: (enclosed e.words ++ rest), P⟩ ⟨rest, P⟩
      (registerStatement sub r) fun s =>
        bareStatements [s] = bareStatements [⟨.set r e, none⟩] := by
  refine .bind expect_leads fun word _ => .get_bind fun _ ha => .no ?_ ?_
  · simp [hasRegister ha hr]
  · refine .bind located_leads fun _ _ => accepted (.yes rfl ?_)
    exact .bind (hs P e he hn _ _ _ ht) fun y hy => .pure (by
      simp only [bareStatements, StatementShape.bare, hy])

include hs in
theorem statement_leads {s : StatementShape Unit} (h : s.Legal targets P)
    (hn : s.words.length ≤ n) (ht : Stops rest) :
    Leads targets ⟨s.words ++ rest, P⟩ ⟨rest, P.declareAll s.names⟩ (statement sub n) fun y =>
      bareStatements [y] = bareStatements [⟨s, none⟩] := by
  cases s with
  | declare ds =>
    simp only [StatementShape.words, List.length_cons, length_listed, List.cons_append] at hn ⊢
    exact peeked fun _ => .no (not_not_intro rfl) (declarations_leads hs h.1 h.2 (by omega))
  | expression e =>
    have first : enclosed e.words ++ rest = mark "(" :: (e.words ++ mark ")" :: rest) :=
      enclosed_append _ _
    simp only [StatementShape.words] at hn ⊢
    rw [first]
    refine peeked fun location => .yes nofun ?_
    rw [← first]
    refine .bind (hs P e h hn _ _ _ ht) fun y hy => .bind located_leads fun _ _ => .pure ?_
    simp only [bareStatements, StatementShape.bare, hy]
  | leave r e =>
    simp only [StatementShape.words, List.length_cons, List.cons_append] at hn ⊢
    refine peeked fun _ => .no (not_not_intro rfl) ?_
    cases r
    · exact leave_leads hs h.1 h.2 (by omega) ht
    · exact leave_leads hs h.1 h.2 (by omega) ht
    · exact leave_leads hs h.1 h.2 (by omega) ht
  | set r e =>
    simp only [StatementShape.words, List.length_cons, List.cons_append] at hn ⊢
    refine peeked fun _ => .no (not_not_intro rfl) ?_
    cases r
    · exact set_leads hs h.1 h.2 (by omega) ht
    · exact set_leads hs h.1 h.2 (by omega) ht
    · exact set_leads hs h.1 h.2 (by omega) ht
  | «continue» =>
    refine peeked fun _ => .no (not_not_intro rfl) ?_
    exact .bind next_leads fun _ _ => .bind located_leads fun _ _ => .pure rfl

theorem statement_head {s : StatementShape Unit} :
    ∃ w, (w = mark "(" ∨ w.1 = .keyword) ∧ s.words.head? = some w := by
  cases s with
  | expression e => exact ⟨_, .inl rfl, rfl⟩
  | _ => exact ⟨_, .inr rfl, rfl⟩

theorem head?_append_of_some {w : Word} (h : ws.head? = some w) : (ws ++ rest).head? = some w := by
  rw [List.head?_append, h, Option.some_or]

theorem statements_stops {ss : List (Statement Unit)} (h : Stops ws) :
    Stops (wordsOfStatements ss ++ ws) := by
  rcases ss with _ | ⟨⟨shape, _⟩, ss⟩
  · exact h
  · obtain ⟨w, hw, he⟩ := statement_head (s := shape)
    rw [wordsOfStatements, List.append_assoc, Stops, head?_append_of_some he]
    rintro _ ⟨⟩
    rcases hw with rfl | hw
    · rfl
    · simp [binds, hw]

theorem statements_cons {s : Statement Unit} {ss : List (Statement Unit)} :
    bareStatements (s :: ss) = bareStatements [s] ++ bareStatements ss := by
  cases s
  rfl

include hs in
theorem statements_leads : ∀ {ss : List (Statement Unit)} {P : Levels} {turns : Nat},
    statementsLegal targets P ss → (wordsOfStatements ss).length ≤ n → ss.length ≤ turns →
      Leads targets ⟨wordsOfStatements ss ++ mark "\x7d" :: ws, P⟩
        ⟨mark "\x7d" :: ws, P.declareAll (ss.flatMap (·.shape.names))⟩
        (upTo "\x7d" (statement sub n) turns) (bareStatements · = bareStatements ss)
  | [], _, _, _, _, _ => upTo_done rfl
  | ⟨shape, location⟩ :: ss, P, turns + 1, h, hn, ht => by
    simp only [wordsOfStatements, List.length_append, List.append_assoc] at hn ⊢
    have hr : Stops (wordsOfStatements ss ++ mark "\x7d" :: ws) := statements_stops (stops_cons rfl)
    obtain ⟨w, hw, he⟩ := statement_head (s := shape)
    rw [List.flatMap_cons, Levels.declareAll_append]
    refine upTo_more ?_ (statement_leads hs h.1 (by omega) hr)
      (statements_leads h.2 (by omega) (Nat.le_of_succ_le_succ ht)) fun y ys hy hys => ?_
    · rw [head?_append_of_some he]
      rintro ⟨⟩
      rcases hw with hw | hw
      · exact absurd hw (by decide)
      · cases hw
    · rw [statements_cons, hy, hys]
      rfl

theorem length_statements (ss : List (Statement Unit)) :
    ss.length ≤ (wordsOfStatements ss).length := by
  induction ss with
  | nil => exact Nat.le_refl 0
  | cons s ss ih =>
    obtain ⟨shape, location⟩ := s
    obtain ⟨w, -, he⟩ := statement_head (s := shape)
    have hl : shape.words ≠ [] := fun h => by simp [h] at he
    have := List.length_pos_iff.mpr hl
    simp only [wordsOfStatements, List.length_append, List.length_cons]
    omega

include hs in
theorem block_leads {ss : List (Statement Unit)} (h : statementsLegal targets (P.enter .yield) ss)
    (hn : (wordsOfStatements ss).length ≤ n) :
    Leads targets ⟨mark "\x7b" :: (wordsOfStatements ss ++ mark "\x7d" :: ws), P⟩ ⟨ws, P⟩
      (atom sub n) (·.bare = ⟨.block (bareStatements ss), none⟩) := by
  have hl := Nat.le_trans (length_statements ss) hn
  have hds := Levels.declareAll_cons (ss.flatMap (·.shape.names)) ⟨[], [.yield]⟩ P
  have row : Leads targets ⟨wordsOfStatements ss ++ mark "\x7d" :: ws, P.enter .yield⟩
      ⟨mark "\x7d" :: ws, (P.enter .yield).declareAll (ss.flatMap (·.shape.names))⟩
      (upTo "\x7d" (statement sub n) n) (bareStatements · = bareStatements ss) :=
    statements_leads hs h hn hl
  rw [Levels.enter, hds] at row
  refine atom_mark fun _ => .bind expect_leads fun _ _ => .bind (inScope_leads row) fun ys hy => ?_
  refine .bind expect_leads fun _ _ => .pure ?_
  simp only [Expr.bare, Shape.bare, hy]

/-! ### The other rules -/

include hs in
theorem selection_leads {e : Expr Unit} (he : e.Legal targets P)
    (hn : (enclosed e.words).length ≤ n) (hr : Stops rest) :
    Leads targets ⟨keyword "selection" :: (enclosed e.words ++ rest), P⟩ ⟨rest, P⟩ (atom sub n)
      (·.bare = ⟨.selection e.bare, none⟩) := by
  refine atom_keyword fun _ => .bind next_leads fun _ _ => ?_
  exact .bind (hs P e he hn _ _ _ hr) fun y hy => .pure (by simp only [Expr.bare, Shape.bare, hy])

include hs in
theorem choice_leads {t a : Expr Unit} (ht : t.Legal targets P) (ha : a.Legal targets P)
    (hn : (enclosed t.words).length ≤ n) (hn' : (enclosed a.words).length ≤ n) (hr : Stops rest) :
    Leads targets ⟨keyword "choice" :: (enclosed t.words ++ (enclosed a.words ++ rest)), P⟩
      ⟨rest, P⟩ (atom sub n) (·.bare = ⟨.choice t.bare a.bare, none⟩) := by
  refine atom_keyword fun _ => .bind next_leads fun _ _ => ?_
  refine .bind (hs P t ht hn _ _ _ (stops_enclosed _ _)) fun x hx => ?_
  refine .bind (hs P a ha hn' _ _ _ hr) fun y hy => .pure ?_
  simp only [Expr.bare, Shape.bare, hx, hy]

include hs in
theorem unary_leads {op : UnaryOp} {e : Expr Unit} (he : e.Legal targets P)
    (hn : (enclosed e.words).length ≤ n) (hr : Stops rest) :
    Leads targets ⟨operator op.symbol :: (enclosed e.words ++ rest), P⟩ ⟨rest, P⟩ (atom sub n)
      (·.bare = ⟨.unary op e.bare, none⟩) := by
  have ho : UnaryOp.ofSymbol? op.symbol = some op := by cases op <;> rfl
  refine peeked fun _ => .bind located_leads fun _ _ => .bind next_leads fun _ _ => ?_
  simp only [operator, ho]
  exact .bind (hs P e he hn _ _ _ hr) fun y hy => .pure (by simp only [Expr.bare, Shape.bare, hy])

include hs in
theorem functionAtom_leads {f : FunctionExpr Unit} (hf : f.Legal targets P)
    (hn : f.words.length ≤ n) (hr : Stops rest) :
    Leads targets ⟨keyword "function" :: (f.words ++ rest), P⟩ ⟨rest, P⟩ (atom sub n)
      (·.bare = ⟨.function f.bare, none⟩) := by
  refine atom_keyword fun _ => .bind next_leads fun _ _ => .bind (function_leads hs hf hn hr) ?_
  exact fun g hg => .pure (by simp only [Expr.bare, Shape.bare, hg])

include hs in
theorem cond_leads {c y : Expr Unit} {o : Option (Expr Unit)} (hc : c.Legal targets P)
    (hy : y.Legal targets P) (ho : optionLegal targets P o) (hn : (enclosed c.words).length ≤ n)
    (hn' : (enclosed y.words).length ≤ n) (hl : (wordsOfOption [keyword "else"] o).length ≤ n)
    (hr : Stops rest) (hw : rest.head? ≠ some (keyword "else")) :
    Leads targets ⟨keyword "if" :: (enclosed c.words ++ (enclosed y.words
      ++ (wordsOfOption [keyword "else"] o ++ rest))), P⟩ ⟨rest, P⟩ (atom sub n)
      (·.bare = ⟨.cond c.bare y.bare (bareOption o), none⟩) := by
  have hs' : Stops (wordsOfOption [keyword "else"] o ++ rest) := by
    rcases o with _ | o
    · exact hr
    · exact stops_cons rfl
  refine atom_keyword fun _ => .bind next_leads fun _ _ => ?_
  refine .bind (hs P c hc hn _ _ _ (stops_enclosed _ _)) fun c' hc' => ?_
  refine .bind (hs P y hy hn' _ _ _ hs') fun y' hy' => option_leads hs ho hl hw hr fun o' ho' => ?_
  exact .pure (by simp only [Expr.bare, Shape.bare, hc', hy', ho'])

theorem isNone_of_bare {x y : Option (Expr Unit)} (h : bareOption x = bareOption y) :
    x.isNone = y.isNone := by
  cases x <;> cases y <;> first | rfl | cases h

include hs in
/-- The words of a loop up to its condition, and then what is done after it. -/
theorem loop_leads {before after : Option (Expr Unit)} {c : Expr Unit} {location : Option Location}
    (h : Shape.Legal targets P (.loop before c after)) (hr : Stops rest)
    (hb : (wordsOfOption [keyword "do"] before).length ≤ n) (hc : (enclosed c.words).length ≤ n)
    (ha : (wordsOfOption [keyword "then"] after).length ≤ n)
    (hw : rest.head? ≠ some (keyword "then")) :
    Leads targets ⟨wordsOfOption [keyword "do"] before ++ keyword "while" :: (enclosed c.words
      ++ (wordsOfOption (before.toList.map fun _ => keyword "then") after ++ rest)), P⟩ ⟨rest, P⟩
      (loop sub location) (·.bare = ⟨(Shape.loop before c after).bare, none⟩) := by
  obtain ⟨hsome, hlb, hlc, hla⟩ := h
  have hs' : Stops (wordsOfOption (before.toList.map fun _ => keyword "then") after ++ rest) := by
    rcases after with _ | a
    · exact hr
    · cases before <;> exact stops_cons rfl
  refine inScope_leads (l := ⟨[], [.break]⟩) ?_
  refine option_leads hs hlb hb (by simp [keyword]) (stops_cons rfl) fun x hx => ?_
  refine .bind expect_leads fun _ _ => .bind (hs _ c hlc hc _ _ _ hs') fun c' hc' => ?_
  have hx' := isNone_of_bare hx
  rcases before with _ | b
  · rcases after with _ | a
    · simp at hsome
    · refine .yes hx' (.bind (some_leads hs hla ?_ hr) fun y hy => .pure ?_)
      · simp only [wordsOfOption, List.cons_append, List.nil_append, List.length_cons] at ha
        omega
      · simp only [Expr.bare, Shape.bare, hx, hc', hy, bareOption]
  · refine .no (by simp [hx']) (option_leads hs hla ha hw hr fun y hy => .pure ?_)
    simp only [Expr.bare, Shape.bare, hx, hc', hy]

/-! ### Operators between operands -/

include hs in
theorem binary_leads {op : BinaryOp} {l r : Expr Unit} (hl : ∀ rest, Leads targets
    ⟨l.words ++ mark ")" :: rest, P⟩ ⟨mark ")" :: rest, P⟩ (expression sub) (·.bare = l.bare))
    (hr : r.Legal targets P) (hn : (enclosed r.words).length ≤ n) (ht : Stops rest) :
    Leads targets ⟨enclosed l.words ++ operator op.symbol :: (enclosed r.words ++ rest), P⟩
      ⟨rest, P⟩ (do climb sub n (← atom sub n) 0 unbounded)
      (·.bare = ⟨.binary op l.bare r.bare, none⟩) := by
  have hp : 0 < op.precedence := by cases op <;> decide
  obtain ⟨m, rfl⟩ : ∃ m, n = m + 1 := ⟨n - 1, by rw [length_enclosed] at hn; omega⟩
  refine .bind (atom_enclosed hl) fun l' hl' => ?_
  rw [climb]
  refine .bind (binding?_binary hp) ?_
  rintro _ rfl
  refine .bind next_leads fun _ _ => .bind located_leads fun _ _ => ?_
  refine .bind (hs P r hr hn _ _ _ ht) fun r' hr' => climb_stops ht ?_
  simp only [Expr.bare, Shape.bare, hl', hr']

include hs in
theorem conditional_leads {c y o : Expr Unit} (hc : ∀ rest, Leads targets
    ⟨c.words ++ mark ")" :: rest, P⟩ ⟨mark ")" :: rest, P⟩ (expression sub) (·.bare = c.bare))
    (hy : y.Legal targets P) (ho : o.Legal targets P) (hn : (enclosed y.words).length ≤ n)
    (hn' : (enclosed o.words).length ≤ n) (ht : Stops rest) :
    Leads targets ⟨enclosed c.words ++ operator "?" :: (enclosed y.words
      ++ operator ":" :: (enclosed o.words ++ rest)), P⟩ ⟨rest, P⟩
      (do climb sub n (← atom sub n) 0 unbounded)
      (·.bare = ⟨.conditional c.bare y.bare o.bare, none⟩) := by
  obtain ⟨m, rfl⟩ : ∃ m, n = m + 1 := ⟨n - 1, by rw [length_enclosed] at hn; omega⟩
  refine .bind (atom_enclosed hc) fun c' hc' => ?_
  rw [climb]
  refine .bind (binding?_conditional (by decide) (by decide)) ?_
  rintro _ rfl
  refine .bind next_leads fun _ _ => .bind located_leads fun _ _ => ?_
  refine .bind (hs P y hy hn _ _ _ (stops_cons rfl)) fun y' hy' => .bind expect_leads fun _ _ => ?_
  refine .bind (hs P o ho hn' _ _ _ ht) fun o' ho' => climb_stops ht ?_
  simp only [Expr.bare, Shape.bare, hc', hy', ho']

end Ready

end Grammar

end Tale
