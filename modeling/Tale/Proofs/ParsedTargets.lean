import Tale.Proofs.Closed
import Tale.Proofs.Targets

/-!
# The targets of parsed trees

While a tree is read, its targets are noted on the side, each once it is read, and when all is read
each target noted has to be a section. Whatever rule of the grammar is at work, what it notes are
the targets of the tree it returns, in their order (`Grammar.operand_records`). So every target in
a story that was read is one of its sections, and these have names of their own
(`Document.parse_targets`).
-/

namespace Tale

variable {α β : Type}

/-! ## Parsers -/

/-- The targets noted so far, in the order in which they were read. -/
def Reading.noted (r : Reading) : List String :=
  (r.targets.map (·.content)).reverse

/-- A passage of reading in which the targets `xs` are noted. -/
def Noted (ns xs ms : List String) : Prop :=
  ms = ns ++ xs

namespace Noted

variable {ns ms ks xs ys : List String}

theorem refl (ns : List String) : Noted ns [] ns :=
  (List.append_nil ns).symm

theorem trans (h : Noted ns xs ms) (h' : Noted ms ys ks) : Noted ns (xs ++ ys) ks := by
  rw [Noted, h', h, List.append_assoc]

end Noted

/-- What holds of a result, and of the targets noted then, of a parser that starts with the targets
`ns` noted and does not fail. -/
def Notes (ns : List String) (p : Parser α) (Q : α → List String → Prop) : Prop :=
  ∀ r : Reading, r.noted = ns → ∀ a r', p r = .ok (a, r') → Q a r'.noted

/-- A parser that notes the targets of what it reads. -/
def Records (p : Parser α) (targets : α → List String) : Prop :=
  ∀ ns, Notes ns p fun a ms => Noted ns (targets a) ms

theorem Records.of_eq {p : Parser α} {targets targets' : α → List String} (h : Records p targets)
    (ht : ∀ a, targets a = targets' a) : Records p targets' :=
  funext ht ▸ h

/-- A parser that notes nothing. -/
def Quiet (p : Parser α) : Prop :=
  ∀ ns, Notes ns p fun _ ms => ms = ns

namespace Notes

variable {ns : List String} {p : Parser α} {Q : α → List String → Prop}
  {R : β → List String → Prop}

theorem bind {f : α → Parser β} (h : Notes ns p Q) (hf : ∀ a ms, Q a ms → Notes ms (f a) R) :
    Notes ns (p >>= f) R := by
  intro r hr b r'' hb
  simp only [Bind.bind, StateT.bind, Except.bind] at hb
  split at hb
  · cases hb
  · exact hf _ _ (h r hr _ _ ‹_›) _ rfl b r'' hb

theorem mono {Q' : α → List String → Prop} (h : Notes ns p Q) (hq : ∀ a ms, Q a ms → Q' a ms) :
    Notes ns p Q' :=
  fun r hr a r' ha => hq _ _ (h r hr a r' ha)

theorem pure {a : α} (h : Q a ns) : Notes ns (pure a) Q := by
  rintro r rfl _ _ ⟨⟩
  exact h

theorem throw {e : SourceError} : Notes ns (throw e : Parser α) Q :=
  fun _ _ _ _ => nofun

theorem map {f : α → β} (h : Notes ns p Q) (hf : ∀ a ms, Q a ms → R (f a) ms) :
    Notes ns (f <$> p) R :=
  bind h fun _ _ hq => pure (hf _ _ hq)

theorem get_bind {f : Reading → Parser α} (h : ∀ r : Reading, r.noted = ns → Notes ns (f r) Q) :
    Notes ns (get >>= f) Q :=
  fun r hr => h r hr r hr

/-- What notes nothing may go first. -/
theorem quiet {q : Parser β} {f : β → Parser α} (h : Quiet q) (hf : ∀ b, Notes ns (f b) Q) :
    Notes ns (q >>= f) Q :=
  bind (h ns) fun b _ hb => hb ▸ hf b

/-- A parser that fails first if it has to. -/
theorem guard {c : Prop} [Decidable c] {q : Parser PUnit} {k : PUnit → Parser α}
    (hq : Notes ns q fun _ _ => False) (h : ¬ c → Notes ns (k ⟨⟩) Q) :
    Notes ns (if c then q >>= k else k ⟨⟩) Q := by
  split
  · exact bind hq fun _ _ h => h.elim
  · exact h ‹_›

end Notes

namespace Quiet

variable {p : Parser α}

theorem pure {a : α} : Quiet (pure a : Parser α) :=
  fun _ => .pure rfl

theorem bind {q : Parser β} {f : β → Parser α} (h : Quiet q) (hf : ∀ b, Quiet (f b)) :
    Quiet (q >>= f) :=
  fun ns => .quiet h fun b => hf b ns

theorem get_bind {f : Reading → Parser α} (h : ∀ r, Quiet (f r)) : Quiet (get >>= f) :=
  fun ns => .get_bind fun r _ => h r ns

end Quiet

namespace Parser

variable {ns : List String} {Q : α → List String → Prop}

theorem set_notes {r : Reading} (h : r.noted = ns) : Notes ns (set r) fun _ ms => ms = ns := by
  rintro _ _ _ _ ⟨⟩
  exact h

theorem fail_notes {cause : SourceError.Cause} {location : Option Location} :
    Notes ns (fail cause location : Parser α) Q :=
  .throw

theorem peek?_quiet : Quiet peek? :=
  .get_bind fun _ => .pure

theorem endLocation_quiet : Quiet endLocation :=
  .get_bind fun _ => .pure

theorem unexpected_notes {expected : String} : Notes ns (unexpected expected : Parser α) Q := by
  refine .quiet peek?_quiet fun t => ?_
  split
  · exact fail_notes
  · exact .quiet endLocation_quiet fun _ => fail_notes

theorem next_quiet : Quiet next := by
  intro ns
  refine .get_bind fun r hr => ?_
  split
  · exact .quiet endLocation_quiet fun _ => .throw
  · split
    · exact .throw
    · exact .bind (set_notes hr) fun _ _ h => .pure h
  · exact .bind (set_notes hr) fun _ _ h => .pure h

theorem sees_quiet {kind : TokenKind} {content : String} : Quiet (sees kind content) :=
  .bind peek?_quiet fun _ => .pure

theorem take_quiet {kind : TokenKind} : Quiet (take kind) := by
  refine .bind peek?_quiet fun t ns => ?_
  split
  · exact next_quiet ns
  · exact unexpected_notes

theorem expect_quiet {kind : TokenKind} {content : String} : Quiet (expect kind content) := by
  refine .bind sees_quiet fun b ns => ?_
  split
  · exact next_quiet ns
  · exact unexpected_notes

theorem accept_quiet {kind : TokenKind} {content : String} : Quiet (accept kind content) := by
  refine .bind sees_quiet fun b => ?_
  split
  · exact .bind next_quiet fun _ => .pure
  · exact .pure

theorem located_quiet {t : Token} : Quiet (located t) :=
  .get_bind fun _ => .pure

theorem modifyScopes_quiet {f : LexicalScopes → LexicalScopes} : Quiet (modifyScopes f) := by
  rintro ns r hr _ _ ⟨⟩
  exact hr

theorem resolve_quiet {name : String} : Quiet (resolve name) := by
  rintro ns r hr _ _ ⟨⟩
  exact hr

/-- The targets of one item after the other. -/
theorem repeatWhile_records {more : Parser Bool} {item : Parser α} {targets : α → List String}
    (hm : Quiet more) (hi : Records item targets) : ∀ turns : Nat,
      Records (repeatWhile more item turns) fun as => as.flatMap targets
  | 0, ns => by
    refine .quiet hm fun b => ?_
    split
    · exact .pure (.refl ns)
    · exact .throw
  | n + 1, ns => by
    refine .quiet hm fun b => ?_
    split
    · exact .pure (.refl ns)
    · refine .bind (hi ns) fun a ms ha => .bind (repeatWhile_records hm hi n ms) fun as ks has => ?_
      exact .pure (ha.trans has)

theorem repeatWhile_quiet {more : Parser Bool} {item : Parser α} (hm : Quiet more)
    (hi : Quiet item) (turns : Nat) : Quiet (repeatWhile more item turns) := by
  have hr : Records item fun _ => [] := fun ns => (hi ns).mono fun _ _ h => h ▸ .refl ns
  refine fun ns => (repeatWhile_records hm hr turns ns).mono fun as ms h => ?_
  have hn : as.flatMap (fun _ => ([] : List String)) = [] :=
    List.flatMap_eq_nil_iff.mpr fun _ _ => rfl
  have hm : ms = ns ++ as.flatMap fun _ => [] := h
  rw [hm, hn, List.append_nil]

theorem upTo_records {close : String} {item : Parser α} {targets : α → List String}
    (hi : Records item targets) (turns : Nat) :
    Records (upTo close item turns) fun as => as.flatMap targets :=
  repeatWhile_records (.bind sees_quiet fun _ => .pure) hi turns

theorem inScope_records {register : Register} {p : Parser α} {targets : α → List String}
    (h : Records p targets) : Records (inScope register p) targets :=
  fun ns => .quiet modifyScopes_quiet fun _ => .bind (h ns) fun _ _ ha =>
    .quiet modifyScopes_quiet fun _ => .pure ha

theorem inFunction_records {p : Parser α} {targets : α → List String} (h : Records p targets) :
    Records (inFunction p) fun a => targets a.1 :=
  fun ns => .quiet modifyScopes_quiet fun _ => .bind (h ns) fun _ _ ha =>
    .get_bind fun _ _ => .quiet modifyScopes_quiet fun _ => .pure ha

end Parser

/-! ## Expressions and statements -/

namespace Grammar

open Tale.Parser

variable {sub : Operand} {turns : Nat} {ns : List String} {location : Option Location}

theorem typeBound_quiet : Quiet (typeBound turns) :=
  .bind (repeatWhile_quiet (.bind peek?_quiet fun _ => .pure) (.bind next_quiet fun _ => .pure)
    turns) fun _ => .pure

theorem sectionName_records : Records sectionName fun name => [name] := by
  refine fun ns => .quiet take_quiet fun t => .bind (Q := fun _ ms => Noted ns [t.content] ms) ?_
    fun _ _ h => .pure h
  rintro r rfl _ _ ⟨⟩
  simp [Noted, Reading.noted]

theorem gotoTargets_records : Records (gotoTargets turns) fun names => names := by
  refine fun ns => .quiet accept_quiet fun b => ?_
  split
  · refine .bind (upTo_records sectionName_records turns ns) fun names ms h =>
      .quiet next_quiet fun _ => .pure ?_
    simpa using h
  · exact .bind (sectionName_records ns) fun name ms h => .pure h

section Sub

variable (hs : ∀ min max, Records (sub min max) Expr.targets)

include hs in
theorem some_records : Records (some <$> expression sub) targetsInOption :=
  fun ns => .map (hs _ _ ns) fun _ _ he => he

include hs in
/-- An expression that may be missing. -/
theorem option_notes {kind : TokenKind} {content : String} {k : Option (Expr Unit) → Parser α}
    {Q : α → List String → Prop}
    (hk : ∀ e ms, Noted ns (targetsInOption e) ms → Notes ms (k e) Q) : Notes ns (do
      if ← accept kind content then
        let e ← some <$> expression sub
        k e
      else
        let e ← pure none
        k e) Q := by
  refine .quiet accept_quiet fun b => ?_
  split
  · exact .bind (some_records hs ns) hk
  · exact hk none ns (.refl ns)

include hs in
theorem element_records : Records (element sub) (·.expr.targets) := by
  refine fun ns => .quiet sees_quiet fun b => ?_
  split
  · refine .quiet next_quiet fun t => .bind (hs _ _ ns) fun e ms he => ?_
    exact .quiet located_quiet fun _ => .pure he
  · exact .bind (hs _ _ ns) fun e ms he => .pure he

include hs in
theorem list_records : Records (list sub turns) Expr.targets := by
  have row : Records (upTo "]" (element sub) turns) targetsInElements :=
    (upTo_records (element_records hs) turns).of_eq fun _ => targetsInElements_eq.symm
  exact fun ns => .quiet expect_quiet fun _ => .bind (row ns) fun es ms hes =>
    .quiet expect_quiet fun _ => .quiet located_quiet fun _ => .pure hes

include hs in
theorem switchCases_records : ∀ turns, Records (switchCases sub turns) fun p =>
    targetsInCases p.1 ++ targetsInOption p.2
  | 0, ns => by
    refine .quiet sees_quiet fun b => ?_
    split
    · exact .pure (.refl ns)
    · exact .throw
  | n + 1, ns => by
    refine .quiet sees_quiet fun b => ?_
    split
    · exact .pure (.refl ns)
    · refine .bind (hs _ _ ns) fun p ms hp => .quiet sees_quiet fun b => ?_
      split
      · exact .pure hp
      · refine .bind (hs _ _ ms) fun r ks hr => .bind (switchCases_records n ks) fun cs ls hcs => ?_
        refine .pure ?_
        simpa [targetsInCases] using hp.trans (hr.trans hcs)

include hs in
theorem switchOn_notes {subject : Expr Unit} {ms : List String}
    (h : Noted ns subject.targets ms) : Notes ms (switchOn sub turns subject location)
      fun e ks => Noted ns e.targets ks := by
  refine .quiet expect_quiet fun _ => .bind (switchCases_records hs turns ms) fun p ks hp => ?_
  exact .quiet expect_quiet fun _ => .pure (h.trans hp)

include hs in
theorem parameters_records : ∀ turns used,
    Records (parameters sub turns used) fun p => targetsInParameters p.1
  | 0, used, ns => by
    refine .quiet sees_quiet fun b => ?_
    split
    · exact .pure (.refl ns)
    · refine .quiet accept_quiet fun b => ?_
      split
      · exact .quiet take_quiet fun t => .guard fail_notes fun _ => .pure (.refl ns)
      · exact .throw
  | n + 1, used, ns => by
    refine .quiet sees_quiet fun b => ?_
    split
    · exact .pure (.refl ns)
    · refine .quiet accept_quiet fun b => ?_
      split
      · exact .quiet take_quiet fun t => .guard fail_notes fun _ => .pure (.refl ns)
      · refine .quiet typeBound_quiet fun bound => .quiet take_quiet fun t => ?_
        refine .guard fail_notes fun _ => option_notes hs fun e ms he => ?_
        refine .quiet located_quiet fun _ => .bind (parameters_records n _ ms) fun ps ks hps => ?_
        exact .pure (he.trans hps)

include hs in
theorem functionParts_records {full : Bool} : Records (functionParts sub turns full) fun p =>
    targetsInParameters p.1 ++ p.2.2.targets := by
  refine fun ns => .quiet sees_quiet fun b => ?_
  split
  · exact .bind (hs _ _ ns) fun e ms he => .pure he
  · refine .quiet sees_quiet fun b => ?_
    split
    · refine .quiet next_quiet fun t => .quiet located_quiet fun location => ?_
      refine .bind (switchOn_notes hs (.refl ns)) fun e ms he => ?_
      exact .quiet modifyScopes_quiet fun _ => .pure he
    · refine .quiet expect_quiet fun _ => ?_
      refine .bind (parameters_records hs turns [] ns) fun p ms hp => ?_
      refine .quiet expect_quiet fun _ => .quiet modifyScopes_quiet fun _ => ?_
      exact .bind (hs _ _ ms) fun e ks he => .pure (hp.trans he)

include hs in
theorem function_records {full : Bool} :
    Records (function sub turns full) FunctionExpr.targets :=
  fun ns => .bind (inFunction_records (functionParts_records hs) ns) fun _ _ hp => .pure hp

include hs in
theorem declaration_records :
    Records (declaration sub turns) fun d => targetsInOption d.initial := by
  refine fun ns => .quiet typeBound_quiet fun bound => .quiet take_quiet fun t => ?_
  have short : Quiet (pure (bound == some [.function])
      <&&> (sees .punctuation "[" <||> sees .keyword "switch")) := by
    refine .bind .pure fun b => ?_
    cases b with
    | false => exact .pure
    | true =>
      refine .bind sees_quiet fun b => ?_
      cases b with
      | false => exact sees_quiet
      | true => exact .pure
  refine .quiet short fun _ => .quiet located_quiet fun location => ?_
  have declared : ∀ (initial : Option (Expr Unit)) (ms : List String),
      Noted ns (targetsInOption initial) ms → Notes ms (do
        if (← get).scopes.declaresHere t.content then failAt t (.variableRepeated t.content)
        modifyScopes (·.declare t.content)
        return (⟨t.content, bound, initial, location⟩ : Declaration Unit)) fun d ks =>
          Noted ns (targetsInOption d.initial) ks := by
    intro initial ms hi
    refine .get_bind fun r _ => .guard fail_notes fun _ => ?_
    exact .quiet modifyScopes_quiet fun _ => .pure hi
  refine .quiet accept_quiet fun b => ?_
  split
  · exact .bind (some_records hs ns) declared
  · split
    · exact .bind (function_records hs ns) fun f ms hf => declared (some _) ms hf
    · exact declared none ns (.refl ns)

include hs in
theorem declarations_records : Records (declarations sub turns) (·.shape.targets) := by
  refine fun ns => .quiet expect_quiet fun word => .quiet accept_quiet fun b => ?_
  have closed : ∀ (ds : List (Declaration Unit)) (ms : List String),
      Noted ns (targetsInDeclarations ds) ms →
        Notes ms (do return (⟨.declare ds, ← located word⟩ : Statement Unit)) fun s ks =>
          Noted ns s.shape.targets ks :=
    fun ds ms hds => .quiet located_quiet fun _ => .pure hds
  have row : Records (upTo "]" (declaration sub turns) turns) targetsInDeclarations :=
    (upTo_records (declaration_records hs) turns).of_eq fun _ => targetsInDeclarations_eq.symm
  split
  · refine .bind (row ns) fun ds ms hds => ?_
    exact .guard unexpected_notes fun _ => .quiet next_quiet fun _ => closed ds ms hds
  · refine .bind (declaration_records hs ns) fun d ms hd => closed [d] ms ?_
    cases d
    exact hd.trans (.refl ms)

theorem binding?_quiet {min max : Nat} : Quiet (binding? min max) := by
  refine .bind peek?_quiet fun t => ?_
  split
  · exact .pure
  · split
    · exact .pure
    · split
      · exact .pure
      · split
        · exact .pure
        · exact .pure

include hs in
theorem climb_notes {min max : Nat} : ∀ (turns : Nat) {left : Expr Unit} {ms : List String},
    Noted ns left.targets ms → Notes ms (climb sub turns left min max) fun e ks =>
      Noted ns e.targets ks
  | 0, left, ms, hl => by
    rw [climb]
    refine .quiet binding?_quiet fun b => ?_
    split
    · exact .pure hl
    · exact .throw
  | n + 1, left, ms, hl => by
    rw [climb]
    refine .quiet binding?_quiet fun b => ?_
    split
    · exact .pure hl
    · refine .quiet next_quiet fun _ => .quiet located_quiet fun _ => ?_
      split
      · exact .bind (hs _ _ ms) fun r ks hr => climb_notes n (hl.trans hr)
      · refine .bind (hs _ _ ms) fun y ks hy => .quiet expect_quiet fun _ => ?_
        exact .bind (hs _ _ ks) fun o ls ho => climb_notes n (hl.trans (hy.trans ho))

include hs in
theorem loop_records : Records (loop sub location) Expr.targets := by
  refine inScope_records fun ns => option_notes hs fun b ms hb => ?_
  refine .quiet expect_quiet fun _ => .bind (hs _ _ ms) fun c ks hc => ?_
  split
  · exact .bind (some_records hs ks) fun a ls ha => .pure (hb.trans (hc.trans ha))
  · exact option_notes hs fun a ls ha => .pure (hb.trans (hc.trans ha))

include hs in
theorem registerStatement_records {register : Register} :
    Records (registerStatement sub register) (·.shape.targets) := by
  refine fun ns => .quiet expect_quiet fun _ => .get_bind fun r _ => .guard fail_notes fun _ => ?_
  refine .quiet located_quiet fun _ => .quiet accept_quiet fun b => ?_
  split
  · exact .bind (hs _ _ ns) fun e ms he => .pure he
  · refine .quiet peek?_quiet fun t => ?_
    split
    · exact .bind (hs _ _ ns) fun e ms he => .pure he
    · exact .pure (.refl ns)

include hs in
theorem statement_records : Records (statement sub turns) (·.shape.targets) := by
  refine fun ns => .quiet peek?_quiet fun t => ?_
  split
  · exact .bind (hs _ _ ns) fun _ _ he => .pure he
  · split
    · exact .bind (hs _ _ ns) fun _ _ he => .quiet located_quiet fun _ => .pure he
    · split
      · exact declarations_records hs ns
      · exact registerStatement_records hs ns
      · exact registerStatement_records hs ns
      · exact registerStatement_records hs ns
      · exact .quiet next_quiet fun _ => .quiet located_quiet fun _ => .pure (.refl ns)
      · exact .bind (hs _ _ ns) fun _ _ he => .quiet located_quiet fun _ => .pure he

include hs in
theorem block_records : Records (block sub turns location) Expr.targets := by
  have row : Records (upTo "\x7d" (statement sub turns) turns) targetsInStatements :=
    (upTo_records (statement_records hs) turns).of_eq fun _ => targetsInStatements_eq.symm
  exact fun ns => .quiet expect_quiet fun _ => .bind (inScope_records row ns) fun ss ms hss =>
    .quiet expect_quiet fun _ => .pure hss

include hs in
theorem keywordAtom_records {word : String} :
    Records (keywordAtom sub turns word location) Expr.targets := by
  intro ns
  unfold keywordAtom
  split
  · exact .quiet next_quiet fun _ => .pure (.refl ns)
  · exact .quiet next_quiet fun _ => .pure (.refl ns)
  · exact .quiet next_quiet fun _ => .pure (.refl ns)
  · exact .quiet next_quiet fun _ => .pure (.refl ns)
  · exact .quiet next_quiet fun _ => .bind (hs _ _ ns) fun _ _ he => .pure he
  · refine .quiet next_quiet fun _ => .bind (hs _ _ ns) fun t ms ht => ?_
    exact .bind (hs _ _ ms) fun a ks ha => .pure (ht.trans ha)
  · exact .quiet next_quiet fun _ => .bind (gotoTargets_records ns) fun _ _ h => .pure h
  · exact .quiet next_quiet fun _ => .bind (function_records hs ns) fun _ _ hf => .pure hf
  · exact .quiet next_quiet fun _ => .bind (hs _ _ ns) fun e ms he => switchOn_notes hs he
  · exact loop_records hs ns
  · exact loop_records hs ns
  · refine .quiet next_quiet fun _ => .bind (hs _ _ ns) fun c ms hc => ?_
    refine .bind (hs _ _ ms) fun y ks hy => option_notes hs fun o ls ho => ?_
    exact .pure (hc.trans (hy.trans ho))
  · exact unexpected_notes

include hs in
theorem punctuationAtom_records {mark : String} :
    Records (punctuationAtom sub turns mark location) Expr.targets := by
  intro ns
  unfold punctuationAtom
  split
  · refine .quiet next_quiet fun _ => .bind (hs _ _ ns) fun e ms he => ?_
    exact .quiet expect_quiet fun _ => .pure he
  · exact list_records hs ns
  · exact .quiet next_quiet fun _ => .bind (function_records hs ns) fun _ _ hf => .pure hf
  · exact block_records hs ns
  · exact unexpected_notes

include hs in
theorem atom_records : Records (atom sub turns) Expr.targets := by
  refine fun ns => .quiet peek?_quiet fun t => ?_
  split
  · exact unexpected_notes
  · refine .quiet located_quiet fun location => ?_
    split
    · exact .quiet next_quiet fun _ => .pure (.refl ns)
    · exact .quiet next_quiet fun _ => .pure (.refl ns)
    · exact .quiet next_quiet fun _ => .pure (.refl ns)
    · refine .quiet next_quiet fun _ => .quiet resolve_quiet fun b => ?_
      exact .guard fail_notes fun _ => .pure (.refl ns)
    · refine .quiet next_quiet fun _ => ?_
      split
      · exact .throw
      · exact .bind (hs _ _ ns) fun _ _ he => .pure he
    · exact keywordAtom_records hs ns
    · exact punctuationAtom_records hs ns

end Sub

theorem operand_records : ∀ n min max : Nat, Records (operand n min max) Expr.targets
  | 0, _, _, _ => .throw
  | n + 1, _, _, ns =>
    .bind (atom_records (operand_records n) ns) fun _ _ he => climb_notes (operand_records n) n he

end Grammar

/-! ## Documents -/

namespace Logic

open Tale.Parser Grammar

variable {sub : Operand} {ns : List String}

theorem version_quiet : Quiet version := by
  refine .bind expect_quiet fun _ => .bind take_quiet fun t ns => ?_
  split
  · simp only []
    split
    · exact .pure rfl
    · exact .throw
  · exact .throw

section Sub

variable (hs : ∀ min max, Records (sub min max) Expr.targets)

include hs in
theorem section_notes {earlier : List String} : Notes ns («section» sub earlier) fun s ms =>
    s.name ∉ earlier ∧ Noted ns s.targets ms := by
  refine .quiet expect_quiet fun word => .quiet take_quiet fun t => ?_
  refine .guard fail_notes fun hn => ?_
  rw [List.contains_iff_mem] at hn
  have rest : ∀ (executes : Option (Expr Unit)) (ms : List String),
      Noted ns (targetsInOption executes) ms → Notes ms (do
        let _ ← expect .keyword "then"
        let next ← expression sub
        return (⟨t.content, executes, next, [], ← located word⟩ : Section Unit)) fun s ks =>
          s.name ∉ earlier ∧ Noted ns s.targets ks := by
    intro executes ms he
    refine .quiet expect_quiet fun _ => .bind (hs _ _ ms) fun e ks hk => ?_
    exact .quiet located_quiet fun _ => .pure ⟨hn, he.trans hk⟩
  refine .quiet sees_quiet fun b => ?_
  split
  · exact rest none ns (.refl ns)
  · exact .bind (some_records hs ns) rest

/-- Sections with names of their own, none of them an earlier one, and with targets among those
noted. -/
def Apart (earlier ns : List String) (p : List (Statement Unit) × List (Section Unit))
    (ms : List String) : Prop :=
  (p.2.map (·.name)).Nodup ∧ (∀ x ∈ p.2, x.name ∉ earlier) ∧ ns ⊆ ms
    ∧ targetsInStatements p.1 ++ p.2.flatMap Section.targets ⊆ ms

include hs in
theorem blocks_notes : ∀ (turns : Nat) (earlier : List String) {ns : List String},
    Notes ns (blocks sub turns earlier) (Apart earlier ns)
  | 0, earlier, ns => by
    refine .quiet peek?_quiet fun t => ?_
    split
    · exact .pure ⟨.nil, fun _ => nofun, fun _ h => h, List.nil_subset _⟩
    · exact .throw
  | n + 1, earlier, ns => by
    refine .quiet peek?_quiet fun t => ?_
    split
    · exact .pure ⟨.nil, fun _ => nofun, fun _ h => h, List.nil_subset _⟩
    · refine .quiet sees_quiet fun b => ?_
      split
      · refine .bind (declarations_records hs ns) fun s ms hm => ?_
        refine .bind (blocks_notes n earlier) fun p ks hp => .pure ?_
        obtain ⟨hd, he, hk, ht⟩ := hp
        rw [hm] at hk
        cases s
        refine ⟨hd, he, List.Subset.trans (List.subset_append_left _ _) hk, ?_⟩
        simp only [targetsInStatements, List.append_subset] at ht ⊢
        exact ⟨⟨List.Subset.trans (List.subset_append_right _ _) hk, ht.1⟩, ht.2⟩
      · refine .quiet sees_quiet fun b => ?_
        split
        · refine .bind (section_notes hs) fun s ms hm => ?_
          refine .bind (blocks_notes n _) fun p ks hp => .pure ?_
          obtain ⟨hd, he, hk, ht⟩ := hp
          rw [hm.2] at hk
          refine ⟨List.nodup_cons.mpr ⟨fun hx => ?_, hd⟩, fun x hx => ?_,
            List.Subset.trans (List.subset_append_left _ _) hk, ?_⟩
          · obtain ⟨x, hx, hn⟩ := List.mem_map.mp hx
            exact he x hx (hn ▸ .head _)
          · rcases List.mem_cons.mp hx with rfl | hx
            · exact hm.1
            · exact fun h => he x hx (.tail _ h)
          · simp only [List.flatMap_cons, List.append_subset] at ht ⊢
            exact ⟨ht.1, List.Subset.trans (List.subset_append_right _ _) hk, ht.2⟩
        · exact unexpected_notes

end Sub

/-- What a loop checks holds of all that it goes through. -/
theorem forIn_checks {f : α → PUnit → Parser (ForInStep PUnit)} {P : α → Prop}
    (h : ∀ a ns, Notes ns (f a ⟨⟩) fun step ms => P a ∧ step = .yield ⟨⟩ ∧ ms = ns) :
    ∀ (as : List α) {ns : List String}, Notes ns (forIn as ⟨⟩ f) fun _ _ => ∀ a ∈ as, P a
  | [], _ => .pure fun _ => nofun
  | a :: as, ns => by
    rw [List.forIn_cons]
    refine .bind (h a ns) fun step ms hs => ?_
    rw [hs.2.1]
    refine (forIn_checks h as).mono fun _ _ has => ?_
    exact List.forall_mem_cons.mpr ⟨hs.1, has⟩

theorem logic_notes {room : Nat} : Notes [] (logic room) fun l _ =>
    (l.story.sections.map (·.name)).Nodup
      ∧ l.story.targets ⊆ l.story.sections.map (·.name) := by
  refine .quiet version_quiet fun v => ?_
  refine .bind (blocks_notes (operand_records room) room []) fun p ms hp => ?_
  refine .get_bind fun r hr => .bind (forIn_checks (P := fun t => t.content ∈ p.2.map (·.name))
    (fun t ns => ?_) _) fun _ _ hc => .pure ⟨hp.1, fun name hn => ?_⟩
  · refine .guard fail_notes fun hn => .pure ⟨?_, rfl, rfl⟩
    simpa using hn
  · have hm := hp.2.2.2 hn
    rw [← hr, Reading.noted, List.mem_reverse, List.mem_map] at hm
    obtain ⟨t, ht, rfl⟩ := hm
    exact hc t (List.mem_reverse.mpr ht)

theorem parse_targets {source : String} {mapped : Bool} {l : Logic}
    (h : Logic.parse source mapped = .ok l) : (l.story.sections.map (·.name)).Nodup
      ∧ l.story.targets ⊆ l.story.sections.map (·.name) := by
  obtain ⟨room, r, r', hl, -, -, ht⟩ := run_of_parse h
  exact logic_notes r (by rw [Reading.noted, ht]; rfl) l r' hl

end Logic

namespace Document

variable {γ : Type} {f : Section Unit → γ}
  (hf : ∀ (s : Section Unit) (k : Content), f { s with contents := s.contents ++ [k] } = f s)

include hf in
theorem attach_map {name : String} {k : Content} : ∀ {ss ss' : List (Section Unit)},
    attach name k ss = some ss' → ss'.map f = ss.map f
  | [], _, h => by cases h
  | s :: ss, ss', h => by
    simp only [attach] at h
    split at h
    · cases h
      rw [List.map_cons, List.map_cons, hf]
    · obtain ⟨tt, ht, rfl⟩ := Option.map_eq_some_iff.mp h
      rw [List.map_cons, List.map_cons, attach_map ht]

include hf in
/-- What contents are no part of stays when they are attached. -/
theorem attachAll_map {options : Options} {declared : List String} :
    ∀ {next : Nat} {raws : List RawContent} {ss ss' : List (Section Unit)},
      attachAll options declared next raws ss = .ok ss' → ss'.map f = ss.map f
  | _, [], _, _, h => by
    cases h
    rfl
  | next, raw :: raws, ss, ss', h => by
    obtain ⟨p, hp, h⟩ := ok_of_bind h
    obtain ⟨bounds, -, h⟩ := ok_of_bind h
    split at h
    · cases h
    · rename_i tt ht
      rw [attachAll_map h, attach_map hf ht]

theorem parse_targets {options : Options} {source : String} {story : Story Unit}
    (h : parse options source = .ok story) : (story.sections.map (·.name)).Nodup
      ∧ story.targets ⊆ story.sections.map (·.name) := by
  obtain ⟨l, hl, h⟩ := ok_of_bind h
  obtain ⟨sections, ha, h⟩ := ok_of_bind h
  cases h
  obtain ⟨hd, ht⟩ := Logic.parse_targets hl
  have hn := attachAll_map (f := (·.name)) (fun _ _ => rfl) ha
  have hs := attachAll_map (f := Section.targets) (fun _ _ => rfl) ha
  rw [← hn] at hd ht
  rw [Story.targets, List.flatMap, ← hs] at ht
  exact ⟨hd, ht⟩

end Document

end Tale
