import Tale.Document.Parse
import Tale.Proofs.Places

/-!
# Reading without places

A document can be read with the places of its parts or without them. `Mirrors f p q` says that
`q`, reading without places, fails just as `p` does, and else reads what `f` makes of what `p`
reads. Each rule of the grammar mirrors itself, and `f` takes the places off the tree: whether
places are kept is asked only where a place goes into a tree, and no rule looks at a place in one.
-/

namespace Tale

variable {α β γ : Type}

/-- Every place taken off. -/
def noPlace (_ : Option Location) : Option Location :=
  none

/-! ## Parsers -/

def Reading.unmapped (r : Reading) : Reading :=
  { r with mapped := false }

def Mirrors (f : α → β) (p : Parser α) (q : Parser β) : Prop :=
  ∀ r : Reading, q r.unmapped = (p r).map fun x => (f x.1, x.2.unmapped)

namespace Mirrors

variable {f : α → β} {p : Parser α} {q : Parser β}

theorem pure {a : α} {b : β} (h : f a = b) : Mirrors f (pure a) (pure b) :=
  fun _ => by rw [← h]; rfl

theorem throw {e : SourceError} : Mirrors f (throw e) (throw e) :=
  fun _ => rfl

theorem bind {δ : Type} {g : γ → δ} {k : α → Parser γ} {l : β → Parser δ} (h : Mirrors f p q)
    (hk : ∀ a, Mirrors g (k a) (l (f a))) : Mirrors g (p >>= k) (q >>= l) := by
  intro r
  simp only [Bind.bind, StateT.bind, Except.bind, h r]
  rcases p r with e | ⟨a, r'⟩
  · rfl
  · exact hk a r'

/-- What is read without a place in it is the same. -/
theorem step {p q : Parser γ} {k : γ → Parser α} {l : γ → Parser β} (h : Mirrors id p q)
    (hk : ∀ c, Mirrors f (k c) (l c)) : Mirrors f (p >>= k) (q >>= l) :=
  bind h hk

theorem get_bind {k : Reading → Parser α} {l : Reading → Parser β}
    (h : ∀ r, Mirrors f (k r) (l r.unmapped)) : Mirrors f (get >>= k) (get >>= l) :=
  fun r => h r r

theorem map {δ : Type} {g : γ → δ} {m : α → γ} {n : β → δ} (h : Mirrors f p q)
    (hm : ∀ a, g (m a) = n (f a)) : Mirrors g (m <$> p) (n <$> q) :=
  bind (k := fun a => Pure.pure (m a)) (l := fun b => Pure.pure (n b)) h fun a => pure (hm a)

/-- A parser that fails first if it has to. -/
theorem guard {c : Prop} [Decidable c] {x y : Parser PUnit} {k : PUnit → Parser α}
    {l : PUnit → Parser β} (hx : Mirrors id x y) (h : Mirrors f (k ⟨⟩) (l ⟨⟩)) :
    Mirrors f (if c then x >>= k else k ⟨⟩) (if c then y >>= l else l ⟨⟩) := by
  split
  · exact step hx fun _ => h
  · exact h

end Mirrors

namespace Parser

theorem fail_mirrors {f : α → β} {cause : SourceError.Cause} {location : Option Location} :
    Mirrors f (fail cause location) (fail cause location) :=
  .throw

theorem peek?_mirrors : Mirrors id peek? peek? :=
  fun _ => rfl

theorem endLocation_mirrors : Mirrors id endLocation endLocation :=
  fun _ => rfl

theorem unexpected_mirrors {f : α → β} {expected : String} :
    Mirrors f (unexpected expected) (unexpected expected) := by
  refine .step peek?_mirrors fun t => ?_
  rcases t with _ | t
  · exact .step endLocation_mirrors fun _ => .throw
  · exact .throw

theorem next_mirrors : Mirrors id next next := by
  intro r
  obtain ⟨tokens, ending, mapped, scopes, targets⟩ := r
  rcases tokens with _ | ⟨t, _ | ⟨u, ts⟩⟩
  · rfl
  · rcases ending with e | l <;> rfl
  · rfl

theorem sees_mirrors {kind : TokenKind} {content : String} :
    Mirrors id (sees kind content) (sees kind content) :=
  fun _ => rfl

theorem take_mirrors {kind : TokenKind} : Mirrors id (take kind) (take kind) := by
  refine .step peek?_mirrors fun t => ?_
  split
  · exact next_mirrors
  · exact unexpected_mirrors

theorem expect_mirrors {kind : TokenKind} {content : String} :
    Mirrors id (expect kind content) (expect kind content) := by
  refine .step sees_mirrors fun b => ?_
  split
  · exact next_mirrors
  · exact unexpected_mirrors

theorem accept_mirrors {kind : TokenKind} {content : String} :
    Mirrors id (accept kind content) (accept kind content) := by
  refine .step sees_mirrors fun b => ?_
  split
  · exact .step next_mirrors fun _ => .pure rfl
  · exact .pure rfl

/-- The one question whether places are kept. -/
theorem located_mirrors {t : Token} : Mirrors noPlace (located t) (located t) :=
  fun _ => rfl

theorem modifyScopes_mirrors {f : LexicalScopes → LexicalScopes} :
    Mirrors id (modifyScopes f) (modifyScopes f) :=
  fun _ => rfl

theorem resolve_mirrors {name : String} : Mirrors id (resolve name) (resolve name) :=
  fun _ => rfl

section Items

variable {f : α → β} {item : Parser α} {item' : Parser β}

theorem repeatWhile_mirrors {more : Parser Bool} (hm : Mirrors id more more)
    (hi : Mirrors f item item') : ∀ turns : Nat,
      Mirrors (List.map f) (repeatWhile more item turns) (repeatWhile more item' turns)
  | 0 => by
    refine .step hm fun b => ?_
    split
    · exact .pure rfl
    · exact .throw
  | n + 1 => by
    refine .step hm fun b => ?_
    split
    · exact .pure rfl
    · exact .bind hi fun a => .bind (repeatWhile_mirrors hm hi n) fun as => .pure rfl

theorem upTo_mirrors {close : String} (hi : Mirrors f item item') (turns : Nat) :
    Mirrors (List.map f) (upTo close item turns) (upTo close item' turns) := by
  have more : Mirrors id (do return !(← sees .punctuation close))
      (do return !(← sees .punctuation close)) :=
    .step sees_mirrors fun _ => .pure rfl
  exact repeatWhile_mirrors more hi turns

theorem inScope_mirrors {register : Register} (h : Mirrors f item item') :
    Mirrors f (inScope register item) (inScope register item') :=
  .step modifyScopes_mirrors fun _ => .bind h fun _ => .step modifyScopes_mirrors fun _ =>
    .pure rfl

theorem inFunction_mirrors (h : Mirrors f item item') :
    Mirrors (fun p => (f p.1, p.2)) (inFunction item) (inFunction item') :=
  .step modifyScopes_mirrors fun _ => .bind h fun _ => .get_bind fun _ =>
    .step modifyScopes_mirrors fun _ => .pure rfl

end Items

end Parser

/-! ## Rows of a tree -/

section Rows

variable {ι : Type} (σ : Option Location → Option Location)

def Element.relocate : Element ι → Element ι
  | .item e => .item (e.relocate σ)
  | .spread e location => .spread (e.relocate σ) (σ location)

def Declaration.relocate (d : Declaration ι) : Declaration ι :=
  ⟨d.name, d.bound, relocateOption σ d.initial, σ d.location⟩

def Statement.relocate (s : Statement ι) : Statement ι :=
  ⟨s.shape.relocate σ, σ s.location⟩

theorem relocateElements_eq (es : List (Element ι)) :
    relocateElements σ es = es.map (Element.relocate σ) := by
  induction es with
  | nil => rfl
  | cons e es ih => cases e <;> rw [relocateElements, ih, List.map_cons, Element.relocate]

theorem relocateDeclarations_eq (ds : List (Declaration ι)) :
    relocateDeclarations σ ds = ds.map (Declaration.relocate σ) := by
  induction ds with
  | nil => rfl
  | cons d ds ih =>
    cases d
    rw [relocateDeclarations, ih, List.map_cons, Declaration.relocate]

theorem relocateStatements_eq (ss : List (Statement ι)) :
    relocateStatements σ ss = ss.map (Statement.relocate σ) := by
  induction ss with
  | nil => rfl
  | cons s ss ih =>
    cases s
    rw [relocateStatements, ih, List.map_cons, Statement.relocate]

end Rows

/-! ## Expressions and statements -/

namespace Grammar

open Tale.Parser

variable {sub : Operand} {turns : Nat} {location : Option Location}

theorem typeBound_mirrors : Mirrors id (typeBound turns) (typeBound turns) := by
  refine .bind (repeatWhile_mirrors (f := id) (.step peek?_mirrors fun _ => .pure rfl)
    (.step next_mirrors fun _ => .pure rfl) turns) fun ts => ?_
  rw [List.map_id]
  exact .pure rfl

theorem sectionName_mirrors : Mirrors id sectionName sectionName :=
  .step take_mirrors fun _ => .step (fun _ => rfl) fun _ => .pure rfl

theorem gotoTargets_mirrors : Mirrors id (gotoTargets turns) (gotoTargets turns) := by
  refine .step accept_mirrors fun b => ?_
  split
  · refine .bind (upTo_mirrors sectionName_mirrors turns) fun names =>
      .step next_mirrors fun _ => .pure ?_
    rw [List.map_id]
    rfl
  · exact .step sectionName_mirrors fun _ => .pure rfl

section Sub

variable (hs : ∀ min max, Mirrors (Expr.relocate noPlace) (sub min max) (sub min max))

include hs in
theorem some_mirrors : Mirrors (relocateOption noPlace) (some <$> expression sub)
    (some <$> expression sub) :=
  .map (hs _ _) fun _ => rfl

include hs in
/-- An expression that may be missing. -/
theorem option_mirrors {kind : TokenKind} {content : String} {f : α → β}
    {k : Option (Expr Unit) → Parser α} {l : Option (Expr Unit) → Parser β}
    (hk : ∀ e, Mirrors f (k e) (l (relocateOption noPlace e))) :
    Mirrors f
      (do
        if ← accept kind content then
          let e ← some <$> expression sub
          k e
        else
          let e ← pure none
          k e)
      (do
        if ← accept kind content then
          let e ← some <$> expression sub
          l e
        else
          let e ← pure none
          l e) := by
  refine .step accept_mirrors fun b => ?_
  split
  · exact .bind (some_mirrors hs) hk
  · exact hk none

include hs in
theorem element_mirrors : Mirrors (Element.relocate noPlace) (element sub) (element sub) := by
  refine .step sees_mirrors fun b => ?_
  split
  · exact .step next_mirrors fun t => .bind (hs _ _) fun e => .bind located_mirrors fun _ =>
      .pure rfl
  · exact .bind (hs _ _) fun e => .pure rfl

include hs in
theorem list_mirrors : Mirrors (Expr.relocate noPlace) (list sub turns) (list sub turns) := by
  refine .step expect_mirrors fun _ => .bind (upTo_mirrors (element_mirrors hs) turns) fun es =>
    .step expect_mirrors fun _ => .bind located_mirrors fun _ => .pure ?_
  rw [Expr.relocate, Shape.relocate, relocateElements_eq]

include hs in
theorem switchCases_mirrors : ∀ turns,
    Mirrors (fun p => (relocateCases noPlace p.1, relocateOption noPlace p.2))
      (switchCases sub turns) (switchCases sub turns)
  | 0 => by
    refine .step sees_mirrors fun b => ?_
    split
    · exact .pure rfl
    · exact .throw
  | n + 1 => by
    refine .step sees_mirrors fun b => ?_
    split
    · exact .pure rfl
    · refine .bind (hs _ _) fun p => .step sees_mirrors fun b => ?_
      split
      · exact .pure rfl
      · exact .bind (hs _ _) fun r => .bind (switchCases_mirrors n) fun p => .pure rfl

include hs in
theorem switchOn_mirrors {subject : Expr Unit} :
    Mirrors (Expr.relocate noPlace) (switchOn sub turns subject location)
      (switchOn sub turns (subject.relocate noPlace) none) :=
  .step expect_mirrors fun _ => .bind (switchCases_mirrors hs turns) fun _ =>
    .step expect_mirrors fun _ => .pure rfl

include hs in
theorem parameters_mirrors : ∀ turns used,
    Mirrors (fun p => (relocateParameters noPlace p.1, p.2)) (parameters sub turns used)
      (parameters sub turns used)
  | 0, used => by
    refine .step sees_mirrors fun b => ?_
    split
    · exact .pure rfl
    · refine .step accept_mirrors fun b => ?_
      split
      · exact .step take_mirrors fun t => .guard fail_mirrors (.pure rfl)
      · exact .throw
  | n + 1, used => by
    refine .step sees_mirrors fun b => ?_
    split
    · exact .pure rfl
    · refine .step accept_mirrors fun b => ?_
      split
      · exact .step take_mirrors fun t => .guard fail_mirrors (.pure rfl)
      · exact .step typeBound_mirrors fun bound => .step take_mirrors fun t =>
          .guard fail_mirrors (option_mirrors hs fun e => .bind located_mirrors fun _ =>
            .bind (parameters_mirrors n _) fun p => .pure rfl)

include hs in
theorem functionParts_mirrors {full : Bool} :
    Mirrors (fun p => (relocateParameters noPlace p.1, p.2.1, p.2.2.relocate noPlace))
      (functionParts sub turns full) (functionParts sub turns full) := by
  refine .step sees_mirrors fun b => ?_
  split
  · exact .bind (hs _ _) fun e => .pure rfl
  · refine .step sees_mirrors fun b => ?_
    split
    · exact .step next_mirrors fun t => .bind located_mirrors fun location =>
        .bind (switchOn_mirrors hs) fun body => .step modifyScopes_mirrors fun _ => .pure rfl
    · refine .step expect_mirrors fun _ => .bind (parameters_mirrors hs turns []) fun p =>
        .step expect_mirrors fun _ => ?_
      simp only [relocateParameters_names]
      exact .step modifyScopes_mirrors fun _ => .bind (hs _ _) fun e => .pure rfl

include hs in
theorem function_mirrors {full : Bool} : Mirrors (FunctionExpr.relocate noPlace)
    (function sub turns full) (function sub turns full) :=
  .bind (inFunction_mirrors (functionParts_mirrors hs)) fun _ => .pure rfl

include hs in
theorem declaration_mirrors : Mirrors (Declaration.relocate noPlace) (declaration sub turns)
    (declaration sub turns) := by
  refine .step typeBound_mirrors fun bound => .step take_mirrors fun t => ?_
  have short : Mirrors id
      (pure (bound == some [.function]) <&&> (sees .punctuation "[" <||> sees .keyword "switch"))
      (pure (bound == some [.function])
        <&&> (sees .punctuation "[" <||> sees .keyword "switch")) := by
    refine .step (.pure rfl) fun b => ?_
    cases b with
    | false => exact .pure rfl
    | true =>
      refine .step sees_mirrors fun b => ?_
      cases b with
      | false => exact sees_mirrors
      | true => exact .pure rfl
  refine .step short fun _ => .bind located_mirrors fun location => ?_
  have declared (initial : Option (Expr Unit)) : Mirrors (Declaration.relocate noPlace)
      (do
        if (← get).scopes.declaresHere t.content then failAt t (.variableRepeated t.content)
        modifyScopes (·.declare t.content)
        return (⟨t.content, bound, initial, location⟩ : Declaration Unit))
      (do
        if (← get).scopes.declaresHere t.content then failAt t (.variableRepeated t.content)
        modifyScopes (·.declare t.content)
        return (⟨t.content, bound, relocateOption noPlace initial, none⟩ : Declaration Unit)) :=
    .get_bind fun r => .guard fail_mirrors (.step modifyScopes_mirrors fun _ => .pure rfl)
  refine .step accept_mirrors fun b => ?_
  split
  · exact .bind (some_mirrors hs) declared
  · split
    · exact .bind (function_mirrors hs) fun f => declared (some ⟨.function f, location⟩)
    · exact declared none

include hs in
theorem declarations_mirrors : Mirrors (Statement.relocate noPlace) (declarations sub turns)
    (declarations sub turns) := by
  refine .step expect_mirrors fun word => .step accept_mirrors fun b => ?_
  have closed (ds : List (Declaration Unit)) : Mirrors (Statement.relocate noPlace)
      (do return (⟨.declare ds, ← located word⟩ : Statement Unit))
      (do return (⟨.declare (ds.map (Declaration.relocate noPlace)), ← located word⟩ :
        Statement Unit)) := by
    refine .bind located_mirrors fun _ => .pure ?_
    rw [← relocateDeclarations_eq]
    rfl
  split
  · refine .bind (upTo_mirrors (declaration_mirrors hs) turns) fun ds => ?_
    rw [List.isEmpty_map]
    exact .guard unexpected_mirrors (.step next_mirrors fun _ => closed ds)
  · exact .bind (declaration_mirrors hs) fun d => closed [d]

theorem binding?_mirrors {min max : Nat} : Mirrors id (binding? min max) (binding? min max) := by
  refine .step peek?_mirrors fun t => ?_
  split
  · exact .pure rfl
  · split
    · exact .pure rfl
    · split
      · exact .pure rfl
      · split
        · exact .pure rfl
        · exact .pure rfl

include hs in
theorem climb_mirrors {min max : Nat} : ∀ (turns : Nat) (left : Expr Unit),
    Mirrors (Expr.relocate noPlace) (climb sub turns left min max)
      (climb sub turns (left.relocate noPlace) min max)
  | 0, left => by
    rw [climb, climb]
    refine .step binding?_mirrors fun b => ?_
    split
    · exact .pure rfl
    · exact .throw
  | n + 1, left => by
    rw [climb, climb]
    refine .step binding?_mirrors fun b => ?_
    split
    · exact .pure rfl
    · refine .step next_mirrors fun _ => .bind located_mirrors fun _ => ?_
      split
      · exact .bind (hs _ _) fun r => climb_mirrors n _
      · exact .bind (hs _ _) fun y => .step expect_mirrors fun _ => .bind (hs _ _) fun o =>
          climb_mirrors n _

include hs in
theorem loop_mirrors :
    Mirrors (Expr.relocate noPlace) (loop sub location) (loop sub none) := by
  refine inScope_mirrors (option_mirrors hs fun b => .step expect_mirrors fun _ =>
    .bind (hs _ _) fun c => ?_)
  rcases b with _ | b
  · exact .bind (some_mirrors hs) fun a => .pure rfl
  · exact option_mirrors hs fun a => .pure rfl

include hs in
theorem registerStatement_mirrors {register : Register} : Mirrors (Statement.relocate noPlace)
    (registerStatement sub register) (registerStatement sub register) := by
  refine .step expect_mirrors fun _ => .get_bind fun r => .guard fail_mirrors
    (.bind located_mirrors fun _ => .step accept_mirrors fun b => ?_)
  split
  · exact .bind (hs _ _) fun e => .pure rfl
  · refine .step peek?_mirrors fun t => ?_
    split
    · exact .bind (hs _ _) fun e => .pure rfl
    · exact .pure rfl

include hs in
theorem statement_mirrors : Mirrors (Statement.relocate noPlace) (statement sub turns)
    (statement sub turns) := by
  refine .step peek?_mirrors fun t => ?_
  split
  · exact .bind (hs _ _) fun _ => .pure rfl
  · split
    · exact .bind (hs _ _) fun _ => .bind located_mirrors fun _ => .pure rfl
    · split
      · exact declarations_mirrors hs
      · exact registerStatement_mirrors hs
      · exact registerStatement_mirrors hs
      · exact registerStatement_mirrors hs
      · exact .step next_mirrors fun _ => .bind located_mirrors fun _ => .pure rfl
      · exact .bind (hs _ _) fun _ => .bind located_mirrors fun _ => .pure rfl

include hs in
theorem block_mirrors :
    Mirrors (Expr.relocate noPlace) (block sub turns location) (block sub turns none) := by
  refine .step expect_mirrors fun _ =>
    .bind (inScope_mirrors (upTo_mirrors (statement_mirrors hs) turns)) fun ss =>
      .step expect_mirrors fun _ => .pure ?_
  rw [Expr.relocate, Shape.relocate, relocateStatements_eq]
  rfl

include hs in
theorem keywordAtom_mirrors {word : String} : Mirrors (Expr.relocate noPlace)
    (keywordAtom sub turns word location) (keywordAtom sub turns word none) := by
  unfold keywordAtom
  split
  · exact .step next_mirrors fun _ => .pure rfl
  · exact .step next_mirrors fun _ => .pure rfl
  · exact .step next_mirrors fun _ => .pure rfl
  · exact .step next_mirrors fun _ => .pure rfl
  · exact .step next_mirrors fun _ => .bind (hs _ _) fun _ => .pure rfl
  · exact .step next_mirrors fun _ => .bind (hs _ _) fun _ => .bind (hs _ _) fun _ => .pure rfl
  · exact .step next_mirrors fun _ => .step gotoTargets_mirrors fun _ => .pure rfl
  · exact .step next_mirrors fun _ => .bind (function_mirrors hs) fun _ => .pure rfl
  · exact .step next_mirrors fun _ => .bind (hs _ _) fun _ => switchOn_mirrors hs
  · exact loop_mirrors hs
  · exact loop_mirrors hs
  · exact .step next_mirrors fun _ => .bind (hs _ _) fun _ => .bind (hs _ _) fun _ =>
      option_mirrors hs fun _ => .pure rfl
  · exact unexpected_mirrors

include hs in
theorem punctuationAtom_mirrors {mark : String} : Mirrors (Expr.relocate noPlace)
    (punctuationAtom sub turns mark location) (punctuationAtom sub turns mark none) := by
  unfold punctuationAtom
  split
  · exact .step next_mirrors fun _ => .bind (hs _ _) fun _ => .step expect_mirrors fun _ =>
      .pure rfl
  · exact list_mirrors hs
  · exact .step next_mirrors fun _ => .bind (function_mirrors hs) fun _ => .pure rfl
  · exact block_mirrors hs
  · exact unexpected_mirrors

include hs in
theorem atom_mirrors : Mirrors (Expr.relocate noPlace) (atom sub turns) (atom sub turns) := by
  refine .step peek?_mirrors fun t => ?_
  rcases t with _ | t
  · exact unexpected_mirrors
  · refine .bind located_mirrors fun location => ?_
    split
    · exact .step next_mirrors fun _ => .pure rfl
    · exact .step next_mirrors fun _ => .pure rfl
    · exact .step next_mirrors fun _ => .pure rfl
    · exact .step next_mirrors fun _ => .step resolve_mirrors fun _ =>
        .guard fail_mirrors (.pure rfl)
    · refine .step next_mirrors fun _ => ?_
      split
      · exact .throw
      · exact .bind (hs _ _) fun _ => .pure rfl
    · exact keywordAtom_mirrors hs
    · exact punctuationAtom_mirrors hs

end Sub

theorem operand_mirrors : ∀ n min max : Nat,
    Mirrors (Expr.relocate noPlace) (operand n min max) (operand n min max)
  | 0, _, _ => .throw
  | n + 1, _, _ =>
    .bind (atom_mirrors (operand_mirrors n)) fun _ => climb_mirrors (operand_mirrors n) n _

end Grammar

end Tale
