import Tale.Language.Parser.Logic
import Tale.Proofs.Legal
import Tale.Proofs.Words

/-!
# Parsers that succeed

`Leads targets a b p V` says of a parser what it does if all goes well: with the words and the
scopes of `a` ahead it does not fail, comes to a value of which `V` holds, and has those of `b`
ahead then. The text goes on to its end without an error, and only `targets` are ever named.
-/

namespace Tale

open Words

variable {α β : Type}

def LexicalScope.level (s : LexicalScope) : Level :=
  ⟨s.declared, s.registers⟩

/-- What is ahead of a parser. -/
structure Ahead where
  words : List Word
  levels : Levels

structure Reading.At (r : Reading) (targets : List String) (a : Ahead) : Prop where
  words : r.tokens.map Token.word = a.words
  ending : ∃ location, r.ending = .ok location
  levels : r.scopes.map LexicalScope.level = a.levels
  targets (t : Token) (h : t ∈ r.targets) : t.content ∈ targets

def Leads (targets : List String) (a b : Ahead) (p : Parser α) (V : α → Prop) : Prop :=
  ∀ r : Reading, r.At targets a → ∃ x r', p r = .ok (x, r') ∧ r'.At targets b ∧ V x

namespace Leads

variable {targets : List String} {a b c : Ahead} {p : Parser α} {V : α → Prop} {U : β → Prop}

theorem bind {f : α → Parser β} (h : Leads targets a b p V)
    (hf : ∀ x, V x → Leads targets b c (f x) U) : Leads targets a c (p >>= f) U := by
  intro r hr
  obtain ⟨x, r₁, hx, hr₁, hv⟩ := h r hr
  obtain ⟨y, r₂, hy, hr₂, hu⟩ := hf x hv r₁ hr₁
  refine ⟨y, r₂, ?_, hr₂, hu⟩
  simp only [Bind.bind, StateT.bind, Except.bind, hx, hy]

theorem pure {x : α} (h : V x) : Leads targets a a (pure x) V :=
  fun r hr => ⟨x, r, rfl, hr, h⟩

theorem map {f : α → β} (h : Leads targets a b p V) (hf : ∀ x, V x → U (f x)) :
    Leads targets a b (f <$> p) U :=
  bind h fun x hx => pure (hf x hx)

theorem mono {V' : α → Prop} (h : Leads targets a b p V) (hv : ∀ x, V x → V' x) :
    Leads targets a b p V' := by
  intro r hr
  obtain ⟨x, r', hx, hr', h⟩ := h r hr
  exact ⟨x, r', hx, hr', hv x h⟩

theorem get_bind {f : Reading → Parser α}
    (h : ∀ r : Reading, r.At targets a → Leads targets a b (f r) V) :
    Leads targets a b (get >>= f) V :=
  fun r hr => h r hr r hr

theorem yes {k : Prop} [Decidable k] {q : Parser α} (hk : k) (h : Leads targets a b p V) :
    Leads targets a b (if k then p else q) V := by
  rwa [if_pos hk]

theorem no {k : Prop} [Decidable k] {q : Parser α} (hk : ¬ k) (h : Leads targets a b p V) :
    Leads targets a b (if k then q else p) V := by
  rwa [if_neg hk]

end Leads

namespace Levels

theorem declareAll_cons : ∀ (names : List String) (l : Level) (P : Levels),
    declareAll (l :: P) names = { l with names := names.reverse ++ l.names } :: P
  | [], _, _ => rfl
  | n :: ns, l, P => by
    rw [declareAll, List.foldl_cons, ← declareAll, declare, declareAll_cons ns]
    simp

theorem declareAll_append (P : Levels) (ns ms : List String) :
    P.declareAll (ns ++ ms) = (P.declareAll ns).declareAll ms :=
  List.foldl_append

end Levels

namespace Parser

variable {targets : List String} {a b : Ahead} {ws : List Word} {P : Levels} {kind : TokenKind}
  {content : String} {V : α → Prop}

theorem peek?_leads :
    Leads targets a a peek? fun t => t.map Token.word = a.words.head? := by
  intro r hr
  refine ⟨_, r, rfl, hr, ?_⟩
  rw [← hr.words, List.head?_map]

theorem peeked {w : Word} {f : Option Token → Parser α}
    (h : ∀ location, Leads targets ⟨w :: ws, P⟩ b (f (some ⟨w.1, w.2, location⟩)) V) :
    Leads targets ⟨w :: ws, P⟩ b (peek? >>= f) V := by
  refine .bind peek?_leads fun t ht => ?_
  obtain ⟨⟨kind, content, location⟩, rfl, rfl⟩ := Option.map_eq_some_iff.mp ht
  exact h location

theorem located_leads {t : Token} : Leads targets a a (located t) fun _ => True :=
  fun r hr => ⟨_, r, rfl, hr, trivial⟩

theorem set_leads {r : Reading} (h : r.At targets b) :
    Leads targets a b (set r) fun _ => True :=
  fun _ _ => ⟨_, r, rfl, h, trivial⟩

theorem next_leads {w : Word} : Leads targets ⟨w :: ws, P⟩ ⟨ws, P⟩ next (·.word = w) := by
  refine .get_bind fun r ⟨hw, ⟨location, he⟩, hl, ht⟩ => ?_
  rcases hr : r.tokens with _ | ⟨t, _ | ⟨t', ts⟩⟩ <;> rw [hr] at hw <;> cases hw
  · simp only [he]
    refine .bind (set_leads (b := ⟨_, P⟩) ⟨rfl, ⟨location, rfl⟩, hl, ht⟩) fun _ _ => .pure rfl
  · refine .bind (set_leads (b := ⟨_, P⟩) ⟨rfl, ⟨location, he⟩, hl, ht⟩) fun _ _ => .pure rfl

theorem sees_leads : Leads targets a a (sees kind content) fun s =>
    s = true → a.words.head? = some (kind, content) := by
  refine .bind peek?_leads fun t ht => .pure fun hs => ?_
  rw [← ht]
  rcases t with _ | ⟨_, _, _⟩
  · cases hs
  · simpa [Token.word] using hs

theorem seen {f : Bool → Parser α} (hw : a.words.head? = some (kind, content))
    (h : Leads targets a b (f true) V) : Leads targets a b (sees kind content >>= f) V := by
  refine .bind (V := (· = true)) (.bind peek?_leads fun t ht => .pure ?_) fun _ hb => hb ▸ h
  rw [hw, Option.map_eq_some_iff] at ht
  obtain ⟨⟨_, _, _⟩, rfl, ht⟩ := ht
  cases ht
  simp

theorem unseen {f : Bool → Parser α} (hw : a.words.head? ≠ some (kind, content))
    (h : Leads targets a b (f false) V) : Leads targets a b (sees kind content >>= f) V := by
  refine .bind (V := (· = false)) (.bind peek?_leads fun t ht => .pure ?_) fun _ hb => hb ▸ h
  rw [← ht] at hw
  rcases t with _ | ⟨_, _, _⟩
  · rfl
  · simpa [Token.word] using hw

theorem take_leads : Leads targets ⟨(kind, content) :: ws, P⟩ ⟨ws, P⟩ (take kind)
    (·.word = (kind, content)) :=
  peeked fun _ => .yes (by simp) next_leads

theorem expect_leads : Leads targets ⟨(kind, content) :: ws, P⟩ ⟨ws, P⟩ (expect kind content)
    (·.word = (kind, content)) :=
  seen rfl (.yes rfl next_leads)

theorem accepted {f : Bool → Parser α} (h : Leads targets ⟨ws, P⟩ b (f true) V) :
    Leads targets ⟨(kind, content) :: ws, P⟩ b (accept kind content >>= f) V := by
  refine .bind (V := (· = true)) (seen rfl (.yes rfl ?_)) fun _ hb => hb ▸ h
  exact .bind next_leads fun _ _ => .pure rfl

theorem unaccepted {f : Bool → Parser α} (hw : a.words.head? ≠ some (kind, content))
    (h : Leads targets a b (f false) V) : Leads targets a b (accept kind content >>= f) V :=
  .bind (V := (· = false)) (unseen hw (.no Bool.false_ne_true (.pure rfl))) fun _ hb => hb ▸ h

/-! ### Scopes -/

theorem modifyScopes_leads {f : LexicalScopes → LexicalScopes} {Q : Levels}
    (hf : ∀ ss : LexicalScopes, ss.map LexicalScope.level = P →
      (f ss).map LexicalScope.level = Q) :
    Leads targets ⟨ws, P⟩ ⟨ws, Q⟩ (modifyScopes f) fun _ => True :=
  fun _ hr => ⟨_, _, rfl, ⟨hr.words, hr.ending, hf _ hr.levels, hr.targets⟩, trivial⟩

theorem exit_leads {l : Level} :
    Leads targets ⟨ws, l :: P⟩ ⟨ws, P⟩ (modifyScopes .exit) fun _ => True := by
  refine modifyScopes_leads fun ss hs => ?_
  rw [LexicalScopes.exit, List.map_tail, hs, List.tail_cons]

theorem declare_leads {name : String} : Leads targets ⟨ws, P⟩ ⟨ws, P.declare name⟩
    (modifyScopes (·.declare name)) fun _ => True := by
  refine modifyScopes_leads fun ss hs => ?_
  subst hs
  cases ss <;> rfl

theorem declareAll_leads {names : List String} : Leads targets ⟨ws, P⟩ ⟨ws, P.declareAll names⟩
    (modifyScopes (·.declareAll names)) fun _ => True := by
  refine modifyScopes_leads fun ss hs => ?_
  subst hs
  induction names generalizing ss with
  | nil => rfl
  | cons n ns ih =>
    have hd : (ss.declare n).map LexicalScope.level
        = Levels.declare n (ss.map LexicalScope.level) := by
      cases ss <;> rfl
    rw [LexicalScopes.declareAll, List.foldl_cons, ← LexicalScopes.declareAll, ih, hd]
    rfl

theorem inScope_leads {p : Parser α} {r : Register} {ws' : List Word} {l : Level}
    (h : Leads targets ⟨ws, P.enter r⟩ ⟨ws', l :: P⟩ p V) :
    Leads targets ⟨ws, P⟩ ⟨ws', P⟩ (inScope r p) V := by
  refine .bind (modifyScopes_leads (Q := P.enter r) fun ss hs => ?_) fun _ _ => ?_
  · subst hs
    rfl
  · exact .bind h fun _ hx => .bind exit_leads fun _ _ => .pure hx

theorem inFunction_leads {p : Parser α} {ws' : List Word} {l : Level}
    (h : Leads targets ⟨ws, P.enter .return⟩ ⟨ws', l :: P⟩ p V) :
    Leads targets ⟨ws, P⟩ ⟨ws', P⟩ (inFunction p) fun x => V x.1 := by
  refine .bind (modifyScopes_leads (Q := P.enter .return) fun ss hs => ?_) fun _ _ => ?_
  · subst hs
    rfl
  · exact .bind h fun _ hx => .get_bind fun _ _ => .bind exit_leads fun _ _ => .pure hx

theorem resolve_found {name : String} : ∀ {ss : LexicalScopes},
    Levels.Sees (ss.map LexicalScope.level) name → (ss.resolve name).1 = true
      ∧ (ss.resolve name).2.map LexicalScope.level = ss.map LexicalScope.level
  | [], h => by
    obtain ⟨_, hl, _⟩ := h
    cases hl
  | s :: ss, h => by
    simp only [LexicalScopes.resolve]
    split
    · exact ⟨rfl, rfl⟩
    · rename_i hs
      obtain ⟨l, hl, hn⟩ := h
      rcases List.mem_cons.mp hl with rfl | hl
      · exact absurd (List.contains_iff_mem.mpr hn) hs
      · have ih := resolve_found ⟨l, hl, hn⟩
        refine ⟨ih.1, ?_⟩
        rw [List.map_cons, List.map_cons, ih.2]
        rfl

theorem resolve_leads {name : String} (h : P.Sees name) :
    Leads targets ⟨ws, P⟩ ⟨ws, P⟩ (resolve name) (· = true) := by
  intro r hr
  have hl : r.scopes.map LexicalScope.level = P := hr.levels
  obtain ⟨hf, hs⟩ := resolve_found (hl ▸ h)
  exact ⟨_, _, rfl, ⟨hr.words, hr.ending, hs.trans hr.levels, hr.targets⟩, hf⟩

theorem not_declaresHere {r : Reading} {name : String} (hr : r.At targets ⟨ws, P⟩)
    (h : ¬ P.DeclaresHere name) : ¬ r.scopes.declaresHere name = true := by
  intro hd
  have hl : r.scopes.map LexicalScope.level = P := hr.levels
  subst hl
  rcases hs : r.scopes with _ | ⟨s, ss⟩ <;> rw [hs] at hd h
  · cases hd
  · refine h ⟨s.level, rfl, (?_ : name ∈ s.declared)⟩
    simpa [LexicalScopes.declaresHere] using hd

theorem hasRegister {r : Reading} {register : Register} (hr : r.At targets ⟨ws, P⟩)
    (h : P.Has register) : r.scopes.hasRegister register = true := by
  obtain ⟨l, hl, hm⟩ := h
  have hs : r.scopes.map LexicalScope.level = P := hr.levels
  obtain ⟨s, hs, rfl⟩ := List.mem_map.mp (hs ▸ hl)
  exact List.any_eq_true.mpr ⟨s, hs, List.contains_iff_mem.mpr hm⟩

/-! ### Rows -/

theorem repeatWhile_done {more : Parser Bool} {item : Parser α} {turns : Nat}
    {W : List α → Prop} (hm : Leads targets a a more (· = false)) (h : W []) :
    Leads targets a a (repeatWhile more item turns) W := by
  rw [repeatWhile.eq_def]
  exact .bind hm fun _ hb => .yes (by simp [hb]) (.pure h)

theorem repeatWhile_more {more : Parser Bool} {item : Parser α} {turns : Nat} {U W : List α → Prop}
    {c : Ahead} (hm : Leads targets a a more (· = true)) (hi : Leads targets a b item V)
    (hr : Leads targets b c (repeatWhile more item turns) U)
    (h : ∀ x xs, V x → U xs → W (x :: xs)) :
    Leads targets a c (repeatWhile more item (turns + 1)) W := by
  rw [repeatWhile]
  refine .bind hm fun _ hb => .no (by simp [hb]) (.bind hi fun x hx => ?_)
  exact .bind hr fun xs hxs => .pure (h x xs hx hxs)

theorem upTo_done {close : String} {item : Parser α} {turns : Nat} {W : List α → Prop} (h : W []) :
    Leads targets ⟨mark close :: ws, P⟩ ⟨mark close :: ws, P⟩ (upTo close item turns) W :=
  repeatWhile_done (seen rfl (.pure rfl)) h

theorem upTo_more {close : String} {item : Parser α} {turns : Nat} {U W : List α → Prop}
    {c : Ahead} (hw : a.words.head? ≠ some (mark close)) (hi : Leads targets a b item V)
    (hr : Leads targets b c (upTo close item turns) U) (h : ∀ x xs, V x → U xs → W (x :: xs)) :
    Leads targets a c (upTo close item (turns + 1)) W :=
  repeatWhile_more (unseen hw (.pure rfl)) hi hr h

end Parser

end Tale
