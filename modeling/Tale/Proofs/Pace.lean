import Tale.Language.Parser.Logic

/-!
# What a parse comes to

The rules of the grammar read expressions through a reader one level down. `Course` follows a rule
from a reading to its outcome, through the expressions that it reads on its way. Each rule takes a
token before it reads an expression where the rule itself began, and each turn of a row takes a
token, so at every expression less is left than at the one before it. So no room runs out where
there is room for what is left (`Grammar.operand_paced`).

A course is not bound to the end of the text either: what is read with tokens to spare is read in
the same way when more tokens follow.
-/

namespace Tale

variable {α β : Type}

/-! ## Readings and calls -/

/-- How much is left to read. -/
def Reading.left (r : Reading) : Nat :=
  r.tokens.length

/-- Tokens behind those that are left, and how they end. -/
abbrev Sequel := Option (List Token × Except SourceError Location)

def Reading.followed (r : Reading) (s : Sequel) : Reading :=
  { r with
    tokens := s.elim r.tokens fun s => r.tokens ++ s.1
    ending := s.elim r.ending fun s => s.2 }

theorem Reading.left_followed (r : Reading) (s : Sequel) :
    (r.followed s).left = r.left + s.elim 0 fun s => s.1.length := by
  rcases s with _ | s
  · rfl
  · exact List.length_append

/-- An expression that is to be read. -/
structure Call where
  min : Nat
  max : Nat
  reading : Reading

def Call.followed (c : Call) (s : Sequel) : Call :=
  { c with reading := c.reading.followed s }

/-- There is something left after an outcome, if anything follows. -/
def Follows (s : Sequel) (x : Except SourceError (α × Reading)) : Prop :=
  s = none ∨ ∃ a r, x = .ok (a, r) ∧ r.tokens ≠ []

theorem Follows.earlier {s : Sequel} {y : Except SourceError (β × Reading)} (h : Follows s y)
    {a : α} {r : Reading} (hle : ∀ b r', y = .ok (b, r') → r'.left ≤ r.left) :
    Follows s (.ok (a, r) : Except SourceError (α × Reading)) := by
  rcases h with h | ⟨b, r', hb, hne⟩
  · exact .inl h
  · have hpos : 0 < r'.left := List.length_pos_iff.mpr hne
    exact .inr ⟨a, r, rfl, List.ne_nil_of_length_pos (Nat.lt_of_lt_of_le hpos (hle b r' hb))⟩

namespace Grammar

/-- The rule for expressions. -/
def rule (sub : Operand) (turns : Nat) : Operand :=
  fun min max => do climb sub turns (← atom sub turns) min max

end Grammar

/-- A rule of the grammar, given the reader of expressions one level down, and the turns that rows
may take. -/
abbrev Production (α : Type) := Operand → Nat → Parser α

/-- A reader goes by the rule for expressions at a call. -/
def Call.Solved (sub : Operand) (c : Call) : Prop :=
  ∃ turns, c.reading.left ≤ turns
    ∧ sub c.min c.max c.reading = Grammar.rule sub turns c.min c.max c.reading

/-- A reader goes by the rule for expressions at the first of some calls. Whatever is read inside of
it or after it is among the calls that come later. -/
def Obeys : Operand → List Call → Prop
  | _, [] => True
  | sub, c :: cs => Obeys sub cs ∧ ∃ sub' turns, Obeys sub' cs ∧ c.reading.left ≤ turns
      ∧ sub c.min c.max c.reading = Grammar.rule sub' turns c.min c.max c.reading

namespace Obeys

variable {sub : Operand} {cs ds : List Call}

theorem of_append (h : Obeys sub (cs ++ ds)) : Obeys sub cs ∧ Obeys sub ds := by
  induction cs generalizing sub with
  | nil => exact ⟨trivial, h⟩
  | cons c cs ih =>
    obtain ⟨hsub, sub', turns, hsub', hturns, heq⟩ := h
    exact ⟨⟨(ih hsub).1, sub', turns, (ih hsub').1, hturns, heq⟩, (ih hsub).2⟩

/-- One reader for all levels. -/
theorem of_solved (h : ∀ c ∈ cs, c.Solved sub) : Obeys sub cs := by
  induction cs with
  | nil => trivial
  | cons c cs ih =>
    rw [List.forall_mem_cons] at h
    obtain ⟨turns, hturns, heq⟩ := h.1
    exact ⟨ih h.2, sub, turns, ih h.2, hturns, heq⟩

/-- The readers of the grammar, where there is room. -/
theorem operand {n : Nat} (hd : cs.Pairwise fun c d => d.reading.left < c.reading.left)
    (hn : ∀ c ∈ cs, c.reading.left < n) : Obeys (Grammar.operand n) cs := by
  induction cs generalizing n with
  | nil => trivial
  | cons c cs ih =>
    obtain ⟨hc, hd⟩ := List.pairwise_cons.mp hd
    rw [List.forall_mem_cons] at hn
    obtain ⟨k, rfl⟩ : ∃ k, n = k + 1 := Nat.exists_eq_add_one.mpr (Nat.zero_lt_of_lt hn.1)
    exact ⟨ih hd hn.2, Grammar.operand k, k,
      ih hd fun d hd => Nat.lt_of_lt_of_le (hc d hd) (Nat.le_of_lt_succ hn.1),
      Nat.le_of_lt_succ hn.1, rfl⟩

end Obeys

/-! ## Courses -/

/-- What a production comes to at a reading: an outcome, after some calls, and `b` tokens or more.
With `n` turns or more, any reader that goes by the rule at the calls brings it about, and where
there are tokens to spare it does so in front of others as well. -/
structure Course (p : Production α) (n b : Nat) (r : Reading)
    (x : Except SourceError (α × Reading)) (calls : List Call) : Prop where
  decreasing : calls.Pairwise fun c d => d.reading.left < c.reading.left
  within : ∀ c ∈ calls, c.reading.left ≤ r.left ∧ c.reading.left < n
  takes : ∀ a r', x = .ok (a, r') → r'.left + b ≤ r.left ∧ ∀ c ∈ calls, r'.left < c.reading.left
  keeps : ∀ a r', x = .ok (a, r') → r'.ending = r.ending ∧ r'.mapped = r.mapped
  fails : ∀ e, x = .error e → e.cause = .exhausted → r.ending = .error e
  runs : ∀ s, Follows s x → ∀ sub turns, n ≤ turns → Obeys sub (calls.map (·.followed s)) →
    p sub turns (r.followed s) = x.map fun y => (y.1, y.2.followed s)

theorem Course.run {p : Production α} {n b : Nat} {r : Reading}
    {x : Except SourceError (α × Reading)} {calls : List Call} (h : Course p n b r x calls)
    {sub : Operand} {turns : Nat} (ht : n ≤ turns) (ho : Obeys sub calls) : p sub turns r = x := by
  have hcalls : calls.map (·.followed none) = calls := List.map_id calls
  have hx := h.runs none (.inl rfl) sub turns ht (hcalls.symm ▸ ho)
  rcases x with e | y <;> exact hx

/-- A production has a course wherever less than `m` is left. -/
def Paced (m n b : Nat) (p : Production α) : Prop :=
  ∀ r : Reading, r.left < m → ∃ x calls, Course p n b r x calls

namespace Paced

variable {m m' n n' b b' c : Nat} {p q : Production α}

theorem none_left : Paced 0 n b p :=
  fun _ h => absurd h (Nat.not_lt_zero _)

theorem mono (h : Paced m n b p) (hm : m' ≤ m) (hn : n ≤ n') (hb : b' ≤ b) : Paced m' n' b' p := by
  intro r hr
  obtain ⟨x, cs, hx⟩ := h r (Nat.lt_of_lt_of_le hr hm)
  refine ⟨x, cs, hx.decreasing, fun c hc => ?_, fun a r' ha => ?_, hx.keeps, hx.fails,
    fun s hs sub turns ht => hx.runs s hs sub turns (Nat.le_trans hn ht)⟩
  · exact ⟨(hx.within c hc).1, Nat.lt_of_lt_of_le (hx.within c hc).2 hn⟩
  · obtain ⟨hl, hcs⟩ := hx.takes a r' ha
    exact ⟨Nat.le_trans (Nat.add_le_add_left hb _) hl, hcs⟩

/-- Where less is left. -/
theorem sooner (h : Paced (m + 1) n b p) : Paced m n b p :=
  h.mono (Nat.le_succ m) (Nat.le_refl n) (Nat.le_refl b)

theorem some_taken (h : Paced m n 1 p) : Paced m n 0 p :=
  h.mono (Nat.le_refl m) (Nat.le_refl n) (Nat.zero_le 1)

theorem congr (h : Paced m n b p) (hq : ∀ sub turns, n ≤ turns → q sub turns = p sub turns) :
    Paced m n b q := by
  intro r hr
  obtain ⟨x, cs, hx⟩ := h r hr
  refine ⟨x, cs, hx.decreasing, hx.within, hx.takes, hx.keeps, hx.fails,
    fun s hs sub turns ht ho => ?_⟩
  rw [hq sub turns ht]
  exact hx.runs s hs sub turns ht ho

/-- Fewer turns than there are. -/
theorem shift (h : Paced m n b p) (j : Nat) :
    Paced m (n + j) b fun sub turns => p sub (turns - j) := by
  intro r hr
  obtain ⟨x, cs, hx⟩ := h r hr
  refine ⟨x, cs, hx.decreasing, fun c hc => ?_, hx.takes, hx.keeps, hx.fails,
    fun s hs sub turns ht => hx.runs s hs sub (turns - j) (Nat.le_sub_of_add_le ht)⟩
  exact ⟨(hx.within c hc).1, Nat.lt_add_right j (hx.within c hc).2⟩

/-- A row of turns. As many turns as there are tokens are enough, if a turn takes a token before the
next one begins; `j` turns have been taken before. -/
theorem turns {ι : Type} (row : ι → Nat → Production α)
    (h : ∀ m j i, m + 1 + j ≤ n →
      (∀ i', Paced m n 0 fun sub turns => row i' (turns - (j + 1)) sub turns) →
      Paced (m + 1) n 0 fun sub turns => row i (turns - (j + 1) + 1) sub turns) :
    ∀ m j i, m + j ≤ n → Paced m n 0 fun sub turns => row i (turns - j) sub turns
  | 0, _, _, _ => none_left
  | m + 1, j, i, hj => by
    refine (h m j i hj fun i' => turns row h m (j + 1) i' (by omega)).congr fun sub turns ht => ?_
    rw [show turns - j = turns - (j + 1) + 1 by omega]

/-- A parser that reads no expressions. -/
theorem plain {p : Parser α}
    (ht : ∀ r a r', p r = .ok (a, r') → r'.left + b ≤ r.left)
    (hk : ∀ r a r', p r = .ok (a, r') → r'.ending = r.ending ∧ r'.mapped = r.mapped)
    (hf : ∀ r e, p r = .error e → e.cause = .exhausted → r.ending = .error e)
    (hr : ∀ r s, Follows s (p r) → p (r.followed s) = (p r).map fun y => (y.1, y.2.followed s)) :
    Paced m n b fun _ _ => p :=
  fun r _ => ⟨p r, [], .nil, nofun, fun a r' h => ⟨ht r a r' h, nofun⟩, hk r, hf r,
    fun s hs _ _ _ _ => hr r s hs⟩

/-- A parser that only looks at what is there, or changes what is no token. -/
theorem quiet {p : Parser α} (v : Reading → α) (f : Reading → Reading)
    (hp : ∀ r, p r = .ok (v r, f r)) (ht : ∀ r, (f r).tokens = r.tokens)
    (hk : ∀ r, (f r).ending = r.ending ∧ (f r).mapped = r.mapped)
    (hr : ∀ r s, s = none ∨ r.tokens ≠ [] → v (r.followed s) = v r)
    (hf : ∀ r s, f (r.followed s) = (f r).followed s) : Paced m n 0 fun _ _ => p := by
  refine plain (fun r a r' h => ?_) (fun r a r' h => ?_) (fun r e h => ?_) fun r s hs => ?_
  · rw [hp r] at h
    cases h
    exact Nat.le_of_eq (congrArg List.length (ht r))
  · rw [hp r] at h
    cases h
    exact hk r
  · rw [hp r] at h
    cases h
  · rw [hp, hp, hf, hr r s]
    · rfl
    · refine hs.imp_right ?_
      rintro ⟨_, _, h, hne⟩
      rw [hp r] at h
      cases h
      rwa [ht r] at hne

theorem pure {a : α} : Paced m n 0 fun _ _ => pure a :=
  quiet (fun _ => a) id (fun _ => rfl) (fun _ => rfl) (fun _ => ⟨rfl, rfl⟩) (fun _ _ _ => rfl)
    fun _ _ => rfl

/-- A parser that can only fail. -/
theorem error {p : Parser α} (h : ∀ r, ∃ e, p r = .error e ∧ e.cause ≠ .exhausted) :
    Paced m n b fun _ _ => p := by
  refine plain (fun r a r' ha => ?_) (fun r a r' ha => ?_) (fun r e' he' hc' => ?_)
    fun r s hs => ?_
  all_goals obtain ⟨e, he, hc⟩ := h r
  · rw [he] at ha
    cases ha
  · rw [he] at ha
    cases ha
  · rw [he] at he'
    cases he'
    exact absurd hc' hc
  · rcases hs with rfl | ⟨_, _, ha, -⟩
    · rw [he]
      exact he
    · rw [he] at ha
      cases ha

/-- One production after the other. All calls of the first come before all calls of the second, and
tokens to spare at the end are tokens to spare in between. -/
theorem seq {f : α → Production β} (hm : m ≤ m' + b) (hc : c ≤ b + b') (h : Paced m n b p)
    (hf : ∀ a, Paced m' n b' (f a)) :
    Paced m n c fun sub turns => p sub turns >>= fun a => f a sub turns := by
  intro r hr
  obtain ⟨x, cs, hx⟩ := h r hr
  rcases x with e | ⟨a, r'⟩
  · refine ⟨.error e, cs, hx.decreasing, hx.within, nofun, nofun, ?_, ?_⟩
    · rintro _ ⟨⟩
      exact hx.fails e rfl
    · rintro s (rfl | ⟨_, _, ⟨⟩, -⟩) sub turns ht ho
      simp only [Bind.bind, StateT.bind, Except.bind, hx.runs none (.inl rfl) sub turns ht ho]
      rfl
  · obtain ⟨hl, hcs⟩ := hx.takes a r' rfl
    obtain ⟨he, hm⟩ := hx.keeps a r' rfl
    obtain ⟨y, ds, hy⟩ := hf a r' (by omega)
    refine ⟨y, cs ++ ds, ?_, ?_, ?_, ?_, ?_, ?_⟩
    · refine List.pairwise_append.mpr ⟨hx.decreasing, hy.decreasing, fun c hc d hd => ?_⟩
      exact Nat.lt_of_le_of_lt (hy.within d hd).1 (hcs c hc)
    · refine List.forall_mem_append.mpr ⟨hx.within, fun d hd => ?_⟩
      obtain ⟨hd₁, hd₂⟩ := hy.within d hd
      exact ⟨by omega, hd₂⟩
    · intro a' r'' ha
      obtain ⟨hl', hds⟩ := hy.takes a' r'' ha
      refine ⟨by omega, List.forall_mem_append.mpr ⟨fun c hc => ?_, hds⟩⟩
      have := hcs c hc
      omega
    · intro a' r'' ha
      obtain ⟨he', hm'⟩ := hy.keeps a' r'' ha
      exact ⟨he'.trans he, hm'.trans hm⟩
    · intro e he'
      rw [← he]
      exact hy.fails e he'
    · intro s hs sub turns ht ho
      rw [List.map_append] at ho
      have hs' : Follows s (.ok (a, r') : Except SourceError (α × Reading)) :=
        hs.earlier fun a' r'' ha => Nat.le_of_add_right_le (hy.takes a' r'' ha).1
      have hp := hx.runs s hs' sub turns ht ho.of_append.1
      have hq := hy.runs s hs sub turns ht ho.of_append.2
      simp only [Bind.bind, StateT.bind, Except.bind, hp, Except.map]
      exact hq

section Bind

variable {f : α → Production β}

/-- Nothing needs to be taken first. -/
theorem bind (h : Paced m n 0 p) (hf : ∀ a, Paced m n b (f a)) :
    Paced m n b fun sub turns => p sub turns >>= fun a => f a sub turns :=
  seq (Nat.le_refl m) (Nat.le_add_left b 0) h hf

/-- A token is taken first. -/
theorem step (h : Paced m n 1 p) (hf : ∀ a, Paced m n 0 (f a)) :
    Paced m n 1 fun sub turns => p sub turns >>= fun a => f a sub turns :=
  seq (Nat.le_succ m) (Nat.le_refl 1) h hf

/-- A token is taken first, and so less is left then. -/
theorem taking (h : Paced (m + 1) n 1 p) (hf : ∀ a, Paced m n 0 (f a)) :
    Paced (m + 1) n 1 fun sub turns => p sub turns >>= fun a => f a sub turns :=
  seq (Nat.le_refl (m + 1)) (Nat.le_refl 1) h hf

theorem map {g : α → β} (h : Paced m n b p) : Paced m n b fun sub turns => g <$> p sub turns :=
  seq (f := fun a _ _ => Pure.pure (g a)) (Nat.le_add_right m b) (Nat.le_refl b) h fun _ => pure

end Bind

theorem get_bind {k : Reading → Production α} (hk : ∀ r s, k (r.followed s) = k r)
    (h : ∀ r, Paced m n b (k r)) :
    Paced m n b fun sub turns => get >>= fun r => k r sub turns := by
  intro r hr
  obtain ⟨x, cs, hx⟩ := h r r hr
  refine ⟨x, cs, hx.decreasing, hx.within, hx.takes, hx.keeps, hx.fails,
    fun s hs sub turns ht ho => ?_⟩
  show k (r.followed s) sub turns (r.followed s) = _
  rw [hk]
  exact hx.runs s hs sub turns ht ho

/-- A parser that fails first if it has to. -/
theorem guard {g : Prop} [Decidable g] {x : Parser PUnit} {k : PUnit → Production α}
    (hx : Paced m n 0 fun _ _ => x) (h : Paced m n b (k ⟨⟩)) : Paced m n b fun sub turns =>
      if g then x >>= fun a => k a sub turns else k ⟨⟩ sub turns := by
  split
  · exact bind hx fun _ => h
  · exact h

end Paced

/-! ## Parsers -/

namespace Parser

variable {m n b : Nat}

theorem fail_paced {cause : SourceError.Cause} {location : Option Location}
    (hc : cause ≠ .exhausted) : Paced m n b fun _ _ => (fail cause location : Parser α) :=
  .error fun _ => ⟨⟨cause, location⟩, rfl, hc⟩

theorem peek?_paced : Paced m n 0 fun _ _ => peek? := by
  refine .quiet (fun r => r.tokens.head?) id (fun _ => rfl) (fun _ => rfl) (fun _ => ⟨rfl, rfl⟩) ?_
    fun _ _ => rfl
  rintro ⟨_ | ⟨t, ts⟩, ending, mapped, scopes, targets⟩ (_ | s) h
  · rfl
  · rcases h with h | h
    · cases h
    · exact absurd rfl h
  · rfl
  · rfl

theorem unexpected_paced {expected : String} :
    Paced m n b fun _ _ => (unexpected expected : Parser α) := by
  refine .error fun r => ?_
  obtain ⟨_ | ⟨t, ts⟩, ending, mapped, scopes, targets⟩ := r
  · exact ⟨_, rfl, nofun⟩
  · exact ⟨_, rfl, nofun⟩

/-- One token is taken. With another one to spare it does not matter how the text ends. -/
theorem next_paced : Paced m n 1 fun _ _ => next := by
  refine .plain ?_ ?_ ?_ ?_
  · rintro ⟨_ | ⟨t, _ | ⟨u, ts⟩⟩, e | l, mapped, scopes, targets⟩ a r' h
    all_goals cases h
    all_goals exact Nat.le_refl _
  · rintro ⟨_ | ⟨t, _ | ⟨u, ts⟩⟩, e | l, mapped, scopes, targets⟩ a r' h
    all_goals cases h
    all_goals exact ⟨rfl, rfl⟩
  · rintro ⟨_ | ⟨t, _ | ⟨u, ts⟩⟩, e | l, mapped, scopes, targets⟩ e' h hc
    all_goals cases h
    · cases hc
    · cases hc
    · rfl
  · rintro r s (rfl | ⟨a, r', h, hne⟩)
    · rcases h : next r with e | ⟨t, r'⟩ <;> exact h
    · obtain ⟨_ | ⟨t, _ | ⟨u, ts⟩⟩, e | l, mapped, scopes, targets⟩ := r
      all_goals cases h
      · exact absurd rfl hne
      all_goals cases s <;> rfl

theorem sees_paced {kind : TokenKind} {content : String} :
    Paced m n 0 fun _ _ => sees kind content :=
  .bind peek?_paced fun _ => .pure

theorem take_paced {kind : TokenKind} : Paced m n 1 fun _ _ => take kind := by
  refine .bind peek?_paced fun t => ?_
  split
  · exact next_paced
  · exact unexpected_paced

theorem expect_paced {kind : TokenKind} {content : String} :
    Paced m n 1 fun _ _ => expect kind content := by
  refine .bind sees_paced fun b => ?_
  split
  · exact next_paced
  · exact unexpected_paced

/-- Where a token may come next, only one of the two ways has taken it. -/
theorem accepting {kind : TokenKind} {content : String} {f : Bool → Production α}
    (ht : Paced m n 0 (f true)) (hf : Paced (m + 1) n 1 (f false)) : Paced (m + 1) n 1
      fun sub turns => accept kind content >>= fun b => f b sub turns := by
  have h : Paced (m + 1) n 1 (fun sub turns => do
      if ← sees kind content then
        let _ ← next
        f true sub turns
      else f false sub turns) := by
    refine .bind sees_paced fun b => ?_
    split
    · exact .taking next_paced fun _ => ht
    · exact hf
  refine h.congr fun sub turns _ => ?_
  rw [accept, bind_assoc]
  refine bind_congr fun b => ?_
  cases b with
  | false => rfl
  | true => simp only [if_true, bind_assoc, pure_bind]

theorem accept_paced {kind : TokenKind} {content : String} :
    Paced m n 0 fun _ _ => accept kind content := by
  refine .bind sees_paced fun b => ?_
  split
  · exact .bind next_paced.some_taken fun _ => .pure
  · exact .pure

theorem located_paced {t : Token} : Paced m n 0 fun _ _ => located t :=
  .get_bind (fun _ _ => rfl) fun _ => .pure

theorem modifyScopes_paced {f : LexicalScopes → LexicalScopes} :
    Paced m n 0 fun _ _ => modifyScopes f :=
  .quiet (fun _ => ⟨⟩) (fun r => { r with scopes := f r.scopes }) (fun _ => rfl) (fun _ => rfl)
    (fun _ => ⟨rfl, rfl⟩) (fun _ _ _ => rfl) fun _ _ => rfl

theorem resolve_paced {name : String} : Paced m n 0 fun _ _ => resolve name :=
  .quiet (fun r => (r.scopes.resolve name).1)
    (fun r => { r with scopes := (r.scopes.resolve name).2 }) (fun _ => rfl) (fun _ => rfl)
    (fun _ => ⟨rfl, rfl⟩) (fun _ _ _ => rfl) fun _ _ => rfl

section Items

variable {item : Production α}

theorem repeatWhile_paced {more : Parser Bool} (hm : ∀ m, Paced m n 0 fun _ _ => more)
    (hi : Paced n n 1 item) :
    Paced n n 0 fun sub turns => repeatWhile more (item sub turns) turns := by
  refine .turns (fun (_ : Unit) k sub turns => repeatWhile more (item sub turns) k) ?_ n 0 ⟨⟩
    (Nat.le_refl n)
  intro m j _ hj rest
  refine .bind (hm _) fun b => ?_
  split
  · exact .pure
  · exact .some_taken (.taking (hi.mono (by omega) (Nat.le_refl n) (Nat.le_refl 1)) fun a =>
      .bind (rest ⟨⟩) fun _ => .pure)

theorem upTo_paced {close : String} (hi : Paced n n 1 item) :
    Paced n n 0 fun sub turns => upTo close (item sub turns) turns :=
  repeatWhile_paced (fun _ => .bind sees_paced fun _ => .pure) hi

theorem inScope_paced {register : Register} (h : Paced m n b item) :
    Paced m n b fun sub turns => inScope register (item sub turns) :=
  .bind modifyScopes_paced fun _ => .seq (Nat.le_add_right m b) (Nat.le_refl b) h fun _ =>
    .bind modifyScopes_paced fun _ => .pure

theorem inFunction_paced (h : Paced m n b item) :
    Paced m n b fun sub turns => inFunction (item sub turns) :=
  .bind modifyScopes_paced fun _ => .seq (Nat.le_add_right m b) (Nat.le_refl b) h fun _ =>
    .get_bind (fun _ _ => rfl) fun _ => .bind modifyScopes_paced fun _ => .pure

end Items

end Parser

/-! ## Expressions and statements -/

namespace Grammar

open Tale.Parser

variable {m n : Nat} {location : Option Location}

/-- The types in front of a name. They end where the text does. -/
theorem typeBound_paced : ∀ m j, m + j ≤ n →
    Paced (m + 1) n 0 fun _ turns => typeBound (turns - j) := by
  intro m j hj
  refine .bind ?_ fun _ => .pure
  induction m generalizing j with
  | zero =>
    intro r hr
    have hnil : r.tokens = [] := List.length_eq_zero_iff.mp (Nat.lt_one_iff.mp hr)
    refine ⟨.ok ([], r), [], .nil, nofun, ?_, ?_, nofun, ?_⟩
    · rintro _ _ ⟨⟩
      exact ⟨Nat.le_refl _, nofun⟩
    · rintro _ _ ⟨⟩
      exact ⟨rfl, rfl⟩
    · rintro s (rfl | ⟨_, _, ⟨⟩, hne⟩) sub turns _ _
      · obtain ⟨tokens, ending, mapped, scopes, targets⟩ := r
        cases hnil
        cases turns - j <;> rfl
      · exact absurd hnil hne
  | succ m ih =>
    have h : Paced (m + 1 + 1) n 0 (fun _ turns => do
        if !(← (do return (← peek?).any (typeOf? · |>.isSome) : Parser Bool)) then return []
        let a ← (do return typeOf? (← next) : Parser (Option ValueType))
        return a :: (← repeatWhile (do return (← peek?).any (typeOf? · |>.isSome))
          (do return typeOf? (← next)) (turns - (j + 1)))) := by
      refine .bind (.bind peek?_paced fun _ => .pure) fun b => ?_
      split
      · exact .pure
      · exact .some_taken (.taking (.step next_paced fun _ => .pure) fun _ =>
          .bind (ih (j + 1) (by omega)) fun _ => .pure)
    refine h.congr fun sub turns ht => ?_
    rw [show turns - j = turns - (j + 1) + 1 by omega]
    rfl

theorem sectionName_paced : Paced m n 1 fun _ _ => sectionName := by
  refine .step take_paced fun t => .bind ?_ fun _ => .pure
  exact .quiet (fun _ => ⟨⟩) (fun r => { r with targets := t :: r.targets }) (fun _ => rfl)
    (fun _ => rfl) (fun _ => ⟨rfl, rfl⟩) (fun _ _ _ => rfl) fun _ _ => rfl

theorem gotoTargets_paced : Paced (n + 1) n 1 fun _ turns => gotoTargets turns := by
  refine accepting ?_ ?_
  · exact .bind (upTo_paced sectionName_paced) fun _ => .bind next_paced.some_taken fun _ => .pure
  · exact .step sectionName_paced fun _ => .pure

section Sub

variable (hs : ∀ min max, Paced n n 1 fun sub _ => sub min max)

include hs in
theorem some_paced : Paced n n 1 fun sub _ => some <$> expression sub :=
  .map (hs _ _)

include hs in
/-- An expression that may be missing. -/
theorem option_paced {kind : TokenKind} {content : String} {k : Option (Expr Unit) → Production α}
    (hm : m ≤ n) (hk : ∀ e, Paced m n 0 (k e)) :
    Paced m n 0 (fun sub turns => do
      if ← accept kind content then
        let e ← some <$> expression sub
        k e sub turns
      else
        let e ← pure none
        k e sub turns) := by
  refine .bind accept_paced fun b => ?_
  split
  · exact .bind ((some_paced hs).mono hm (Nat.le_refl n) (Nat.zero_le 1)) hk
  · exact hk none

include hs in
theorem element_paced : Paced n n 1 fun sub _ => element sub := by
  refine .bind sees_paced fun b => ?_
  split
  · exact .step next_paced fun _ => .bind (hs _ _).some_taken fun _ => .bind located_paced fun _ =>
      .pure
  · exact .step (hs _ _) fun _ => .pure

include hs in
theorem list_paced : Paced (n + 1) n 1 fun sub turns => list sub turns :=
  .taking expect_paced fun _ => .bind (upTo_paced (element_paced hs)) fun _ =>
    .bind expect_paced.some_taken fun _ => .bind located_paced fun _ => .pure

include hs in
theorem switchCases_paced : Paced n n 0 fun sub turns => switchCases sub turns := by
  refine .turns (fun (_ : Unit) k sub _ => switchCases sub k) ?_ n 0 ⟨⟩ (Nat.le_refl n)
  intro m j _ hj rest
  have hs' : ∀ min max, Paced (m + 1) n 1 fun sub _ => sub min max := fun min max =>
    (hs min max).mono (by omega) (Nat.le_refl n) (Nat.le_refl 1)
  refine .bind sees_paced fun b => ?_
  split
  · exact .pure
  · refine .some_taken (.taking (hs' _ _) fun p => .bind sees_paced fun b => ?_)
    split
    · exact .pure
    · exact .bind (hs' _ _).sooner.some_taken fun _ => .bind (rest ⟨⟩) fun _ => .pure

include hs in
theorem switchOn_paced {subject : Expr Unit} :
    Paced (n + 1) n 1 fun sub turns => switchOn sub turns subject location :=
  .taking expect_paced fun _ => .bind (switchCases_paced hs) fun _ =>
    .bind expect_paced.some_taken fun _ => .pure

include hs in
theorem parameters_paced {used : List String} :
    Paced n n 0 fun sub turns => parameters sub turns used := by
  refine .turns (fun used k sub _ => parameters sub k used) ?_ n 0 used (Nat.le_refl n)
  intro m j used hj rest
  refine .bind sees_paced fun b => ?_
  split
  · exact .pure
  · refine .bind accept_paced fun b => ?_
    split
    · exact .bind take_paced.some_taken fun t => .guard (fail_paced nofun) .pure
    · refine .bind (typeBound_paced m (j + 1) (by omega)) fun _ => .some_taken ?_
      exact .taking take_paced fun t => .guard (fail_paced nofun) (option_paced hs (by omega)
        fun _ => .bind located_paced fun _ => .bind (rest _) fun _ => .pure)

include hs in
theorem functionParts_paced {full : Bool} :
    Paced n n 1 fun sub turns => functionParts sub turns full := by
  refine .bind sees_paced fun b => ?_
  split
  · exact .step (hs _ _) fun _ => .pure
  · refine .bind sees_paced fun b => ?_
    split
    · exact .step next_paced fun _ => .bind located_paced fun _ =>
        .bind (switchOn_paced hs).sooner.some_taken fun _ => .bind modifyScopes_paced fun _ => .pure
    · exact .step expect_paced fun _ => .bind (parameters_paced hs) fun _ =>
        .bind expect_paced.some_taken fun _ => .bind modifyScopes_paced fun _ =>
        .bind (hs _ _).some_taken fun _ => .pure

include hs in
theorem function_paced {full : Bool} : Paced n n 1 fun sub turns => function sub turns full :=
  .step (inFunction_paced (functionParts_paced hs)) fun _ => .pure

include hs in
theorem declaration_paced : Paced n n 1 fun sub turns => declaration sub turns := by
  refine .bind (typeBound_paced n 0 (Nat.le_refl n)).sooner fun bound =>
    .step take_paced fun t => ?_
  have short : Paced n n 0 fun _ _ =>
      (pure (bound == some [.function])
        <&&> (sees .punctuation "[" <||> sees .keyword "switch") : Parser Bool) := by
    refine .bind .pure fun b => ?_
    cases b with
    | false => exact .pure
    | true =>
      refine .bind sees_paced fun b => ?_
      cases b with
      | false => exact sees_paced
      | true => exact .pure
  refine .bind short fun _ => .bind located_paced fun location => ?_
  have declared (initial : Option (Expr Unit)) : Paced n n 0 (fun _ _ => do
      if (← get).scopes.declaresHere t.content then failAt t (.variableRepeated t.content)
      modifyScopes (·.declare t.content)
      return (⟨t.content, bound, initial, location⟩ : Declaration Unit)) :=
    .get_bind (fun _ _ => rfl) fun _ => .guard (fail_paced nofun)
      (.bind modifyScopes_paced fun _ => .pure)
  refine .bind accept_paced fun b => ?_
  split
  · exact .bind (some_paced hs).some_taken declared
  · split
    · exact .bind (function_paced hs).some_taken fun f => declared (some ⟨.function f, location⟩)
    · exact declared none

include hs in
theorem declarations_paced : Paced (n + 1) n 1 fun sub turns => declarations sub turns := by
  refine .taking expect_paced fun word => .bind accept_paced fun b => ?_
  have closed (ds : List (Declaration Unit)) : Paced n n 0 (fun _ _ => do
      return (⟨.declare ds, ← located word⟩ : Statement Unit)) :=
    .bind located_paced fun _ => .pure
  split
  · exact .bind (upTo_paced (declaration_paced hs)) fun ds => .guard unexpected_paced
      (.bind next_paced.some_taken fun _ => closed ds)
  · exact .bind (declaration_paced hs).some_taken fun d => closed [d]

theorem binding?_paced {min max : Nat} : Paced m n 0 fun _ _ => binding? min max := by
  refine .bind peek?_paced fun t => ?_
  split
  · exact .pure
  · split
    · exact .pure
    · split
      · exact .pure
      · split
        · exact .pure
        · exact .pure

include hs in
theorem climb_paced {min max : Nat} {left : Expr Unit} :
    Paced n n 0 fun sub turns => climb sub turns left min max := by
  refine .turns (fun left k sub _ => climb sub k left min max) ?_ n 0 left (Nat.le_refl n)
  intro m j left hj rest
  have hs' : ∀ min max, Paced m n 0 fun sub _ => sub min max := fun min max =>
    (hs min max).mono (by omega) (Nat.le_refl n) (Nat.zero_le 1)
  unfold climb
  refine .bind binding?_paced fun b => ?_
  split
  · exact .pure
  · refine .some_taken (.taking next_paced fun _ => .bind located_paced fun _ => ?_)
    split
    · exact .bind (hs' _ _) fun _ => rest _
    · exact .bind (hs' _ _) fun _ => .bind expect_paced.some_taken fun _ =>
        .bind (hs' _ _) fun _ => rest _

include hs in
theorem loop_paced : Paced (n + 1) n 1 fun sub _ => loop sub location := by
  have after (before : Option (Expr Unit)) : Paced n n 0 (fun sub _ => do
      let condition ← expression sub
      let after ←
        if before.isNone then some <$> expression sub
        else do if ← accept .keyword "then" then some <$> expression sub else pure none
      return (⟨.loop before condition after, location⟩ : Expr Unit)) := by
    refine .bind (hs _ _).some_taken fun c => ?_
    rcases before with _ | before
    · exact .bind (some_paced hs).some_taken fun _ => .pure
    · exact option_paced hs (Nat.le_refl n) fun _ => .pure
  refine inScope_paced (accepting ?_ ?_)
  · exact .bind (some_paced hs).some_taken fun b => .bind expect_paced.some_taken fun _ => after b
  · exact .bind .pure fun b => .taking expect_paced fun _ => after b

include hs in
theorem registerStatement_paced {register : Register} :
    Paced (n + 1) n 1 fun sub _ => registerStatement sub register := by
  refine .taking expect_paced fun _ => .get_bind (fun _ _ => rfl) fun _ => .guard
    (fail_paced nofun) (.bind located_paced fun _ => .bind accept_paced fun b => ?_)
  split
  · exact .bind (hs _ _).some_taken fun _ => .pure
  · refine .bind peek?_paced fun t => ?_
    split
    · exact .bind (hs _ _).some_taken fun _ => .pure
    · exact .pure

include hs in
theorem statement_paced : Paced n n 1 fun sub turns => statement sub turns := by
  refine .bind peek?_paced fun t => ?_
  split
  · exact .step (hs _ _) fun _ => .pure
  · split
    · exact .step (hs _ _) fun _ => .bind located_paced fun _ => .pure
    · split
      · exact (declarations_paced hs).sooner
      · exact (registerStatement_paced hs).sooner
      · exact (registerStatement_paced hs).sooner
      · exact (registerStatement_paced hs).sooner
      · exact .step next_paced fun _ => .bind located_paced fun _ => .pure
      · exact .step (hs _ _) fun _ => .bind located_paced fun _ => .pure

include hs in
theorem block_paced : Paced (n + 1) n 1 fun sub turns => block sub turns location :=
  .taking expect_paced fun _ => .bind (inScope_paced (upTo_paced (statement_paced hs))) fun _ =>
    .bind expect_paced.some_taken fun _ => .pure

include hs in
theorem keywordAtom_paced {word : String} :
    Paced (n + 1) n 1 fun sub turns => keywordAtom sub turns word location := by
  have hs' (min max : Nat) : Paced n n 0 fun sub _ => sub min max := (hs min max).some_taken
  unfold keywordAtom
  split
  · exact .taking next_paced fun _ => .pure
  · exact .taking next_paced fun _ => .pure
  · exact .taking next_paced fun _ => .pure
  · exact .taking next_paced fun _ => .pure
  · exact .taking next_paced fun _ => .bind (hs' _ _) fun _ => .pure
  · exact .taking next_paced fun _ => .bind (hs' _ _) fun _ => .bind (hs' _ _) fun _ => .pure
  · exact .taking next_paced fun _ => .bind gotoTargets_paced.sooner.some_taken fun _ => .pure
  · exact .taking next_paced fun _ => .bind (function_paced hs).some_taken fun _ => .pure
  · exact .taking next_paced fun _ => .bind (hs' _ _) fun _ =>
      (switchOn_paced hs).sooner.some_taken
  · exact loop_paced hs
  · exact loop_paced hs
  · exact .taking next_paced fun _ => .bind (hs' _ _) fun _ => .bind (hs' _ _) fun _ =>
      option_paced hs (Nat.le_refl n) fun _ => .pure
  · exact unexpected_paced

include hs in
theorem punctuationAtom_paced {mark : String} :
    Paced (n + 1) n 1 fun sub turns => punctuationAtom sub turns mark location := by
  unfold punctuationAtom
  split
  · exact .taking next_paced fun _ => .bind (hs _ _).some_taken fun _ =>
      .bind expect_paced.some_taken fun _ => .pure
  · exact list_paced hs
  · exact .taking next_paced fun _ => .bind (function_paced hs).some_taken fun _ => .pure
  · exact block_paced hs
  · exact unexpected_paced

include hs in
theorem atom_paced : Paced (n + 1) n 1 fun sub turns => atom sub turns := by
  refine .bind peek?_paced fun t => ?_
  rcases t with _ | t
  · exact unexpected_paced
  · refine .bind located_paced fun location => ?_
    split
    · exact .taking next_paced fun _ => .pure
    · exact .taking next_paced fun _ => .pure
    · exact .taking next_paced fun _ => .pure
    · exact .taking next_paced fun _ => .bind resolve_paced fun _ =>
        .guard (fail_paced nofun) .pure
    · refine .taking next_paced fun _ => ?_
      split
      · exact fail_paced nofun
      · exact .bind (hs _ _).some_taken fun _ => .pure
    · exact keywordAtom_paced hs
    · exact punctuationAtom_paced hs

include hs in
theorem rule_paced {min max : Nat} : Paced (n + 1) n 1 fun sub turns => rule sub turns min max :=
  .taking (atom_paced hs) fun _ => climb_paced hs

end Sub

/-- An expression is read after those before it have taken a token each. -/
theorem operand_paced (n : Nat) : ∀ min max, Paced n n 1 fun sub _ => sub min max := by
  induction n using Nat.strongRecOn with
  | _ n ih =>
  intro min max r hr
  obtain ⟨x, cs, hx⟩ := rule_paced (ih r.left hr) r (Nat.lt_succ_self r.left)
  refine ⟨x, ⟨min, max, r⟩ :: cs, .cons (fun c hc => (hx.within c hc).2) hx.decreasing, ?_, ?_,
    hx.keeps, hx.fails, ?_⟩
  · refine List.forall_mem_cons.mpr ⟨⟨Nat.le_refl _, hr⟩, fun c hc => ?_⟩
    exact ⟨(hx.within c hc).1, Nat.lt_trans (hx.within c hc).2 hr⟩
  · intro a r' ha
    obtain ⟨hl, hcs⟩ := hx.takes a r' ha
    exact ⟨hl, List.forall_mem_cons.mpr ⟨hl, hcs⟩⟩
  · rintro s hs sub turns - ⟨-, sub', turns', hsub', hturns, heq⟩
    have hturns : (r.followed s).left ≤ turns' := hturns
    rw [r.left_followed] at hturns
    exact heq.trans (hx.runs s hs sub' turns' (Nat.le_of_add_right_le hturns) hsub')

end Grammar

/-! ## Documents -/

namespace Logic

open Tale.Parser Grammar

variable {m n : Nat}

theorem version_paced : Paced m n 1 fun _ _ => version := by
  refine .step expect_paced fun _ => .bind take_paced.some_taken fun t => ?_
  split
  · simp only []
    split
    · exact .pure
    · exact fail_paced nofun
  · exact fail_paced nofun

theorem section_paced {earlier : List String} :
    Paced (n + 1) n 1 fun sub _ => «section» sub earlier := by
  have hs := operand_paced n
  refine .taking expect_paced fun word => .bind take_paced.some_taken fun t =>
    .guard (fail_paced nofun) (.bind sees_paced fun b => ?_)
  have rest (executes : Option (Expr Unit)) : Paced n n 0 (fun sub _ => do
      let _ ← expect .keyword "then"
      let next ← expression sub
      return (⟨t.content, executes, next, [], ← located word⟩ : Section Unit)) :=
    .bind expect_paced.some_taken fun _ => .bind (hs _ _).some_taken fun _ =>
      .bind located_paced fun _ => .pure
  split
  · exact rest none
  · exact .bind (some_paced hs).some_taken rest

/-- Wherever a block begins, the turns that are left are enough for a declaration. -/
theorem blocks_paced {earlier : List String} :
    Paced n n 0 fun sub turns => blocks sub turns earlier := by
  refine .turns (fun earlier k sub _ => blocks sub k earlier) ?_ n 0 earlier (Nat.le_refl n)
  intro m j earlier hj rest
  have hd : Paced (m + 1) n 1 fun sub turns => declarations sub (turns - (j + 1)) :=
    ((declarations_paced (operand_paced m)).shift (j + 1)).mono (Nat.le_refl _) (by omega)
      (Nat.le_refl 1)
  have hb : Paced (m + 1) n 1 fun sub _ => «section» sub earlier :=
    section_paced.mono (by omega) (Nat.le_refl n) (Nat.le_refl 1)
  refine .bind peek?_paced fun t => ?_
  split
  · exact .pure
  · refine .bind sees_paced fun b => ?_
    split
    · exact .some_taken (.taking hd fun s => .bind (rest _) fun _ => .pure)
    · refine .bind sees_paced fun b => ?_
      split
      · exact .some_taken (.taking hb fun s => .bind (rest _) fun _ => .pure)
      · exact unexpected_paced

/-- The logic of a document, given the reader of its expressions. -/
def logicBy (sub : Operand) (turns : Nat) : Parser Logic := do
  let version ← version
  let (init, sections) ← blocks sub turns []
  for t in (← get).targets.reverse do
    if !sections.any (·.name = t.content) then failAt t (.sectionUnknown t.content)
  return ⟨⟨version, init, sections⟩, declaredNames init⟩

theorem forIn_paced {f : α → PUnit → Parser (ForInStep PUnit)}
    (h : ∀ a, Paced n n 0 fun _ _ => f a ⟨⟩) :
    ∀ as : List α, Paced n n 0 fun _ _ => forIn as PUnit.unit f
  | [] => .pure
  | a :: as => by
    simp only [List.forIn_cons]
    refine .bind (h a) fun step => ?_
    cases step with
    | done _ => exact .pure
    | yield _ => exact forIn_paced h as

theorem logicBy_paced : Paced (n + 1) n 1 fun sub turns => logicBy sub turns := by
  refine .taking version_paced fun v => .bind blocks_paced fun p =>
    .get_bind (fun _ _ => rfl) fun r => .bind (forIn_paced (fun t => ?_) _) fun _ => .pure
  exact .guard (fail_paced nofun) .pure

end Logic

end Tale
