import Tale.Proofs.Pace
import Tale.Proofs.Positions

/-!
# Reading ends

What is read of a text takes characters of it, and what is read of tokens takes tokens, or fails,
also where a text breaks off (`Logic.parse_progresses`). So there are no more tokens than
characters, no row has more turns than tokens, and a whole document is read with no more expressions
than tokens, at each of which less is left than at the one before.
-/

namespace Tale

variable {α : Type}

/-! ## Characters -/

namespace Lexeme

variable {c : Char} {cs : List Char}

theorem numberTail_error {dot : Bool} {n : Nat} (h : numberTail dot cs = .error n) :
    n < cs.length := by
  fun_induction numberTail dot cs generalizing n with
  | case1 => cases h
  | case2 => cases h
  | case3 dot c cs hc n' hn ih =>
    cases h
    exact Nat.succ_lt_succ (ih hn)
  | case4 =>
    cases h
    exact Nat.succ_pos _
  | case5 => cases h
  | case6 dot cs hdot n' hn hc ih =>
    cases h
    exact Nat.succ_lt_succ (ih hn)
  | case7 => cases h

theorem stringTail_error {quote : Char} {m : Misread} (h : stringTail quote cs = .error m) :
    m.offset ≤ cs.length ∧ m.cause ≠ .exhausted := by
  fun_induction stringTail quote cs generalizing m with
  | case1 =>
    cases h
    exact ⟨Nat.le_refl 0, by rintro ⟨⟩⟩
  | case3 | case4 =>
    cases h
    exact ⟨by simp, by rintro ⟨⟩⟩
  | case6 d cs e hd m' hm hq ih =>
    cases h
    exact ⟨Nat.add_le_add_right (ih hm).1 2, (ih hm).2⟩
  | case8 c cs hq hb m' hm ih =>
    cases h
    exact ⟨Nat.succ_le_succ (ih hm).1, (ih hm).2⟩
  | _ => cases h

theorem read_error {m : Misread} (h : read c cs = .error m) :
    m.offset ≤ cs.length + 1 ∧ m.cause ≠ .exhausted := by
  rw [read] at h
  split_ifs at h with hblank hblock hline hname hnumber hsign hmark hquote htag
  · split at h <;> cases h
    exact ⟨Nat.le_refl _, by rintro ⟨⟩⟩
  · split at h <;> cases h
    rename_i n hn
    exact ⟨Nat.le_succ_of_le (numberTail_error hn), by rintro ⟨⟩⟩
  · simp only [] at h
    split at h <;> cases h
    exact ⟨Nat.zero_le _, by rintro ⟨⟩⟩
  · split at h <;> cases h
    rename_i m hm
    exact ⟨Nat.succ_le_succ (stringTail_error hm).1, (stringTail_error hm).2⟩
  · cases h
    exact ⟨Nat.zero_le _, by rintro ⟨⟩⟩

/-- What is read at the head of a text takes a character of it or more, and none beyond it. -/
theorem read_advances (c : Char) (cs : List Char) :
    match read c cs with
    | .ok (_, n) => n + 1 ≤ (c :: cs).length
    | .error m => m.offset ≤ (c :: cs).length := by
  split
  · rename_i h
    exact Nat.succ_le_succ (read_le h)
  · rename_i h
    exact (read_error h).1

end Lexeme

namespace Tokens

theorem scan_advances (k : Cursor) : (scan k).tokens.length ≤ k.rest.length
    ∧ ∀ e, (scan k).ending = .error e → e.cause ≠ .exhausted := by
  fun_induction scan k with
  | case1 k hrest =>
    refine ⟨Nat.zero_le _, ?_⟩
    rintro e ⟨⟩
  | case2 k c cs hrest m hread =>
    refine ⟨Nat.zero_le _, ?_⟩
    rintro e ⟨⟩
    exact (Lexeme.read_error hread).2
  | case3 k c cs hrest n hread ih =>
    exact ⟨Nat.le_trans ih.1 (Nat.le_of_lt (skip_rest_lt hrest n)), ih.2⟩
  | case4 k c cs hrest kind content n hread ih =>
    exact ⟨Nat.lt_of_le_of_lt ih.1 (skip_rest_lt hrest n), ih.2⟩

theorem lineFeeds_length_le (cs : List Char) : (lineFeeds cs).length ≤ cs.length := by
  fun_induction lineFeeds cs with
  | case1 => exact Nat.le_refl 0
  | case2 cs ih => exact Nat.le_succ_of_le (Nat.succ_le_succ ih)
  | case3 c cs hc ih => exact Nat.succ_le_succ ih

theorem ofText_length_le (source : String) : (ofText source).tokens.length ≤ source.length := by
  have h := (scan_advances (.ofText source)).1
  rw [Cursor.ofText_rest] at h
  exact Nat.le_trans h (lineFeeds_length_le source.toList)

end Tokens

/-! ## Tokens -/

/-- A production takes `b` tokens or more, or fails. Where its rows may take more turns than there
are tokens, and the readers below are nested deeper than that, it makes no difference how many and
how deep, and that is not why it fails. -/
def Grammar.Takes (b : Nat) (p : Production α) : Prop :=
  ∀ r : Reading, ∃ x : Except SourceError (α × Reading),
    (∀ room turns, r.left < room → r.left < turns → p (operand room) turns r = x)
      ∧ (∀ a r', x = .ok (a, r') → r'.left + b ≤ r.left)
      ∧ ∀ e, x = .error e → e.cause = .exhausted → r.ending = .error e

theorem Grammar.Takes.of_paced {p : Production α} {b : Nat} (h : ∀ n, Paced n n b p) :
    Takes b p := by
  intro r
  obtain ⟨x, cs, hx⟩ := h (r.left + 1) r (Nat.lt_succ_self _)
  refine ⟨x, fun room turns hroom hturns => ?_, fun a r' ha => (hx.takes a r' ha).1, hx.fails⟩
  exact hx.run hturns (.operand hx.decreasing fun c hc =>
    Nat.lt_of_le_of_lt (hx.within c hc).1 hroom)

namespace Grammar

open Tale.Parser

/-- What takes a token each time, and the rows that are made of it. Every turn of a row reads an
item, a name, a sign or an expression, so that its turns are bounded by the tokens. -/
structure Progressive : Prop where
  expression (min max : Nat) : Takes 1 fun sub _ => sub min max
  sectionName : Takes 1 fun _ _ => sectionName
  sectionNames : Takes 0 fun _ turns => upTo "]" Grammar.sectionName turns
  element : Takes 1 fun sub _ => element sub
  elements : Takes 0 fun sub turns => upTo "]" (Grammar.element sub) turns
  declaration : Takes 1 fun sub turns => declaration sub turns
  declarations : Takes 0 fun sub turns => upTo "]" (Grammar.declaration sub turns) turns
  statement : Takes 1 fun sub turns => statement sub turns
  statements : Takes 0 fun sub turns => upTo "\x7d" (Grammar.statement sub turns) turns
  sign : Takes 1 fun _ _ => next
  types : Takes 0 fun _ turns => typeBound turns
  name (kind : TokenKind) : Takes 1 fun _ _ => take kind
  parameters (used : List String) : Takes 0 fun sub turns => parameters sub turns used
  switchCases : Takes 0 fun sub turns => switchCases sub turns
  operators (left : Expr Unit) (min max : Nat) :
    Takes 0 fun sub turns => climb sub turns left min max
  declare : Takes 1 fun sub turns => Grammar.declarations sub turns
  «section» (earlier : List String) : Takes 1 fun sub _ => Logic.section sub earlier
  blocks (earlier : List String) : Takes 0 fun sub turns => Logic.blocks sub turns earlier

theorem progressive : Progressive where
  expression min max := .of_paced fun n => operand_paced n min max
  sectionName := .of_paced fun _ => sectionName_paced
  sectionNames := .of_paced fun _ => upTo_paced sectionName_paced
  element := .of_paced fun n => element_paced (operand_paced n)
  elements := .of_paced fun n => upTo_paced (element_paced (operand_paced n))
  declaration := .of_paced fun n => declaration_paced (operand_paced n)
  declarations := .of_paced fun n => upTo_paced (declaration_paced (operand_paced n))
  statement := .of_paced fun n => statement_paced (operand_paced n)
  statements := .of_paced fun n => upTo_paced (statement_paced (operand_paced n))
  sign := .of_paced fun _ => next_paced
  types := .of_paced fun n => (typeBound_paced n 0 (Nat.le_refl n)).sooner
  name _ := .of_paced fun _ => take_paced
  parameters _ := .of_paced fun n => parameters_paced (operand_paced n)
  switchCases := .of_paced fun n => switchCases_paced (operand_paced n)
  operators _ _ _ := .of_paced fun n => climb_paced (operand_paced n)
  declare := .of_paced fun n => (declarations_paced (operand_paced n)).sooner
  «section» _ := .of_paced fun _ => Logic.section_paced.sooner
  blocks _ := .of_paced fun _ => Logic.blocks_paced

end Grammar

/-- A text before anything is read of it. -/
def Reading.ofText (source : String) (mapped : Bool) : Reading :=
  let ts := Tokens.ofText source
  { tokens := ts.tokens, ending := ts.ending, mapped }

/-- There are no more calls than tokens if less is left at each of them. -/
theorem length_le_of_decreasing {cs : List Call} {n : Nat}
    (hd : cs.Pairwise fun c d => d.reading.left < c.reading.left)
    (hn : ∀ c ∈ cs, c.reading.left < n) : cs.length ≤ n := by
  induction cs generalizing n with
  | nil => exact Nat.zero_le n
  | cons c cs ih =>
    obtain ⟨hc, hd⟩ := List.pairwise_cons.mp hd
    rw [List.forall_mem_cons] at hn
    exact Nat.lt_of_le_of_lt (ih hd hc) hn.1

namespace Logic

/-- A document is read with no more expressions than tokens, and less left at each than at the one
before it. Any reader that goes by the rule for expressions at these will do, and so does room for
as many levels and turns as there are tokens. -/
structure Ends (r : Reading) (x : Except SourceError Logic) (calls : List Call) : Prop where
  decreasing : calls.Pairwise fun c d => d.reading.left < c.reading.left
  length_le : calls.length ≤ r.left
  solved (sub : Operand) (turns : Nat) (ht : r.left ≤ turns) (h : ∀ c ∈ calls, c.Solved sub) :
    (logicBy sub turns).run' r = x
  room (n : Nat) (hn : r.left ≤ n) : (logic n).run' r = x

theorem logic_ends (r : Reading) : ∃ x calls, Ends r x calls
    ∧ ∀ e, x = .error e → e.cause = .exhausted → r.ending = .error e := by
  obtain ⟨x, cs, hx⟩ := logicBy_paced r (Nat.lt_succ_self _)
  have hleft : ∀ c ∈ cs, c.reading.left < r.left := fun c hc => (hx.within c hc).2
  refine ⟨x.map (·.1), cs, ⟨hx.decreasing, length_le_of_decreasing hx.decreasing hleft, ?_, ?_⟩, ?_⟩
  · intro sub turns ht h
    simp only [StateT.run', hx.run ht (.of_solved h)]
    rfl
  · intro n hn
    have ho := Obeys.operand hx.decreasing fun c hc => Nat.lt_of_lt_of_le (hleft c hc) hn
    have h := hx.run hn ho
    simp only [StateT.run']
    exact congrArg (Except.map (·.1)) h
  · rintro e he
    rcases x with e' | y
    · cases he
      exact hx.fails _ rfl
    · cases he

/-- Reading a document goes forward, and ends. Every turn of every row, and every way from an
expression to one inside of it, takes a character or a token, or fails. A document is read with no
more expressions than characters, and comes to its logic or to an error that is no lack of room. -/
theorem parse_progresses (source : String) (mapped : Bool) :
    (∀ c cs, match Lexeme.read c cs with
        | .ok (_, n) => n + 1 ≤ (c :: cs).length
        | .error m => m.offset ≤ (c :: cs).length)
      ∧ (Reading.ofText source mapped).left ≤ source.length
      ∧ Grammar.Progressive
      ∧ ((∃ e, (Reading.ofText source mapped).tokens = []
          ∧ (Reading.ofText source mapped).ending = .error e ∧ parse source mapped = .error e)
        ∨ ∃ calls, Ends (Reading.ofText source mapped) (parse source mapped) calls)
      ∧ ∀ e, parse source mapped = .error e → e.cause ≠ .exhausted := by
  refine ⟨Lexeme.read_advances, Tokens.ofText_length_le source, Grammar.progressive, ?_⟩
  let ts := Tokens.ofText source
  have hending : ∀ e, ts.ending = .error e → e.cause ≠ .exhausted := (Tokens.scan_advances _).2
  obtain ⟨x, calls, hx, hfails⟩ := logic_ends (Reading.ofText source mapped)
  by_cases h : ts.tokens = [] ∧ ∃ e, ts.ending = .error e
  · obtain ⟨ht, e, he⟩ := h
    have hparse : parse source mapped = .error e := by
      simp only [parse]
      split
      · rename_i e' _ he'
        cases he'.symm.trans he
        rfl
      · rename_i hne
        exact absurd he (hne e ht)
    refine ⟨.inl ⟨e, ht, he, hparse⟩, fun e' he' => ?_⟩
    rw [hparse] at he'
    cases he'
    exact hending e he
  · have hparse : parse source mapped = x := by
      simp only [parse]
      split
      · rename_i e ht he
        exact absurd ⟨ht, e, he⟩ h
      · exact hx.room _ (Nat.le_succ _)
    rw [hparse]
    exact ⟨.inr ⟨calls, hx⟩, fun e he hc => hending e (hfails e he hc) hc⟩

end Logic

end Tale
