import Mathlib
import Tale.Proofs.Closed
import Tale.Proofs.Printed
import Tale.Proofs.Scanning

/-!
# What is written is read back

A reader with room for as many levels as an expression has words reads it (`Opens`), because each
part of it is in parentheses and so at least two words shorter. With enough room for all words of
a story its version, declarations and sections are read one after the other, all its targets are
sections, and the tree that was read is the one that was written.
-/

namespace Tale

open Words Tale.Parser

namespace Grammar

variable {targets : List String} {sub : Operand} {n : Nat} {P : Levels} {rest : List Word}

/-- Whether the words of a shape begin with those of its first part. -/
def infixed : Shape Unit → Bool
  | .binary .. => true
  | .conditional .. => true
  | _ => false

theorem length_option (ws : List Word) (e : Option (Expr Unit)) :
    (wordsOfOption ws e).length ≤ ws.length + (wordsOfOption [] e).length := by
  cases e <;> simp [wordsOfOption]

theorem words_pos (s : Shape Unit) : 0 < s.words.length := by
  cases s with
  | loop before c after => cases before <;> exact Nat.succ_pos _
  | _ => simp [Shape.words]

theorem atom_leads (hs : Ready targets sub n) {s : Shape Unit} (h : s.Legal targets P)
    (hn : s.words.length ≤ n + 1) (hi : infixed s = false) :
    Leads targets ⟨s.words ++ mark ")" :: rest, P⟩ ⟨mark ")" :: rest, P⟩ (atom sub n)
      (·.bare = ⟨s.bare, none⟩) := by
  have hr : Stops (mark ")" :: rest) := stops_cons rfl
  cases s with
  | number x =>
    obtain ⟨hx, m, hm⟩ := h
    exact number_leads hx hm (Float.ofBits_toBits x)
  | boolean b => exact boolean_leads
  | string s => exact string_leads
  | null => exact null_leads
  | binary op l r => cases hi
  | unary op e =>
    simp only [Shape.words, List.length_cons] at hn
    exact unary_leads hs h (by omega) hr
  | conditional c y n => cases hi
  | goto names =>
    simp only [Shape.words, List.length_cons, length_listed, List.length_map] at hn
    exact goto_leads h (by omega)
  | exit => exact exit_leads
  | selection e =>
    simp only [Shape.words, List.length_cons] at hn
    exact selection_leads hs h (by omega) hr
  | choice t a =>
    simp only [Shape.words, List.length_cons, List.length_append, List.append_assoc,
      List.cons_append] at hn ⊢
    exact choice_leads hs h.1 h.2 (by omega) (by omega) hr
  | block ss =>
    simp only [Shape.words, List.length_cons, List.length_append, List.append_assoc,
      List.cons_append, List.nil_append] at hn ⊢
    exact block_leads hs h (by omega)
  | reference name => exact reference_leads h
  | function f =>
    simp only [Shape.words, List.length_cons] at hn
    exact functionAtom_leads hs h (by omega) hr
  | list es =>
    simp only [Shape.words, length_listed] at hn
    exact list_leads hs h (by omega)
  | switch e cs d => exact switch_leads hs h hn
  | loop before c after =>
    rcases before with _ | b
    · simp only [Shape.words, List.length_cons, List.length_append, List.cons_append,
        List.append_assoc] at hn ⊢
      refine atom_keyword fun _ => loop_leads hs h hr (Nat.zero_le _) ?_ ?_ (by rintro ⟨⟩)
      · omega
      · refine Nat.le_trans (length_option _ _) ?_
        rw [length_enclosed] at hn
        rw [List.length_singleton]
        omega
    · simp only [Shape.words, List.length_cons, List.length_append, List.cons_append,
        List.append_assoc] at hn ⊢
      refine atom_keyword fun _ => loop_leads hs h hr ?_ ?_ ?_ (by rintro ⟨⟩)
      · simp only [wordsOfOption, List.length_append, List.length_singleton]
        omega
      · omega
      · omega
  | cond c y o =>
    simp only [Shape.words, List.length_cons, List.length_append, List.append_assoc,
      List.cons_append] at hn ⊢
    refine cond_leads hs h.1 h.2.1 h.2.2 (by omega) (by omega) (by omega) hr (by rintro ⟨⟩)
  | tag name => exact tag_leads

/-- The reader of level `n` reads each legal expression of at most `n` words up to a closing
parenthesis. -/
def Opens (targets : List String) (n : Nat) : Prop :=
  ∀ (P : Levels) (e : Expr Unit), e.Legal targets P → e.words.length ≤ n →
    ∀ rest, Leads targets ⟨e.words ++ mark ")" :: rest, P⟩ ⟨mark ")" :: rest, P⟩
      (expression (operand n)) (·.bare = e.bare)

theorem Ready.mono {m : Nat} (h : Ready targets sub n) (hm : m ≤ n) : Ready targets sub m :=
  fun P e he hn => h P e he (Nat.le_trans hn hm)

theorem Opens.ready (h : Opens targets n) : Ready targets (operand (n + 1)) (n + 1) := by
  intro P e he hn min max rest hr
  rw [length_enclosed] at hn
  exact operand_enclosed (h P e he (by omega)) hr

theorem Opens.succ (h : Opens targets n) (hs : Ready targets (operand n) n) :
    Opens targets (n + 1) := by
  rintro P ⟨shape, location⟩ he hn rest
  have hr : Stops (mark ")" :: rest) := stops_cons rfl
  cases hi : infixed shape with
  | false => exact .bind (atom_leads hs he hn hi) fun _ he => climb_stops hr he
  | true =>
    cases shape with
    | binary op l r =>
      simp only [Expr.words, Shape.words, List.length_append, List.length_cons, length_enclosed,
        List.append_assoc, List.cons_append] at hn ⊢
      refine binary_leads hs (h P l he.1 (by omega)) he.2 ?_ hr
      rw [length_enclosed]
      omega
    | conditional c y o =>
      simp only [Expr.words, Shape.words, List.length_append, List.length_cons, length_enclosed,
        List.append_assoc, List.cons_append] at hn ⊢
      refine conditional_leads hs (h P c he.1 (by omega)) he.2.1 he.2.2 ?_ ?_ hr
      all_goals
        rw [length_enclosed]
        omega
    | _ => cases hi

theorem opens_and_ready : ∀ n, Opens targets n ∧ Ready targets (operand n) n
  | 0 => by
    constructor
    · rintro P ⟨shape, _⟩ _ hn
      exact absurd (words_pos shape) (Nat.not_lt.mpr hn)
    · exact fun _ _ _ hn => absurd hn (Nat.not_succ_le_zero _)
  | n + 1 => by
    obtain ⟨ho, hr⟩ := opens_and_ready n
    exact ⟨ho.succ hr, ho.ready⟩

end Grammar

/-! ## Versions -/

namespace Text

theorem numeral?_digits {limit n : Nat} (h : n < limit) :
    numeral? limit (digits n) = some n := by
  rw [numeral?_row (Decimal.isDigit_digits n) Nat.toDigits_ne_nil, Decimal.digitsValue_digits,
    if_pos h]

end Text

namespace Logic

open Grammar

variable {targets : List String} {sub : Operand} {n : Nat} {P : Levels} {ws : List Word}

theorem version_leads {v : Version} (hj : v.major < Text.word32) (hi : v.minor < Text.word32) :
    Leads targets ⟨identifier "WTCD" :: (.number, v.numeral) :: ws, P⟩ ⟨ws, P⟩ version (· = v) := by
  refine .bind expect_leads fun _ _ => .bind take_leads fun t ht => ?_
  have hp : ∀ n : Nat, ∀ c ∈ Text.digits n, c ≠ '.' := by
    rintro n _ hc rfl
    exact absurd (Decimal.isDigit_digits n _ hc) (by decide)
  rw [(Prod.mk.inj ht).2, Version.numeral, String.toList_ofList, Text.splitAtChar_append (hp _),
    Text.splitAtChar_last (hp _)]
  simp only [Text.numeral?_digits hj, Text.numeral?_digits hi]
  exact .pure rfl

/-! ## Sections and declarations -/

theorem blocks_stops {ss : List (Section Unit)} : Stops (ss.flatMap Section.words) := by
  rcases ss with _ | ⟨s, ss⟩
  · exact fun _ => nofun
  · exact stops_cons rfl

section Ready

variable (hs : Ready targets sub n)

include hs in
theorem section_leads {s : Section Unit} {earlier : List String} {rest : List Word}
    (hx : optionLegal targets P s.executes) (he : s.next.Legal targets P) (hc : s.contents = [])
    (hd : s.name ∉ earlier) (hn : s.words.length ≤ n) (hr : Stops rest) :
    Leads targets ⟨s.words ++ rest, P⟩ ⟨rest, P⟩ («section» sub earlier) (·.bare = s.bare) := by
  obtain ⟨name, executes, next, contents, location⟩ := s
  simp only [Section.words, List.length_cons, List.length_append, List.cons_append,
    List.append_assoc] at hn hx he hc hd ⊢
  refine .bind expect_leads fun word _ => .bind take_leads fun t ht => ?_
  rw [(Prod.mk.inj ht).2]
  have rest : ∀ y : Option (Expr Unit), bareOption y = bareOption executes →
      Leads targets ⟨keyword "then" :: (enclosed next.words ++ rest), P⟩ ⟨rest, P⟩ (do
        let _ ← expect .keyword "then"
        let next ← expression sub
        return (⟨name, y, next, [], ← located word⟩ : Section Unit))
        (·.bare = Section.bare ⟨name, executes, next, contents, location⟩) := by
    intro y hy
    refine .bind expect_leads fun _ _ => .bind (hs P next he (by omega) _ _ _ hr) fun e he => ?_
    refine .bind located_leads fun _ _ => .pure ?_
    simp only [Section.bare, hy, he, hc]
  refine .no (by simpa using hd) ?_
  rcases executes with _ | e
  · exact seen rfl (.yes rfl (rest none rfl))
  · simp only [wordsOfOption, List.nil_append] at hn ⊢
    refine unseen (enclosed_head (by decide)) (.no Bool.false_ne_true ?_)
    exact .bind (some_leads hs hx (by omega) (stops_cons rfl)) fun y hy => rest y hy

include hs in
theorem sections_leads : ∀ {ss : List (Section Unit)} {turns : Nat} {earlier : List String},
    (∀ x ∈ ss, x.Legal targets P) → (ss.map (·.name)).Nodup → (∀ x ∈ ss, x.name ∉ earlier) →
      (ss.flatMap Section.words).length ≤ n → (ss.flatMap Section.words).length ≤ turns →
      Leads targets ⟨ss.flatMap Section.words, P⟩ ⟨[], P⟩ (blocks sub turns earlier) fun p =>
        p.1 = [] ∧ p.2.map Section.bare = ss.map Section.bare
  | [], turns, earlier, _, _, _, _, _ => by
    rw [blocks.eq_def]
    refine .bind peek?_leads fun t ht => .yes ?_ (.pure ⟨rfl, rfl⟩)
    rw [Option.map_eq_none_iff.mp ht, Option.isNone_none]
  | s :: ss, turns, earlier, hl, hd, he, hn, ht => by
    rw [List.flatMap_cons, List.length_append] at hn ht
    rw [List.map_cons, List.nodup_cons] at hd
    rw [List.forall_mem_cons] at hl he
    obtain ⟨⟨hx, hnext, hc⟩, hl⟩ := hl
    have hw : 0 < s.words.length := Nat.succ_pos _
    obtain ⟨turns, rfl⟩ : ∃ k, turns = k + 1 := ⟨turns - 1, by omega⟩
    have fresh : ∀ x ∈ ss, x.name ∉ s.name :: earlier := by
      intro x hm hmem
      rcases List.mem_cons.mp hmem with h | h
      · exact hd.1 (h ▸ List.mem_map_of_mem hm)
      · exact he.2 x hm h
    rw [blocks, List.flatMap_cons]
    refine peeked fun _ => .no Bool.false_ne_true (unseen ?_ (.no Bool.false_ne_true ?_))
    · simp [keyword]
    have hw : s.words.length ≤ n := by omega
    refine seen rfl (.yes rfl (.bind (section_leads hs hx hnext hc he.1 hw blocks_stops) ?_))
    intro y hy
    have hname : y.bare.name = s.bare.name := congrArg Section.name hy
    rw [show y.name = s.name from hname]
    refine .bind (sections_leads hl hd.2 fresh (by omega) (by omega)) fun p hp => .pure ?_
    exact ⟨hp.1, by rw [List.map_cons, List.map_cons, hy, hp.2]⟩

include hs in
theorem blocks_leads {ss : List (Section Unit)} (hd : (ss.map (·.name)).Nodup) :
    ∀ {init : List (Statement Unit)} {P : Levels} {turns : Nat},
      (∀ x ∈ init, ∃ ds, x.shape = .declare ds) → statementsLegal targets P init →
      (∀ x ∈ ss, x.Legal targets (P.declareAll (init.flatMap (·.shape.names)))) → turns ≤ n →
      (wordsOfStatements init ++ ss.flatMap Section.words).length ≤ turns →
      Leads targets ⟨wordsOfStatements init ++ ss.flatMap Section.words, P⟩
        ⟨[], P.declareAll (init.flatMap (·.shape.names))⟩ (blocks sub turns []) fun p =>
          bareStatements p.1 = bareStatements init ∧ p.2.map Section.bare = ss.map Section.bare
  | [], P, turns, _, _, hl, ht, hn => by
    refine (sections_leads hs hl hd (fun _ _ => List.not_mem_nil) ?_ hn).mono fun p hp => ?_
    · exact Nat.le_trans hn ht
    · exact ⟨congrArg bareStatements hp.1, hp.2⟩
  | ⟨shape, location⟩ :: init, P, turns, hi, h, hl, ht, hn => by
    rw [List.forall_mem_cons] at hi
    obtain ⟨⟨ds, rfl⟩, hi⟩ := hi
    simp only [wordsOfStatements, StatementShape.words, List.length_append, List.length_cons,
      length_listed, List.append_assoc, List.cons_append] at hn ⊢
    obtain ⟨turns, rfl⟩ : ∃ k, turns = k + 1 := ⟨turns - 1, by omega⟩
    rw [List.flatMap_cons, Levels.declareAll_append] at hl ⊢
    rw [blocks]
    refine peeked fun _ => .no Bool.false_ne_true (seen rfl (.yes rfl ?_))
    refine .bind (declarations_leads (hs.mono (by omega)) h.1.1 h.1.2 (by omega)) fun y hy => ?_
    refine .bind (blocks_leads hd hi h.2 hl (by omega) ?_) fun p hp => .pure ⟨?_, hp.2⟩
    · rw [List.length_append]
      omega
    · rw [statements_cons, hy, hp.1]
      rfl

end Ready

/-! ## Documents -/

theorem forIn_leads {a : Ahead} {f : Token → PUnit → Parser (ForInStep PUnit)} :
    ∀ {ts : List Token}, (∀ t ∈ ts, Leads targets a a (f t ⟨⟩) (· = .yield ⟨⟩)) →
      Leads targets a a (forIn ts ⟨⟩ f) fun _ => True
  | [], _ => .pure trivial
  | t :: ts, h => by
    rw [List.forall_mem_cons] at h
    rw [List.forIn_cons]
    refine .bind h.1 ?_
    rintro _ rfl
    exact forIn_leads h.2

theorem bare_names (ss : List (Section Unit)) :
    (ss.map Section.bare).map (·.name) = ss.map (·.name) :=
  List.map_map

theorem logic_leads {s : Story Unit} (h : s.Legal) {room : Nat} (hr : s.words.length ≤ room) :
    Leads (s.sections.map (·.name)) ⟨s.words, .initial⟩
      ⟨[], Levels.initial.declareAll (s.init.flatMap (·.shape.names))⟩ (logic room)
      (·.story.bare = s.bare) := by
  obtain ⟨v, init, sections⟩ := s
  have hs : Ready (sections.map (·.name)) (operand room) room := (opens_and_ready room).2
  simp only [Story.words, List.length_cons] at hr ⊢
  refine .bind (version_leads h.major h.minor) ?_
  rintro _ rfl
  have hn : (wordsOfStatements init ++ sections.flatMap Section.words).length ≤ room := by omega
  refine .bind (blocks_leads hs h.distinct h.declares h.init h.sections (Nat.le_refl _) hn) ?_
  intro p hp
  refine .get_bind fun r ha => .bind (forIn_leads fun t ht => ?_) fun _ _ => .pure ?_
  · have ht := ha.targets t (List.mem_reverse.mp ht)
    rw [← bare_names, ← hp.2, bare_names] at ht
    refine .no ?_ (.pure rfl)
    simpa using ht
  · simp only [Story.bare, hp.1, hp.2]

theorem logic_of_words {s : Story Unit} (h : s.Legal) {r : Reading}
    (hw : r.tokens.map Token.word = s.words) (he : ∃ location, r.ending = .ok location)
    (hs : r.scopes = .initial) (ht : r.targets = []) (hn : r.Named) :
    ∃ l, (logic (r.tokens.length + 1)).run' r = .ok l ∧ l.story.bare = s.bare
      ∧ l.Closed Library.names := by
  have hl : s.words.length ≤ r.tokens.length + 1 := by
    rw [← hw, List.length_map]
    exact Nat.le_succ _
  have ha : r.At (s.sections.map (·.name)) ⟨s.words, .initial⟩ :=
    ⟨hw, he, hs ▸ rfl, fun t hm => absurd (ht ▸ hm) List.not_mem_nil⟩
  obtain ⟨l, r', hr, -, hb⟩ := logic_leads h hl r ha
  have hc := (logic_reads r hn hs l r' hr).2
  refine ⟨l, ?_, hb, LexicalScopes.names_initial ▸ hc⟩
  simp only [StateT.run', hr, Functor.map, Except.map]

/-- A text with the words of a legal story is read as that story. -/
theorem parse_words {s : Story Unit} (h : s.Legal) {source : String} {location : Location}
    (hw : (Tokens.ofText source).tokens.map Token.word = s.words)
    (he : (Tokens.ofText source).ending = .ok location) (mapped : Bool) :
    ∃ l, Logic.parse source mapped = .ok l ∧ l.story.bare = s.bare ∧ l.Closed Library.names := by
  have hn := Tokens.scan_named (.ofText source)
  have hr := logic_of_words h (r := ⟨_, _, mapped, .initial, []⟩) hw ⟨location, he⟩ rfl rfl hn
  simp only [Logic.parse]
  split
  · rename_i e _ hend
    rw [he] at hend
    cases hend
  · exact hr

/-- The words of a legal story are read as that story, and each function in it gets the names it
captures. -/
theorem logic_words {s : Story Unit} (h : s.Legal) {tokens : List Token}
    (hw : tokens.map Token.word = s.words) (hn : ∀ t ∈ tokens, t.Named) (location : Location)
    (mapped : Bool) :
    ∃ l, (logic (tokens.length + 1)).run' { tokens, ending := .ok location, mapped } = .ok l
      ∧ l.story.bare = s.bare ∧ l.Closed Library.names :=
  logic_of_words (r := ⟨tokens, .ok location, mapped, .initial, []⟩) h hw ⟨location, rfl⟩ rfl rfl hn

/-- A function with a parameter and a rest that returns, and a loop that is left at once. -/
def climbing : Story Unit where
  version := ⟨1, 3⟩
  init := [⟨.declare [
    ⟨"step", some [.number], some ⟨.number 1.5, none⟩, none⟩,
    ⟨"climb", some [.function], some ⟨.function ⟨(), [⟨"height", some [.number], none, none⟩],
      some "rest", [], ⟨.block [⟨.leave .return ⟨.binary .add ⟨.reference "height", none⟩
        ⟨.reference "step", none⟩, none⟩, none⟩], none⟩⟩, none⟩, none⟩], none⟩]
  sections := [⟨"start",
    some ⟨.loop none ⟨.boolean true, none⟩
      (some ⟨.block [⟨.leave .break ⟨.null, none⟩, none⟩], none⟩), none⟩,
    ⟨.goto ["start"], none⟩, [], none⟩]

theorem climbing_legal : climbing.Legal := by
  have number : Decimal.isNegative 1.5 = false ∧ ∃ m, Decimal.magnitude 1.5 = .finite m :=
    ⟨by decide +kernel, _, rfl⟩
  constructor
  · decide
  · decide
  · rintro _ (_ | ⟨_, ⟨⟩⟩)
    exact ⟨_, rfl⟩
  · simp [climbing, number, statementsLegal, StatementShape.Legal, declarationsLegal, optionLegal,
      Expr.Legal, Shape.Legal, FunctionExpr.Legal, parametersLegal, Levels.initial, Levels.enter,
      Levels.declare, Levels.declareAll, Levels.DeclaresHere, Levels.Has, Levels.Sees]
  · decide
  · rintro _ (_ | ⟨_, ⟨⟩⟩)
    simp [climbing, Section.Legal, statementsLegal, StatementShape.Legal, optionLegal, Expr.Legal,
      Shape.Legal, Levels.enter, Levels.Has]

/-- The words of that story, all at one place. -/
theorem logic_words_climbing :
    let tokens : List Token := climbing.words.map fun w => ⟨w.1, w.2, .start⟩
    ∃ l, (logic (tokens.length + 1)).run' { tokens, ending := .ok .start, mapped := true } = .ok l
      ∧ l.story.bare = climbing.bare ∧ l.Closed Library.names := by
  refine logic_words climbing_legal ?_ ?_ _ _
  · rw [List.map_map]
    exact List.map_id _
  · have named : ∀ w ∈ climbing.words, w.1 = .identifier → w.2 ≠ switchName := by decide +kernel
    intro t ht
    obtain ⟨w, hw, rfl⟩ := List.mem_map.mp ht
    exact named w hw

end Logic

end Tale
