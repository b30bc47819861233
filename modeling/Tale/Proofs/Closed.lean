import Tale.Document.Parse
import Tale.Proofs.Outcomes
import Tale.Proofs.ParsedNames

/-!
# Closed stories

A story that was read from a document is closed: its initial statements need only the library and
what they declare themselves, its sections all of that, and its contents only what the initial
statements declare.
-/

namespace Tale

open Grammar (switchName)

variable {α ι : Type}

/-- The names the initial statements of a story declare. -/
def initialNames (init : List (Statement ι)) : List String :=
  init.flatMap (·.shape.names)

def Section.Within (Γ : List String) (s : Section ι) : Prop :=
  optionWithin Γ s.executes ∧ s.next.Within Γ

theorem Section.Within.mono {Γ Δ : List String} {s : Section ι} (h : s.Within Γ) (hs : Γ ⊆ Δ) :
    s.Within Δ :=
  ⟨⟨List.Subset.trans h.1.1 hs, h.1.2⟩, h.2.mono hs⟩

/-- Every name a story needs is one of the library or declared before anything needs it. -/
structure Story.Closed (s : Story ι) : Prop where
  init : statementsWithin Library.names s.init
  sections (x : Section ι) (h : x ∈ s.sections) : x.Within (initialNames s.init ++ Library.names)
  placeholders (x : Section ι) (h : x ∈ s.sections) (k : Content) (hk : k ∈ x.contents)
    (p : Document.Placeholder) (hp : p ∈ k.placeholders) : p.variableName ∈ initialNames s.init

/-- The same of logic whose sections have no contents yet. -/
structure Logic.Closed (Γ : List String) (l : Logic) : Prop where
  init : statementsWithin Γ l.story.init
  sections (x : Section Unit) (h : x ∈ l.story.sections) :
    x.Within (initialNames l.story.init ++ Γ) ∧ x.contents = []
  declared : l.declared = initialNames l.story.init

namespace Logic

open Tale.Parser Grammar

variable {sub : Operand} {ss : LexicalScopes}

theorem version_passes : Passes version fun _ => True := by
  refine .bind expect_passes fun _ _ => .bind take_passes fun t _ => ?_
  split
  · simp only []
    split
    · exact .pure trivial
    · exact .throw
  · exact .throw

section Sub

variable (hs : ∀ min max, Uses (sub min max) Expr.free Expr.Captured)

include hs in
theorem section_reads {earlier : List String} : Reads ss («section» sub earlier) fun s ss' =>
    (s.Within ss.names ∧ s.contents = []) ∧ ss'.names = ss.names := by
  refine .pass expect_passes fun word _ => .pass take_passes fun t _ => ?_
  refine .guard fail_passes fun _ => ?_
  have rest : ∀ (executes : Option (Expr Unit)) (ss₁ : LexicalScopes), optionCaptured executes →
      Traced ss (freeInOption executes) [] ss₁ → Reads ss₁ (do
        let _ ← expect .keyword "then"
        let next ← expression sub
        return (⟨t.content, executes, next, [], ← located word⟩ : Section Unit)) fun s ss' =>
          (s.Within ss.names ∧ s.contents = []) ∧ ss'.names = ss.names := by
    intro executes ss₁ hc ht
    refine .pass expect_passes fun _ _ => .bind (hs _ _ ss₁) fun e ss₂ he => ?_
    have h₁ : ss₁.names = ss.names := by
      rw [ht.scopes]
      exact LexicalScopes.resolveAll_names _ _
    have h₂ : ss₂.names = ss₁.names := by
      rw [he.2.scopes]
      exact LexicalScopes.resolveAll_names _ _
    refine .pass located_passes fun _ _ => .pure ⟨⟨⟨⟨ht.sighted, hc⟩, ?_, he.1⟩, rfl⟩, h₂.trans h₁⟩
    exact h₁ ▸ he.2.sighted
  refine .pass sees_passes fun b _ => ?_
  split
  · exact rest none ss trivial (.refl ss)
  · exact .bind (some_uses hs ss) fun e ss₁ he => rest e ss₁ he.1 he.2

include hs in
theorem blocks_reads : ∀ (turns : Nat) (earlier : List String) {ss : LexicalScopes},
    Reads ss (blocks sub turns earlier) fun p _ => statementsWithin ss.names p.1
      ∧ ∀ s ∈ p.2, s.Within (initialNames p.1 ++ ss.names) ∧ s.contents = []
  | 0, earlier, ss => by
    refine .pass peek?_passes fun t _ => ?_
    split
    · exact .pure ⟨⟨List.nil_subset _, trivial⟩, fun _ => nofun⟩
    · exact .throw
  | n + 1, earlier, ss => by
    refine .pass peek?_passes fun t _ => ?_
    split
    · exact .pure ⟨⟨List.nil_subset _, trivial⟩, fun _ => nofun⟩
    · refine .pass sees_passes fun b _ => ?_
      split
      · refine .bind (declarations_reads hs) fun s ss₁ h => ?_
        refine .bind (blocks_reads n earlier) fun p _ hp => .pure ?_
        have hn := h.2.names
        refine ⟨statementsWithin_cons.mpr ⟨⟨h.2.sighted, h.1⟩, hp.1.mono hn⟩, fun x hx => ?_⟩
        refine ⟨(hp.2 x hx).1.mono ?_, (hp.2 x hx).2⟩
        simp only [initialNames, List.flatMap_cons, List.subset_def, List.mem_append] at hn ⊢
        grind
      · refine .pass sees_passes fun b _ => ?_
        split
        · refine .bind (section_reads hs) fun s ss₁ h => ?_
          refine .bind (blocks_reads n _) fun p _ hp => .pure ?_
          rw [h.2] at hp
          refine ⟨hp.1, fun x hx => ?_⟩
          rcases List.mem_cons.mp hx with rfl | hx
          · exact ⟨h.1.1.mono (List.subset_append_right _ _), h.1.2⟩
          · exact hp.2 x hx
        · exact .of_passes (unexpected_passes (V := fun _ => False)) fun _ h => h.elim

end Sub

theorem declaredNames_eq (init : List (Statement Unit)) :
    declaredNames init = initialNames init := by
  induction init with
  | nil => rfl
  | cons s init ih =>
    rw [declaredNames, List.flatMap_cons, ← declaredNames, ih]
    rcases s with ⟨shape, location⟩
    cases shape <;> rfl

theorem forIn_passes {f : α → PUnit → Parser (ForInStep PUnit)}
    (h : ∀ a, Passes (f a ⟨⟩) fun _ => True) :
    ∀ as : List α, Passes (forIn as ⟨⟩ f) fun _ => True
  | [] => .pure trivial
  | a :: as => by
    rw [List.forIn_cons]
    refine .bind (h a) fun step _ => ?_
    split
    · exact .pure trivial
    · exact forIn_passes h as

theorem logic_reads {room : Nat} : Reads ss (logic room) fun l _ => l.Closed ss.names := by
  refine .pass version_passes fun v _ => ?_
  refine .bind (blocks_reads (operand_uses room) room []) fun p ss₁ hp => ?_
  refine .get_bind fun r _ _ => .pass (forIn_passes (fun t => ?_) _) fun _ _ => .pure ?_
  · split
    · exact .throw
    · exact .pure trivial
  · exact ⟨hp.1, hp.2, declaredNames_eq _⟩

end Logic

/-! ### Tokens of a text -/

theorem Lexeme.read_named {c : Char} {cs content : List Char} {n : Nat}
    (h : Lexeme.read c cs = .ok (.token .identifier content, n)) :
    String.ofList content ≠ switchName := by
  have hc : ∃ ds, content = c :: ds ∧ Token.isNameStart c := by
    simp only [Lexeme.read] at h
    grind
  rcases hc with ⟨ds, rfl, hc⟩
  intro he
  have := congrArg String.toList he
  rw [String.toList_ofList] at this
  simp only [switchName, String.reduceToList, List.cons.injEq] at this
  rw [this.1] at hc
  exact absurd hc (by decide)

theorem Tokens.scan_named (k : Cursor) : ∀ t ∈ (scan k).tokens, t.Named := by
  fun_induction scan k with
  | case1 k h => exact fun _ => nofun
  | case2 k c cs h m hm => exact fun _ => nofun
  | case3 k c cs h n hr ih => exact ih
  | case4 k c cs h kind content n hr ih =>
    intro t ht
    rcases List.mem_cons.mp ht with rfl | ht
    · rintro rfl
      exact Lexeme.read_named hr
    · exact ih t ht

/-- What was read was read from the tokens of the text, with no target noted before. -/
theorem Logic.run_of_parse {source : String} {mapped : Bool} {l : Logic}
    (h : Logic.parse source mapped = .ok l) : ∃ (room : Nat) (r r' : Reading),
      logic room r = .ok (l, r') ∧ r.tokens = (Tokens.ofText source).tokens
        ∧ r.scopes = .initial ∧ r.targets = [] := by
  have hr : ∀ (room : Nat) (r : Reading), (logic room).run' r = .ok l →
      ∃ r', logic room r = .ok (l, r') := by
    intro room r hl
    simp only [StateT.run', Functor.map, Except.map] at hl
    split at hl
    · cases hl
    · cases hl
      exact ⟨_, ‹_›⟩
  simp only [Logic.parse] at h
  split at h
  · cases h
  · obtain ⟨r', hr'⟩ := hr _ _ h
    exact ⟨_, _, r', hr', rfl, rfl, rfl⟩

/-- What holds of all that can be read holds of what was read. -/
theorem Logic.of_parse {Q : Logic → Prop}
    (hq : ∀ room, Reads .initial (logic room) fun l _ => Q l) {source : String} {mapped : Bool}
    {l : Logic} (h : Logic.parse source mapped = .ok l) : Q l := by
  obtain ⟨room, r, r', hl, ht, hs, -⟩ := Logic.run_of_parse h
  exact (hq room r (fun t hm => Tokens.scan_named _ t (ht ▸ hm)) hs l r' hl).2

theorem LexicalScopes.names_initial : names .initial = Library.names := by
  simp [names, initial]

theorem Logic.parse_closed {source : String} {mapped : Bool} {l : Logic}
    (h : Logic.parse source mapped = .ok l) : l.Closed Library.names :=
  LexicalScopes.names_initial ▸ Logic.of_parse (fun _ => logic_reads) h

/-! ### Characters of a document -/

/-- The logic that tokens write, be they those of a text or not. -/
def Logic.ofTokens (ts : Tokens) (mapped : Bool) : Except SourceError Logic :=
  match ts.tokens, ts.ending with
  | [], .error e => .error e
  | tokens, ending => (logic (tokens.length + 1)).run' { tokens, ending, mapped }

namespace Document

/-- The story that the characters of a document tell. -/
def ofChars (options : Options) (cs : List Char) : Except SourceError (Story Unit) := do
  let (logic, raws) := splitFrom 0 true (Text.replaceAll ['\r', '\n'] ['\n'] cs)
  let start : Cursor :=
    ⟨.start, Text.replaceAll ['\r'] ['\n'] (Text.replaceAll ['\r', '\n'] ['\n'] logic)⟩
  let logic ← Logic.ofTokens (.scan start) options.mapped
  let sections ← attachAll options logic.declared 0 raws logic.story.sections
  return { logic.story with sections }

/-- A document is read by its characters: what is made a text on the way is taken apart at once.
Only its contents stay texts. -/
theorem parse_eq_ofChars (options : Options) (source : String) :
    parse options source = ofChars options source.toList := by
  simp only [parse, split, Logic.parse, Tokens.ofText, Cursor.ofText, String.toList_ofList]
  rfl

end Document

/-! ### Contents -/

namespace Document

theorem fill_names {fullName : String} {declared : List String} :
    ∀ {next : Nat} {ps : List Piece} {html : List Char} {vars : List Placeholder},
      fill fullName declared next ps = .ok (html, vars) → ∀ p ∈ vars, p.variableName ∈ declared
  | _, [], _, _, h => by
    cases h
    exact fun _ => nofun
  | next, .char c :: ps, html, vars, h => by
    obtain ⟨⟨html', vars'⟩, hf, h⟩ := ok_of_bind h
    cases h
    exact fill_names hf
  | next, .reference name :: ps, html, vars, h => by
    simp only [fill] at h
    split at h
    · cases h
    · rename_i hd
      obtain ⟨⟨html', vars'⟩, hf, h⟩ := ok_of_bind h
      cases h
      intro p hp
      rcases List.mem_cons.mp hp with rfl | hp
      · simpa using hd
      · exact fill_names hf p hp

theorem parameterize_names {html fullName : String} {declared : List String} {next : Nat}
    {html' : String} {vars : List Placeholder}
    (h : parameterize html fullName declared next = .ok (html', vars)) :
    ∀ p ∈ vars, p.variableName ∈ declared := by
  obtain ⟨⟨cs, vars'⟩, hf, h⟩ := ok_of_bind h
  cases h
  exact fill_names hf

/-- A section that needs only the names `Γ`, and whose contents need only declared ones. -/
def Fits (Γ declared : List String) (x : Section Unit) : Prop :=
  x.Within Γ ∧ ∀ k ∈ x.contents, ∀ p ∈ k.placeholders, p.variableName ∈ declared

variable {Γ declared : List String}

theorem attach_forall {P : Section Unit → Prop} {name : String} {k : Content}
    (hk : ∀ s : Section Unit, P s → P { s with contents := s.contents ++ [k] }) :
    ∀ {ss ss' : List (Section Unit)}, attach name k ss = some ss' → (∀ x ∈ ss, P x) →
      ∀ x ∈ ss', P x
  | [], _, h, _ => by cases h
  | s :: ss, ss', h, hs => by
    simp only [List.mem_cons, forall_eq_or_imp] at hs
    simp only [attach] at h
    split at h
    · cases h
      intro x hx
      rcases List.mem_cons.mp hx with rfl | hx
      · exact hk s hs.1
      · exact hs.2 x hx
    · obtain ⟨tt, ht, rfl⟩ := Option.map_eq_some_iff.mp h
      intro x hx
      rcases List.mem_cons.mp hx with rfl | hx
      · exact hs.1
      · exact attach_forall hk ht hs.2 x hx

/-- What contents with declared names do not change is kept when all contents are attached. -/
theorem attachAll_forall {options : Options} {P : Section Unit → Prop}
    (hP : ∀ (s : Section Unit) (k : Content), (∀ p ∈ k.placeholders, p.variableName ∈ declared) →
      P s → P { s with contents := s.contents ++ [k] }) :
    ∀ {next : Nat} {raws : List RawContent} {ss ss' : List (Section Unit)},
      attachAll options declared next raws ss = .ok ss' → (∀ x ∈ ss, P x) → ∀ x ∈ ss', P x
  | _, [], _, _, h, hs => by
    cases h
    exact hs
  | next, raw :: raws, ss, ss', h, hs => by
    obtain ⟨⟨html, vars⟩, hp, h⟩ := ok_of_bind h
    obtain ⟨bounds, -, h⟩ := ok_of_bind h
    split at h
    · cases h
    · rename_i tt ht
      refine attachAll_forall hP h (attach_forall (fun s => hP s _ ?_) ht hs)
      exact parameterize_names hp

theorem Fits.attach {s : Section Unit} {k : Content}
    (hk : ∀ p ∈ k.placeholders, p.variableName ∈ declared) (h : Fits Γ declared s) :
    Fits Γ declared { s with contents := s.contents ++ [k] } := by
  refine ⟨h.1, fun k' hk' => ?_⟩
  rcases List.mem_append.mp hk' with hk' | hk'
  · exact h.2 k' hk'
  · exact List.mem_singleton.mp hk' ▸ hk

theorem parse_closed {options : Options} {source : String} {story : Story Unit}
    (h : parse options source = .ok story) : story.Closed := by
  obtain ⟨l, hl, h⟩ := ok_of_bind h
  obtain ⟨sections, ha, h⟩ := ok_of_bind h
  cases h
  have hc := Logic.parse_closed hl
  have hs := attachAll_forall (P := Fits (initialNames l.story.init ++ Library.names) l.declared)
    (fun _ _ hk h => h.attach hk) ha fun x hx => by
      refine ⟨(hc.sections x hx).1, ?_⟩
      rw [(hc.sections x hx).2]
      exact fun _ => nofun
  rw [hc.declared] at hs
  exact ⟨hc.init, fun x hx => (hs x hx).1, fun x hx => (hs x hx).2⟩

end Document

/-! ### Numbering -/

theorem labelStatements_initialNames : ∀ (n : Nat) (ss : List (Statement Unit)),
    initialNames (labelStatements n ss).1 = initialNames ss
  | _, [] => rfl
  | n, ⟨shape, location⟩ :: ss => by
    have h := (StatementShape.label_names n shape).1
    have hs := labelStatements_initialNames (shape.label n).2 ss
    simp only [initialNames] at hs
    simp only [labelStatements, initialNames, List.flatMap_cons, h, hs]

theorem labelSections_mem : ∀ (n : Nat) (ss : List (Section Unit)) (x : Section Nat),
    x ∈ (labelSections n ss).1 → ∃ y ∈ ss, y.contents = x.contents
      ∧ ∀ Γ, y.Within Γ → x.Within Γ
  | _, [], _, h => nomatch h
  | n, ⟨name, executes, next, contents, location⟩ :: ss, x, h => by
    simp only [labelSections, List.mem_cons] at h
    rcases h with rfl | h
    · refine ⟨_, .head _, rfl, fun Γ hw => ?_⟩
      have he := labelOption_names n executes
      have hn := Expr.label_names (labelOption n executes).2 next
      simp only [Section.Within, optionWithin, Expr.Within] at hw ⊢
      simpa only [he, hn] using hw
    · obtain ⟨y, hy, hc, hw⟩ := labelSections_mem _ ss x h
      exact ⟨y, .tail _ hy, hc, hw⟩

theorem Story.Closed.labelled {s : Story Unit} (h : s.Closed) : s.labelled.Closed := by
  have hn := labelStatements_initialNames 0 s.init
  refine ⟨?_, fun x hx => ?_, fun x hx => ?_⟩
  · have := labelStatements_names 0 s.init
    have hi := h.init
    simp only [statementsWithin] at hi ⊢
    simpa only [Story.labelled, this] using hi
  · obtain ⟨y, hy, -, hw⟩ := labelSections_mem _ s.sections x hx
    exact hw _ (hn ▸ h.sections y hy)
  · obtain ⟨y, hy, hc, -⟩ := labelSections_mem _ s.sections x hx
    rw [← hc]
    exact hn ▸ h.placeholders y hy

end Tale
