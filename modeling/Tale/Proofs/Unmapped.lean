import Tale.Proofs.Mirrors
import Tale.Proofs.TellingTwins

/-!
# Stories without places

A story that was read without its places is the story that was read with them, less the places; and
a text that is no story fails to be one with the same error, whether places are kept or not. Both
are told alike: places are handed on from trees to choices, faults and trails, but nothing that a
telling does asks for one. So only what is said of an error can tell the two apart, by the places
in it.
-/

namespace Tale

variable {α : Type}

namespace Logic

open Tale.Parser Grammar

theorem version_mirrors : Mirrors id version version := by
  refine .step expect_mirrors fun _ => .step take_mirrors fun t => ?_
  split
  · simp only []
    split
    · exact .pure rfl
    · exact .throw
  · exact .throw

section Sub

variable {sub : Operand}
  (hs : ∀ min max, Mirrors (Expr.relocate noPlace) (sub min max) (sub min max))

include hs in
theorem section_mirrors {earlier : List String} : Mirrors (Section.relocate noPlace)
    («section» sub earlier) («section» sub earlier) := by
  refine .step expect_mirrors fun word => .step take_mirrors fun t => .guard fail_mirrors ?_
  have rest (executes : Option (Expr Unit)) : Mirrors (Section.relocate noPlace)
      (do
        let _ ← expect .keyword "then"
        let next ← expression sub
        return (⟨t.content, executes, next, [], ← located word⟩ : Section Unit))
      (do
        let _ ← expect .keyword "then"
        let next ← expression sub
        return (⟨t.content, relocateOption noPlace executes, next, [], ← located word⟩ :
          Section Unit)) :=
    .step expect_mirrors fun _ => .bind (hs _ _) fun _ => .bind located_mirrors fun _ => .pure rfl
  refine .step sees_mirrors fun b => ?_
  split
  · exact rest none
  · exact .bind (some_mirrors hs) rest

include hs in
theorem blocks_mirrors : ∀ (turns : Nat) (earlier : List String),
    Mirrors (fun p => (relocateStatements noPlace p.1, p.2.map (Section.relocate noPlace)))
      (blocks sub turns earlier) (blocks sub turns earlier)
  | 0, earlier => by
    refine .step peek?_mirrors fun t => ?_
    split
    · exact .pure rfl
    · exact .throw
  | n + 1, earlier => by
    refine .step peek?_mirrors fun t => ?_
    split
    · exact .pure rfl
    · refine .step sees_mirrors fun b => ?_
      split
      · refine .bind (declarations_mirrors hs) fun s => .bind (blocks_mirrors n earlier) fun p => ?_
        cases s
        exact .pure rfl
      · refine .step sees_mirrors fun b => ?_
        split
        · exact .bind (section_mirrors hs) fun s => .bind (blocks_mirrors n _) fun p => .pure rfl
        · exact unexpected_mirrors

end Sub

theorem declaredNames_relocate (σ : Option Location → Option Location)
    (init : List (Statement Unit)) :
    declaredNames (relocateStatements σ init) = declaredNames init := by
  have names : ∀ ds : List (Declaration Unit),
      (relocateDeclarations σ ds).map (·.name) = ds.map (·.name) := fun ds => by
    rw [relocateDeclarations_eq, List.map_map]
    rfl
  rw [declaredNames, declaredNames, relocateStatements_eq, List.flatMap_map]
  refine congrArg (List.flatMap · init) (funext fun s => ?_)
  obtain ⟨shape, location⟩ := s
  cases shape with
  | declare ds => exact names ds
  | _ => rfl

theorem forIn_mirrors {f g : α → PUnit → Parser (ForInStep PUnit)}
    (h : ∀ a, Mirrors id (f a ⟨⟩) (g a ⟨⟩)) :
    ∀ as : List α, Mirrors id (forIn as ⟨⟩ f) (forIn as ⟨⟩ g)
  | [] => .pure rfl
  | a :: as => by
    rw [List.forIn_cons, List.forIn_cons]
    refine .step (h a) fun step => ?_
    cases step with
    | done _ => exact .pure rfl
    | yield _ => exact forIn_mirrors h as

/-- The logic of a document without its places. -/
def unplaced (l : Logic) : Logic :=
  { l with story := l.story.relocate noPlace }

theorem logic_mirrors {room : Nat} : Mirrors unplaced (logic room) (logic room) := by
  refine .step version_mirrors fun v => .bind (blocks_mirrors (operand_mirrors room) room [])
    fun p => .get_bind fun r => .step (forIn_mirrors (fun t => ?_) _) fun _ => .pure ?_
  · have named : (p.2.map (Section.relocate noPlace)).any (·.name = t.content)
        = p.2.any (·.name = t.content) := List.any_map
    simp only [named]
    exact .guard fail_mirrors (.pure rfl)
  · simp only [unplaced, Story.relocate, declaredNames_relocate]

theorem parse_unmapped (source : String) :
    Logic.parse source false = (Logic.parse source true).map unplaced := by
  have run (room : Nat) (tokens : List Token) (ending : Except SourceError Location) :
      (logic room).run' { tokens, ending, mapped := false }
        = ((logic room).run' { tokens, ending, mapped := true }).map unplaced := by
    have h := @logic_mirrors room { tokens, ending, mapped := true }
    simp only [Reading.unmapped] at h
    simp only [StateT.run', h]
    rcases logic room { tokens, ending, mapped := true } with e | p <;> rfl
  simp only [Logic.parse]
  split
  · rfl
  · exact run _ _ _

end Logic

namespace Document

theorem attach_relocate (σ : Option Location → Option Location) {name : String} {c : Content} :
    ∀ ss : List (Section Unit), attach name c (ss.map (Section.relocate σ))
      = (attach name c ss).map (List.map (Section.relocate σ))
  | [] => rfl
  | s :: ss => by
    have hn : (s.relocate σ).name = s.name := rfl
    rw [List.map_cons, attach, attach, hn]
    by_cases h : s.name = name
    · rw [if_pos h, if_pos h]
      rfl
    · rw [if_neg h, if_neg h, attach_relocate σ ss]
      rcases attach name c ss with _ | tt <;> rfl

/-- Contents are attached to sections wherever these are, and whether places are kept or not. -/
theorem attachAll_relocate (σ : Option Location → Option Location) (options : Options)
    (declared : List String) (mapped mapped' : Bool) :
    ∀ (next : Nat) (raws : List RawContent) (ss : List (Section Unit)),
      attachAll { options with mapped := mapped' } declared next raws (ss.map (Section.relocate σ))
        = (attachAll { options with mapped } declared next raws ss).map
          (List.map (Section.relocate σ))
  | _, [], _ => rfl
  | next, raw :: raws, ss => by
    rw [attachAll, attachAll]
    simp only [attach_relocate]
    rcases parameterize (options.render (options.before raw.markdown)) raw.fullName declared next
      with e | ⟨html, placeholders⟩
    · rfl
    · rcases Bounds.parse raw.bound raw.fullName with e | bounds
      · rfl
      · simp only [bind, Except.bind]
        rcases attach raw.name ⟨options.after html, placeholders, bounds⟩ ss with _ | tt
        · rfl
        · exact attachAll_relocate σ options declared mapped mapped' _ raws tt

theorem parse_unmapped (options : Options) (source : String) :
    parse { options with mapped := false } source
      = (parse { options with mapped := true } source).map (Story.relocate noPlace) := by
  simp only [parse, Logic.parse_unmapped]
  generalize split _ = parts
  obtain ⟨logic, raws⟩ := parts
  simp only []
  rcases Logic.parse logic true with e | l
  · rfl
  · have h := attachAll_relocate noPlace options l.declared true false 0 raws l.story.sections
    simp only [bind, Except.bind, Except.map, Logic.unplaced, Story.relocate] at h ⊢
    rw [h]
    rcases attachAll _ l.declared 0 raws l.story.sections with e | ss <;> rfl

end Document

/-! ## Told alike -/

/-- Both tellings draw alike, and one knows no places. -/
def Kin.unplaced : Kin where
  chance := True
  place := noPlace
  nowhere := rfl

/-- Whether a document is read with its places or without them, it fails to be a story with the same
error, or it is the same story but for the places. And the two stories are told alike: calls have
the same answers, except that errors of the one are those of the other without the place where they
happened, in themselves and in their trails; and what is pinned, how the story describes its state
and whether it is over is the same after every call. -/
theorem places_indifferent (options : Document.Options) (source : String) :
    Document.parse { options with mapped := false } source
        = (Document.parse { options with mapped := true } source).map (Story.relocate noPlace)
      ∧ ∀ story story' : Story Unit,
        Document.parse { options with mapped := true } source = .ok story →
        Document.parse { options with mapped := false } source = .ok story' →
        ∀ (seed : String) (provider : Provider) (limit : Nat) (calls : List (Option Nat)),
          let t := (Telling.ofStory story seed provider limit).run calls
          let t' := (Telling.ofStory story' seed provider limit).run calls
          t'.1.map (Except.mapError StepError.report)
              = t.1.map (Except.mapError fun e => (e.relocate noPlace).report)
            ∧ t'.2.pinned = t.2.pinned ∧ t'.2.world.stateText = t.2.world.stateText
            ∧ t'.2.isFinished = t.2.isFinished := by
  refine ⟨Document.parse_unmapped options source, fun story story' h h' seed provider limit calls =>
    ?_⟩
  rw [Document.parse_unmapped, h] at h'
  cases h'
  have ht := Telling.ofStory_twins (K := .unplaced) story (fun _ _ _ _ _ => trivial) (.inl trivial)
    seed seed (fun _ => rfl) provider limit
  obtain ⟨ha, hs⟩ := Telling.run_twins calls ht
  exact ⟨answers_report ha, hs.pinned, hs.world.stateText, hs.isFinished⟩

/-- A story that fails in its only section. -/
def stumbling : String :=
  "WTCD 1.3\nsection s then null + null\n"

/-- Where the errors in a row of answers happened. -/
def placesOf (answers : List (Except StepError Step)) : List (Option Location) :=
  answers.map fun
    | .ok _ => none
    | .error e => e.report.location

theorem places_indifferent_stumbling : ∃ story story' : Story Unit,
    Document.parse { mapped := true } stumbling = .ok story
      ∧ Document.parse { mapped := false } stumbling = .ok story'
      ∧ let t := (Telling.ofStory story "seed" {} 20).run [none, none]
        let t' := (Telling.ofStory story' "seed" {} 20).run [none, none]
        placesOf t.1 = [some ⟨2, 21⟩, none] ∧ placesOf t'.1 = [none, none]
          ∧ t'.1.map (Except.mapError StepError.report)
            = t.1.map (Except.mapError fun e => (e.relocate noPlace).report) := by
  have places (mapped : Bool) : (Document.parse { mapped } stumbling).toOption.map
      (fun story => placesOf ((Telling.ofStory story "seed" {} 20).run [none, none]).1)
        = some [if mapped then some ⟨2, 21⟩ else none, none] := by
    rw [Document.parse_eq_ofChars]
    cases mapped <;> decide +kernel
  have hm := places true
  have hu := places false
  rcases h : Document.parse { mapped := true } stumbling with e | story
  · rw [h] at hm
    cases hm
  · rcases h' : Document.parse { mapped := false } stumbling with e | story'
    · rw [h'] at hu
      cases hu
    · rw [h] at hm
      rw [h'] at hu
      exact ⟨story, story', rfl, rfl, Option.some.inj hm, Option.some.inj hu,
        ((places_indifferent {} stumbling).2 story story' h h' "seed" {} 20 [none, none]).1⟩

end Tale
