import Tale.Evaluation
import Tale.Proofs.Effects

/-!
# Failing functions of the library

A function of the library that calls no other function either does its work or leaves the world as
it was: what it takes and looks at before it can be refused changes nothing (`Acts`). So a failing
call of it leaves no trace, not even when it is what `assertError` waits for
(`failing_leaves_no_trace`).
-/

namespace Tale

/-- Whether a function of the library calls a function that it is given. -/
def Native.callsBack : Native → Bool
  | .assertError | .listForEach | .listMap | .listFilter | .listFindIndex => true
  | _ => false

namespace Library

/-- A failing answer leaves the world as it was. Only a function that goes round a loop (`L`) may
give none at all. -/
structure Atomic (L : Prop) (answer : Answer) : Prop where
  refused {w w' : World} {r : Refusal} (h : answer.run w = .ok (.error r) w') : w' = w
  stopped {w w' : World} {e : Stop} (h : answer.run w = .error e w') : L ∧ e = .exhausted

theorem Atomic.of_acts {L L' : Prop} {E : World → World → Prop} {V : Value → Prop} {x : Answer}
    (h : ∀ {w}, Acts L (E w) V w x) (hl : L → L') : Atomic L' x where
  refused {w w' r} hr := by
    have ends : Ends L (E w) V w (x w) := h
    rw [show x w = _ from hr] at ends
    cases ends
    rfl
  stopped {w w' e} hs := by
    have ends : Ends L (E w) V w (x w) := h
    rw [show x w = _ from hs] at ends
    cases ends with
    | exhausted loops change => exact ⟨hl loops, rfl⟩

theorem Atomic.of_settles {L : Prop} {x : Answer} (h : ∀ {w}, Settles w x) : Atomic L x :=
  of_acts (E := Mild) h False.elim

theorem plain_atomic {L : Prop} {result : Except Refusal Value} : Atomic L (plain result) where
  refused h := by
    cases h
    rfl
  stopped h := nomatch h

end Library

open Library

theorem Native.run_atomic (m : Machine) {f : Native} (hf : f.callsBack = false)
    (args : List Value) : Atomic (f = .randomBiased) (f.run m args) := by
  cases f with
  | assertError | listForEach | listMap | listFilter | listFindIndex => cases hf
  | contentAddParagraph => exact .of_settles Contents.paragraph_settles
  | contentAddImage => exact .of_settles Contents.image_settles
  | contentAddUnorderedList | contentAddOrderedList => exact .of_settles Contents.items_settles
  | contentAddHeader => exact .of_settles Contents.header_settles
  | contentAddTable => exact .of_settles Contents.table_settles
  | contentAddHorizontalRule => exact .of_settles Contents.rule_settles
  | timeStart => exact .of_settles Check.timeStart_settles
  | timeEnd => exact .of_settles Check.timeEnd_settles
  | random => exact .of_settles Chance.between_settles
  | randomInt => exact .of_settles Chance.whole_settles
  | randomBoolean => exact .of_settles Chance.boolean_settles
  | randomBiased => exact .of_acts Chance.biased_acts fun _ => rfl
  | readerSetPinned => exact .of_acts (Reader.setPinned_acts .any) False.elim
  | readerUnsetPinned => exact .of_acts Reader.unsetPinned_acts False.elim
  | readerSetStateDesc => exact .of_settles Reader.setStateText_settles
  | readerUnsetStateDesc => exact .of_settles Reader.unsetStateText_settles
  | canvasCreate => exact .of_settles Drawing.create_settles
  | canvasOutput => exact .of_settles Drawing.output_settles
  | canvasClear => exact .of_settles Drawing.clear_settles
  | canvasPutImage => exact .of_settles Drawing.putImage_settles
  | canvasPutImagePart => exact .of_settles Drawing.putImagePart_settles
  | canvasSetFont => exact .of_settles Drawing.setFont_settles
  | canvasSetFillStyle | canvasSetStrokeStyle => exact .of_settles Drawing.style_settles
  | canvasFillText | canvasStrokeText => exact .of_settles Drawing.text_settles
  | canvasFillRect => exact .of_settles Drawing.fillRect_settles
  | canvasSetLineWidth => exact .of_settles Drawing.setLineWidth_settles
  | _ => exact plain_atomic

variable {resolve : String → Run Address} {n : Nat} {f : Native} {g : Function}
  {args : List Value} {w w' : World}

/-- What a call of a function of the library comes to. -/
theorem callNative_eq (m : Machine) (f : Native) (args : List Value) (w : World) :
    Evaluation.callNative m f args w = match (f.run m args).run w with
      | .ok (.ok v) w' => .ok v w'
      | .ok (.error r) w' => .error (.refused (.native f r)) w'
      | .error e w' => .error e w' := by
  simp only [Evaluation.callNative, Bind.bind, EStateM.bind]
  rcases (f.run m args).run w with ⟨v | r, w₁⟩ | ⟨e, w₁⟩ <;> rfl

theorem callNative_atomic {m : Machine} (hf : f.callsBack = false) {e : Stop}
    (h : Evaluation.callNative m f args w = .error e w') :
    e = .exhausted ∨ (∃ r, e = .refused (.native f r)) ∧ w' = w := by
  have ha := f.run_atomic m hf args
  rw [callNative_eq] at h
  split at h <;> cases h
  · exact .inr ⟨⟨_, rfl⟩, ha.refused ‹_›⟩
  · exact .inl (ha.stopped ‹_›).2

/-- With arguments given ahead or without. -/
theorem call_atomic (hg : g.flatten.2.1 = .native f) (hf : f.callsBack = false) {e : Stop}
    (h : call resolve n g args w = .error e w') :
    e = .exhausted ∨ (∃ r, e = .refused (.native f r)) ∧ w' = w := by
  cases n with
  | zero =>
    cases h
    exact .inl rfl
  | succ n =>
    simp only [call, Evaluation.call, hg] at h
    exact callNative_atomic hf h

/-- What `assertError` makes of the call that it waits for to fail. -/
theorem assertError_eq (call : Function → List Value → Run Value) (g : Function) (w : World) :
    (Check.assertError call [.function g]).run w = match call g [] w with
      | .ok _ w' => .ok (.error .noError) w'
      | .error (.fault _) w' => .ok (.ok .null) w'
      | .error (.refused _) w' => .ok (.ok .null) w'
      | .error e w' => .error e w' := by
  have hrun : (Check.assertError call [.function g]).run w
      = (do
          let b ← (ExceptT.lift (Check.fails call g) : ExceptT Refusal Run Bool)
          if b then return .null
          throw Refusal.noError : ExceptT Refusal Run Value) w := rfl
  have hlift : (ExceptT.lift (Check.fails call g) : ExceptT Refusal Run Bool) w
      = match Check.fails call g w with
        | .ok b w' => .ok (.ok b) w'
        | .error e w' => .error e w' := by
    simp only [ExceptT.lift, ExceptT.mk, Functor.map, EStateM.map]
    cases Check.fails call g w <;> rfl
  simp only [hrun, Bind.bind, ExceptT.bind, EStateM.bind, ExceptT.mk, hlift, Check.fails]
  rcases call g [] w with ⟨v, w₁⟩ | ⟨e, w₁⟩
  · rfl
  · cases e <;> rfl

/-- An `assertError` that is content has swallowed a failure. -/
theorem assertError_atomic (hg : g.flatten.2.1 = .native f) (hf : f.callsBack = false) {v : Value}
    (h : call resolve n (.native .assertError) [.function g] w = .ok v w') : w' = w := by
  cases n with
  | zero => cases h
  | succ n =>
    change Evaluation.callNative (machine n resolve) .assertError [.function g] w = _ at h
    have hrun : (Native.assertError.run (machine n resolve) [.function g]).run w = _ :=
      assertError_eq (call resolve n) g w
    rw [callNative_eq, hrun] at h
    rcases hcall : call resolve n g [] w with ⟨u, w₁⟩ | ⟨e, w₁⟩ <;> rw [hcall] at h
    · cases h
    · rcases call_atomic hg hf hcall with rfl | ⟨⟨r, rfl⟩, rfl⟩
      · cases h
      · cases h
        rfl

/-- A failing function of the library leaves no trace: a call of one that calls no other function
either answers or leaves the whole world as it was, whatever its arguments, those given ahead among
them, unless it was cut short as it took more steps than it was granted. That `assertError` swallows
the failure does not change the world either. -/
theorem failing_leaves_no_trace (f : Native) (hf : f.callsBack = false) (w w' : World) :
    (∀ (m : Machine) (args : List Value) (r : Refusal),
      (f.run m args).run w = .ok (.error r) w' → w' = w)
    ∧ (∀ (m : Machine) (args : List Value) (e : Stop),
      (f.run m args).run w = .error e w' → f = .randomBiased ∧ e = .exhausted)
    ∧ ∀ (resolve : String → Run Address) (n : Nat) (g : Function), g.flatten.2.1 = .native f →
      (∀ (args : List Value) (e : Stop), call resolve n g args w = .error e w' →
        e = .exhausted ∨ (∃ r, e = .refused (.native f r)) ∧ w' = w)
      ∧ ∀ v : Value,
        call resolve n (.native .assertError) [.function g] w = .ok v w' → w' = w := by
  refine ⟨fun m args r => (f.run_atomic m hf args).refused,
    fun m args e => (f.run_atomic m hf args).stopped, fun resolve n g hg => ⟨?_, ?_⟩⟩
  · exact fun args e => call_atomic hg hf
  · exact fun v => assertError_atomic hg hf

/-- A text is refused for its alignment, the last thing that is checked, on a canvas that is there;
and so it is within `assertError`. -/
theorem failing_leaves_no_trace_fillText :
    let w : World := { random := .ofSeed "seed", canvases := [("c", { width := 1, height := 1 })] }
    let args : List Value := [.string "c", .string "t", .nat 0, .nat 0, .string "nowhere"]
    let g : Function := .applied .left args (.native .canvasFillText)
    Native.callsBack .canvasFillText = false ∧ g.flatten.2.1 = .native .canvasFillText
    ∧ ∃ w₁ w₂ w₃,
      ((Native.canvasFillText.run (machine 0) args).run w = .ok (.error (.hAlign "nowhere")) w₁
        ∧ w₁ = w)
      ∧ (call Run.resolve 1 g [] w
          = .error (.refused (.native .canvasFillText (.hAlign "nowhere"))) w₂ ∧ w₂ = w)
      ∧ call Run.resolve 2 (.native .assertError) [.function g] w = .ok .null w₃ ∧ w₃ = w := by
  intro w args g
  have hrun : (Native.canvasFillText.run (machine 0) args).run w
      = .ok (.error (.hAlign "nowhere")) w := rfl
  have hcall : call Run.resolve 1 g [] w
      = .error (.refused (.native .canvasFillText (.hAlign "nowhere"))) w := rfl
  have hassert : call Run.resolve 2 (.native .assertError) [.function g] w = .ok .null w := rfl
  obtain ⟨hrefused, -, hcalls⟩ := failing_leaves_no_trace .canvasFillText rfl w w
  have hkept : w = w := by
    rcases (hcalls _ _ g rfl).1 _ _ hcall with h | ⟨-, h⟩
    · cases h
    · exact h
  exact ⟨rfl, rfl, w, w, w, ⟨hrun, hrefused _ _ _ hrun⟩, ⟨hcall, hkept⟩, hassert,
    (hcalls _ _ g rfl).2 _ hassert⟩

end Tale
