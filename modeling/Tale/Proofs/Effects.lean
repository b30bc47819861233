import Tale.Library.Call
import Tale.Proofs.Regime

/-!
# What functions of the library change

A function of the library that calls no other one takes its arguments and looks at the world first,
which changes nothing (`Checks`). What it does after that is not refused any more (`Does`). So it
changes the world only if it answers (`Acts`), which is seen of each function step by step. All but
the one that pins a function keep to what does not matter to scopes and cells (`Mild`).

Only `timeEnd` can refuse after a step that changes worlds, since it takes a timer away to see
whether there is one. Where there is none, nothing is taken away.
-/

namespace Tale

variable {α β : Type}

/-! ## Answers made of arguments -/

/-- `V` holds of the result, if there is one. -/
def Gives (V : α → Prop) (x : Except Refusal α) : Prop :=
  ∀ a, x = .ok a → V a

namespace Gives

variable {V : α → Prop} {U : β → Prop} {x : Except Refusal α}

theorem any : Gives (fun _ => True) x :=
  fun _ _ => trivial

theorem pure {a : α} (h : V a) : Gives V (pure a) := by
  rintro b ⟨⟩
  exact h

theorem throw {e : Refusal} : Gives V (throw e) := by
  rintro b ⟨⟩

theorem bind {f : α → Except Refusal β} (h : Gives V x) (hf : ∀ a, V a → Gives U (f a)) :
    Gives U (x >>= f) := by
  rcases x with e | a
  · exact throw
  · exact hf a (h a rfl)

theorem guard {p : Prop} [Decidable p] {e : Refusal} {k : PUnit → Except Refusal β}
    (h : Gives U (k ⟨⟩)) : Gives U (if p then MonadExcept.throw e >>= k else k ⟨⟩) := by
  split
  · exact bind (throw (V := fun _ => False)) fun _ hf => hf.elim
  · exact h

end Gives

namespace Library

/-! ## Steps -/

variable {w : World}

/-- A computation that leaves the world `w` as it is; `V` holds of what it finds there. -/
def Checks (V : α → Prop) (w : World) (x : ExceptT Refusal Run α) : Prop :=
  ∃ r, x w = .ok r w ∧ Gives V r

/-- How a computation ends that cannot refuse. If it goes round a loop (`L`), it may run out of
turns. -/
inductive Done (L : Prop) (E : World → Prop) : EStateM.Result Stop World α → Prop
  | value {a : α} {w' : World} (change : E w') : Done L E (.ok a w')
  | exhausted {w' : World} (loops : L) (change : E w') : Done L E (.error .exhausted w')

/-- A computation that cannot refuse in the world `w`, of which it makes one of `E`. -/
def Does (L : Prop) (E : World → Prop) (w : World) (x : Run α) : Prop :=
  Done L E (x w)

/-- How a computation ends that changes the world `w` only if it does not refuse. -/
inductive Ends (L : Prop) (E : World → Prop) (V : α → Prop) (w : World) :
    EStateM.Result Stop World (Except Refusal α) → Prop
  | answer {a : α} {w' : World} (change : E w') (value : V a) : Ends L E V w (.ok (.ok a) w')
  | refusal {r : Refusal} : Ends L E V w (.ok (.error r) w)
  | exhausted {w' : World} (loops : L) (change : E w') : Ends L E V w (.error .exhausted w')

/-- A computation that changes the world `w` only if it does not refuse, and then makes of it one
of `E`. -/
def Acts (L : Prop) (E : World → Prop) (V : α → Prop) (w : World) (x : ExceptT Refusal Run α) :
    Prop :=
  Ends L E V w (x w)

theorem bind_run {x : ExceptT Refusal Run α} {f : α → ExceptT Refusal Run β} {r : Except Refusal α}
    {w' : World} (h : x w = .ok r w') : (x >>= f) w = ExceptT.bindCont f r w' := by
  change EStateM.bind x (ExceptT.bindCont f) w = _
  rw [EStateM.bind, h]

theorem Checks.given {V : α → Prop} {r : Except Refusal α} (h : Gives V r) :
    Checks V w (liftM r) :=
  ⟨r, rfl, h⟩

theorem Does.modify {L : Prop} {E : World → Prop} {f : World → World} (h : E (f w)) :
    Does L E w (modify f) :=
  .value h

namespace Acts

variable {L : Prop} {E : World → Prop} {V : β → Prop} {W : α → Prop}

theorem check {x : ExceptT Refusal Run α} {f : α → ExceptT Refusal Run β} (hx : Checks W w x)
    (hf : ∀ a, W a → Acts L E V w (f a)) : Acts L E V w (x >>= f) := by
  obtain ⟨r, hr, hw⟩ := hx
  rw [Acts, bind_run hr]
  rcases r with r | a
  · exact .refusal
  · exact hf a (hw a rfl)

/-- An argument of which nothing is to be known. -/
theorem take {r : Except Refusal α} {f : α → ExceptT Refusal Run β}
    (hf : ∀ a, Acts L E V w (f a)) : Acts L E V w (liftM r >>= f) :=
  check (.given .any) fun a _ => hf a

theorem guard {p : Prop} [Decidable p] {r : Refusal} {f : PUnit → ExceptT Refusal Run β}
    (h : ¬ p → Acts L E V w (f ⟨⟩)) :
    Acts L E V w (if p then MonadExcept.throw r >>= f else f ⟨⟩) := by
  split
  · exact .refusal
  · exact h ‹_›

/-- The last step, after which there is only the answer. -/
theorem last {x : Run α} {g : α → β} (hx : Does L E w x) (hg : ∀ a, V (g a)) :
    Acts L E V w (liftM x >>= fun a => pure (g a)) := by
  rw [Does] at hx
  rcases hr : x w with ⟨a, w'⟩ | ⟨e, w'⟩ <;> rw [hr] at hx
  · have hlift : (liftM x : ExceptT Refusal Run α) w = .ok (.ok a) w' := by
      change EStateM.map Except.ok x w = _
      rw [EStateM.map, hr]
    rw [Acts, bind_run hlift]
    cases hx with
    | value change => exact .answer change (hg a)
  · have hstop : (liftM x >>= fun a => pure (g a) : ExceptT Refusal Run β) w = .error e w' := by
      change EStateM.bind (EStateM.map Except.ok x) _ w = _
      rw [EStateM.bind, EStateM.map, hr]
    rw [Acts, hstop]
    cases hx with
    | exhausted loops change => exact .exhausted loops change

end Acts

/-! ## Changes -/

/-- Neither cells and scopes nor the pinned function change, and what is put out is only added. -/
structure Mild (w w' : World) : Prop where
  cells : w'.cells = w.cells
  scopes : w'.scopes = w.scopes
  pinned : w'.pinned = w.pinned
  content : w.content.toList <+: w'.content.toList

theorem Mild.refl (w : World) : Mild w w :=
  ⟨rfl, rfl, rfl, List.prefix_rfl⟩

theorem Mild.trans {w₁ w₂ w₃ : World} (h : Mild w₁ w₂) (h' : Mild w₂ w₃) : Mild w₁ w₃ :=
  ⟨h'.cells.trans h.cells, h'.scopes.trans h.scopes, h'.pinned.trans h.pinned,
    h.content.trans h'.content⟩

namespace Does

variable {L : Prop}

theorem bind {x : Run α} {f : α → Run β} (hx : Does L (Mild w) w x)
    (hf : ∀ a w', Does L (Mild w') w' (f a)) : Does L (Mild w) w (x >>= f) := by
  rw [Does] at hx
  simp only [Does, Bind.bind, EStateM.bind]
  generalize x w = o at hx
  cases hx with
  | exhausted loops change => exact .exhausted loops change
  | @value a w₁ change =>
    have h := hf a w₁
    rw [Does] at h
    change Done L (Mild w) (f a w₁)
    generalize f a w₁ = o at h ⊢
    cases h with
    | value change' => exact .value (change.trans change')
    | exhausted loops change' => exact .exhausted loops (change.trans change')

theorem pure {a : α} : Does L (Mild w) w (pure a) :=
  .value (.refl w)

theorem throw : Does True (Mild w) w (throw .exhausted : Run α) :=
  .exhausted trivial (.refl w)

theorem emit (n : Node) : Does L (Mild w) w (Run.emit n) :=
  .modify ⟨rfl, rfl, rfl, w.content_emit n⟩

theorem draw (sample : Random → Float × Random) : Does L (Mild w) w (Run.draw sample) :=
  .value ⟨rfl, rfl, rfl, List.prefix_rfl⟩

theorem sample (b : Chance.Bell) : Does L (Mild w) w b.sample :=
  (draw _).bind fun _ _ => (draw _).bind fun _ _ => pure

/-- Numbers are drawn until one falls into the range. -/
theorem bell (b : Chance.Bell) (n : Nat) : Does True (Mild w) w (b.draw n) := by
  induction n generalizing w with
  | zero => exact throw
  | succ n ih =>
    rw [Chance.Bell.draw]
    refine (sample b).bind fun x _ => ?_
    split
    · exact pure
    · exact ih

theorem describe (text : Option String) : Does L (Mild w) w (Reader.describe text) :=
  .modify ⟨rfl, rfl, rfl, List.prefix_rfl⟩

theorem addTimer (name : String) : Does L (Mild w) w (Check.addTimer name) :=
  .modify ⟨rfl, rfl, rfl, List.prefix_rfl⟩

theorem addCanvas (id : String) (c : Canvas) : Does L (Mild w) w (Drawing.addCanvas id c) :=
  .modify ⟨rfl, rfl, rfl, List.prefix_rfl⟩

theorem putCanvas (id : String) (c : Canvas) : Does L (Mild w) w (Drawing.putCanvas id c) :=
  .modify ⟨rfl, rfl, rfl, List.prefix_rfl⟩

theorem putOut (p : Provider) (id : String) (c : Canvas) :
    Does L (Mild w) w (Drawing.putOut p id c) :=
  (putCanvas id _).bind fun _ _ => emit _

end Does

/-! ## Functions that look at the world -/

namespace Checks

theorem provider : Checks (· = w.provider) w (liftM Drawing.provider) :=
  ⟨.ok w.provider, rfl, .pure rfl⟩

theorem canvasExists (id : String) :
    Checks (· = (w.canvases.lookup id).isSome) w (liftM (Drawing.canvasExists id)) :=
  ⟨.ok (w.canvases.lookup id).isSome, rfl, .pure rfl⟩

theorem timerRuns (name : String) :
    Checks (· = w.timers.contains name) w (liftM (Check.timerRuns name)) :=
  ⟨.ok (w.timers.contains name), rfl, .pure rfl⟩

theorem canvas (id : String) : Checks (w.canvases.lookup id = some ·) w (Drawing.canvas id) := by
  rw [Checks, Drawing.canvas_run]
  cases w.canvases.lookup id with
  | some c => exact ⟨.ok c, rfl, .pure rfl⟩
  | none => exact ⟨.error (.canvasUnknown id), rfl, .throw⟩

end Checks

/-! ## Answers -/

/-- A value that no code and no action comes with. -/
def Plain (v : Value) : Prop :=
  ∀ N : Norm, v.Meets N

/-- An answer that is given or refused in the world `w`, with a mild change only if it is given. -/
def Settles (w : World) (answer : Answer) : Prop :=
  Acts False (Mild w) Plain w answer

section Functions

variable {args : List Value}

namespace Contents

theorem paragraph_settles : Settles w (paragraph args) :=
  .take fun _ => .take fun _ => .last (.emit _) fun _ _ => trivial

theorem image_settles : Settles w (image args) :=
  .take fun _ => .take fun _ => .last (.emit _) fun _ _ => trivial

theorem items_settles {tag : String} : Settles w (items tag args) :=
  .take fun _ => .last (.emit _) fun _ _ => trivial

theorem header_settles : Settles w (header args) :=
  .take fun _ => .take fun _ => .take fun _ => .take fun _ => .last (.emit _) fun _ _ => trivial

theorem table_settles : Settles w (table args) :=
  .take fun _ => .take fun _ => .take fun _ => .last (.emit _) fun _ _ => trivial

theorem rule_settles : Settles w (rule args) :=
  .take fun _ => .last (.emit _) fun _ _ => trivial

end Contents

namespace Chance

theorem between_settles : Settles w (between args) :=
  .take fun _ => .take fun _ => .take fun _ => .last (.draw _) fun _ _ => trivial

theorem whole_settles : Settles w (whole args) :=
  .take fun _ => .take fun _ => .take fun _ => .last (.draw _) fun _ _ => trivial

theorem boolean_settles : Settles w (boolean args) :=
  .take fun _ => .take fun _ => .last (.draw _) fun _ _ => trivial

theorem biased_acts {turns : Nat} : Acts True (Mild w) Plain w (biased turns args) :=
  .take fun _ => .last (.bell _ _) fun _ _ => trivial

end Chance

namespace Reader

theorem setStateText_settles : Settles w (setStateText args) :=
  .take fun _ => .take fun _ => .last (.describe _) fun _ _ => trivial

theorem unsetStateText_settles : Settles w (unset (describe none) args) :=
  .take fun _ => .last (.describe _) fun _ _ => trivial

/-- The function that is pinned is the argument. -/
theorem setPinned_acts {V : Function → Prop} (h : Gives V (Arguments.function args 0)) :
    Acts False (fun w' => ∃ f, V f ∧ w' = { w with pinned := some f }) (· = .null) w
      (setPinned args) :=
  .take fun _ => .check (.given h) fun f hf => .last (.modify ⟨f, hf, rfl⟩) fun _ => rfl

theorem unsetPinned_acts :
    Acts False (· = { w with pinned := none }) (· = .null) w (unset (pin none) args) :=
  .take fun _ => .last (.modify rfl) fun _ => rfl

end Reader

namespace Check

theorem timeStart_settles : Settles w (timeStart args) :=
  .take fun _ => .check (.timerRuns _) fun _ _ =>
    .guard fun _ => .last (.addTimer _) fun _ _ => trivial

/-- The function refuses after its change, but then it has changed nothing. -/
theorem timeEnd_settles : Settles w (timeEnd args) := by
  refine .take fun name => ?_
  change Ends _ _ _ w ((if !w.timers.contains name then throw (.timerUnknown name) >>= fun _ =>
    pure .null else pure .null : Answer) { w with timers := w.timers.filter (· != name) })
  cases h : w.timers.contains name with
  | true => exact .answer ⟨rfl, rfl, rfl, List.prefix_rfl⟩ fun _ => trivial
  | false =>
    have hkept : w.timers.filter (· != name) = w.timers := by
      refine List.filter_eq_self.mpr fun name' hn => ?_
      simp only [bne_iff_ne]
      rintro rfl
      simp [hn] at h
    rw [hkept]
    exact .refusal

end Check

namespace Drawing

theorem create_settles : Settles w (create args) :=
  .take fun _ => .take fun _ => .take fun _ => .take fun _ =>
    .check (.canvasExists _) fun _ _ => .guard fun _ =>
      .take fun _ => .take fun _ => .last (.addCanvas _ _) fun _ _ => trivial

theorem output_settles : Settles w (output args) :=
  .take fun _ => .check .provider fun _ _ => .check (.canvas _) fun _ _ =>
    .last (.putOut _ _ _) fun _ _ => trivial

theorem queue_settles {id : String} {command : DrawCommand} : Settles w (queue id command) :=
  .check (.canvas _) fun _ _ => .last (.putCanvas _ _) fun _ _ => trivial

theorem text_settles {draw : String → Float → Float → String → String → DrawCommand} :
    Settles w (text draw args) :=
  .take fun _ => .take fun _ => .take fun _ => .take fun _ => .take fun _ =>
    .check (.canvas _) fun _ _ => .take fun _ => queue_settles

theorem putImage_settles : Settles w (putImage args) :=
  .take fun _ => .take fun _ => .take fun _ => .take fun _ => .take fun _ => .take fun _ =>
    .take fun _ => .take fun _ => queue_settles

theorem putImagePart_settles : Settles w (putImagePart args) :=
  .take fun _ => .take fun _ => .take fun _ => .take fun _ => .take fun _ => .take fun _ =>
    .take fun _ => .take fun _ => .take fun _ => .take fun _ => .take fun _ => .take fun _ =>
      queue_settles

theorem setFont_settles : Settles w (setFont args) :=
  .take fun _ => .take fun _ => .take fun _ => .take fun _ => queue_settles

theorem style_settles {draw : String → DrawCommand} : Settles w (style draw args) :=
  .take fun _ => .take fun _ => .take fun _ => queue_settles

theorem fillRect_settles : Settles w (fillRect args) :=
  .take fun _ => .take fun _ => .take fun _ => .take fun _ => .take fun _ => .take fun _ =>
    queue_settles

theorem setLineWidth_settles : Settles w (setLineWidth args) :=
  .take fun _ => .take fun _ => .take fun _ => queue_settles

theorem clear_settles : Settles w (clear args) :=
  .take fun _ => queue_settles

end Drawing

end Functions

end Library

end Tale
