import Tale.Proofs.Replays

/-!
# The protocol of a telling

What a call comes to is settled by what the reader was told last. `Prompt` is what the answers so
far ask for, with the choices as the last step showed them, and a call that does not fit it is
rejected. `resume_prompted` says so of every call after any row of calls, whatever was accepted,
rejected or failed on the way: the choices a telling accepts are those it showed as enabled, and
the other calls leave it as it was.
-/

namespace Tale

/-- What answers ask the reader for. -/
inductive Prompt
  | start
  | choose (offers : List Offer)
  | ended
  deriving DecidableEq

namespace Prompt

/-- Nothing is asked anew by a rejection, and nothing at all after an error of the story. -/
def after (p : Prompt) : Except StepError Step → Prompt
  | .ok (.waiting output) => .choose output.offers
  | .ok (.finished _) => .ended
  | .error e => if e.isRejection then p else .ended

/-- Why a call does not fit, if it does not. -/
def refusal : Prompt → Option Nat → Option StepError
  | start, none => none
  | start, some i => some (.invalidChoice i)
  | choose _, none => some .choiceRequired
  | choose offers, some i =>
    match offers[i]? with
    | some o => if o.disabled then some (.invalidChoice i) else none
    | none => some (.invalidChoice i)
  | ended, _ => some .finished

/-- A telling at this stage waits for what the prompt asks for. -/
def At : Prompt → Stage → Prop
  | start, stage => stage = .unstarted
  | choose offers, stage => ∃ choices, stage = .waiting choices ∧ choices.map Choice.offer = offers
  | ended, stage => stage = .finished

end Prompt

/-- Answered without anything being done. -/
def Rejected : Except StepError Step → Prop
  | .ok _ => False
  | .error e => e.isRejection = true

namespace Telling

/-- What a row of answers, the earliest first, asks for in the end. -/
def prompt (answers : List (Except StepError Step)) : Prompt :=
  answers.foldl Prompt.after .start

/-! ## Steps -/

/-- What a computation comes to if it does not stop. -/
def Ensures {α : Type} (x : Tell α) (Q : α → Telling → Prop) : Prop :=
  ∀ ⦃t a t'⦄, x t = .ok a t' → Q a t'

/-- The offers that a flow shows are made of the choices it waits for. -/
def Flow.Shown : Flow → Prop
  | .goOn => True
  | .wait output choices => choices.map Choice.offer = output.offers

section Ensures

variable {α β : Type} {Q : β → Telling → Prop}

theorem of_bind {x : Tell α} {f : α → Tell β} {t t' : Telling} {b : β}
    (h : (x >>= f) t = .ok b t') : ∃ a s, x t = .ok a s ∧ f a s = .ok b t' := by
  simp only [Bind.bind, EStateM.bind] at h
  split at h
  · exact ⟨_, _, ‹_›, h⟩
  · cases h

theorem of_located {x : Tell α} {t t' : Telling} {a : α} (h : located x t = .ok a t') :
    x t = .ok a t' := by
  rw [located] at h
  split at h
  · cases h
    assumption
  · cases h

theorem Ensures.pure {b : β} (h : ∀ t, Q b t) : Ensures (pure b) Q := by
  rintro t _ _ ⟨⟩
  exact h t

theorem Ensures.stop {e : Stop} : Ensures (throw e) Q := by
  intro t b t' h
  have he : (throw e : Tell β) t = .error e t := rfl
  rw [he] at h
  cases h

theorem Ensures.bind {x : Tell α} {f : α → Tell β} {P : α → Prop} (hx : Ensures x fun a _ => P a)
    (hf : ∀ a, P a → Ensures (f a) Q) : Ensures (x >>= f) Q := by
  intro t b t' h
  obtain ⟨a, s, ha, h⟩ := of_bind h
  exact hf a (hx ha) h

/-- What comes before the last part of a computation does not matter. -/
theorem Ensures.last {x : Tell α} {f : α → Tell β} (hf : ∀ a, Ensures (f a) Q) :
    Ensures (x >>= f) Q :=
  .bind (P := fun _ => True) (fun _ _ _ _ => trivial) fun a _ => hf a

theorem Ensures.located {x : Tell β} (h : Ensures x Q) : Ensures (located x) Q :=
  fun _ _ _ hb => h (of_located hb)

end Ensures

theorem act_shown (a : Action) : Ensures (act a) fun flow _ => flow.Shown := by
  cases a with
  | goto names =>
    refine .last fun t => ?_
    split
    · exact .last fun _ => .pure fun _ => trivial
    · exact .stop
  | exit => exact .last fun _ => .pure fun _ => trivial
  | selection choices => exact .last fun _ => .last fun _ => .pure fun _ => rfl

theorem actOn_shown {otherwise : Value → Tell Flow}
    (h : ∀ v, Ensures (otherwise v) fun flow _ => flow.Shown) (v : Value) :
    Ensures (actOn otherwise v) fun flow _ => flow.Shown := by
  unfold actOn
  split
  · exact act_shown _
  · exact .pure fun _ => trivial
  · exact h v

theorem perform_shown (c : Consequence) : Ensures (perform c) fun flow _ => flow.Shown := by
  cases c with
  | act a => exact act_shown a
  | call f creator => exact .last (actOn_shown fun _ => .stop)

theorem enter_shown (s : Section Nat) : Ensures (enter s) fun flow _ => flow.Shown := by
  rw [enter]
  split
  · exact .last fun _ => .last fun _ => .last fun _ => .last fun _ => .last
      (actOn_shown fun _ => .stop)
  · exact .last fun _ => .last fun _ => .last fun _ => .last
      (actOn_shown fun _ => .stop)

theorem init_shown : Ensures init fun flow _ => flow.Shown :=
  .last fun _ => .last fun _ => .pure fun _ => trivial

/-- The telling is left waiting for what the step shows. -/
def Prompts (s : Step) (t : Telling) : Prop :=
  (Prompt.start.after (.ok s)).At t.stage

theorem suspend_prompts {output : Output} {choices : List Choice}
    (h : (Flow.wait output choices).Shown) : Ensures (suspend output choices) Prompts := by
  rintro t _ _ ⟨⟩
  exact ⟨choices, rfl, h⟩

theorem finish_prompts : Ensures finish Prompts := by
  refine .last fun _ => .last fun _ => ?_
  rintro t _ _ ⟨⟩
  rfl

theorem proceed_prompts : ∀ turns, Ensures (proceed turns) Prompts
  | 0 => .stop
  | n + 1 => by
    refine .last fun t => ?_
    split
    · exact finish_prompts
    · rename_i s _ _
      refine .last fun _ => .bind (enter_shown s).located fun flow hf => ?_
      cases flow with
      | goOn => exact proceed_prompts n
      | wait output choices => exact suspend_prompts hf

theorem step_prompts {first : Tell Flow} (h : Ensures first fun flow _ => flow.Shown) :
    Ensures (step first) Prompts := by
  refine .bind h.located fun flow hf => ?_
  cases flow with
  | goOn => exact .last fun t => proceed_prompts _
  | wait output choices => exact suspend_prompts hf

/-! ## Calls -/

/-- A call that is accepted leaves the telling waiting for what its answer asks for. -/
theorem advance_at {first : Tell Flow} (h : Ensures first fun flow _ => flow.Shown) (t : Telling)
    (p : Prompt) :
    ¬ Rejected (t.advance first).1
      ∧ (p.after (t.advance first).1).At (t.advance first).2.stage := by
  rw [advance]
  rcases hs : step first t with ⟨s, t'⟩ | ⟨e, t'⟩
  · have hp := step_prompts h hs
    refine ⟨id, ?_⟩
    cases s with
    | waiting output => exact hp
    | finished output => exact hp
  · have he := stepError_isRejection e
    refine ⟨fun hr => ?_, ?_⟩
    · rw [Rejected, he] at hr
      cases hr
    · rw [Prompt.after, he]
      rfl

theorem resume_waiting {t : Telling} {choices : List Choice} (h : t.stage = .waiting choices)
    (i : Option Nat) : t.resume i = match i with
      | none => (.error .choiceRequired, t)
      | some i =>
        match choices[i]?.bind (·.consequence) with
        | some c => t.advance (perform c)
        | none => (.error (.invalidChoice i), t) := by
  unfold resume
  rw [h]
  cases i <;> rfl

theorem resume_finished {t : Telling} (h : t.stage = .finished) (i : Option Nat) :
    t.resume i = (.error .finished, t) := by
  unfold resume
  rw [h]

/-- An index is refused if no choice is shown there, or one without a consequence. -/
theorem refusal_choose (choices : List Choice) (i : Nat) :
    (Prompt.choose (choices.map Choice.offer)).refusal (some i)
      = match choices[i]?.bind (·.consequence) with
        | some _ => none
        | none => some (.invalidChoice i) := by
  rw [Prompt.refusal, List.getElem?_map]
  rcases choices[i]? with _ | ⟨text, _ | c⟩ <;> rfl

/-- One call: it is rejected as the prompt says, or not at all. Either way the telling then waits
for what the answers up to this one ask for. -/
theorem resume_at {p : Prompt} {t : Telling} (h : p.At t.stage) (i : Option Nat) :
    (match p.refusal i with
      | some e => t.resume i = (.error e, t)
      | none => ¬ Rejected (t.resume i).1)
      ∧ (p.after (t.resume i).1).At (t.resume i).2.stage := by
  cases p with
  | start =>
    rw [Prompt.At] at h
    rw [resume_unstarted h]
    cases i with
    | none => exact advance_at init_shown t .start
    | some i => exact ⟨rfl, h⟩
  | choose offers =>
    obtain ⟨choices, hs, rfl⟩ := h
    rw [resume_waiting hs]
    cases i with
    | none => exact ⟨rfl, choices, hs, rfl⟩
    | some i =>
      simp only [refusal_choose]
      rcases choices[i]?.bind (·.consequence) with _ | c
      · exact ⟨rfl, choices, hs, rfl⟩
      · exact advance_at (perform_shown c) t _
  | ended =>
    rw [resume_finished h]
    exact ⟨rfl, h⟩

/-- A row of calls leaves a telling waiting for what the answers ask for. -/
theorem run_at : ∀ (calls : List (Option Nat)) {p : Prompt} {t : Telling}, p.At t.stage →
    ((t.run calls).1.foldl Prompt.after p).At (t.run calls).2.stage
  | [], _, _, h => h
  | i :: is, p, t, h => by
    rw [run_cons, List.foldl_cons]
    exact run_at is (resume_at h i).2

theorem resume_prompted (story : Story Unit) (seed : String) (provider : Provider) (limit : Nat)
    (calls : List (Option Nat)) (i : Option Nat) :
    let r := (ofStory story seed provider limit).run calls
    (match (prompt r.1).refusal i with
      | some e => r.2.resume i = (.error e, r.2)
      | none => ¬ Rejected (r.2.resume i).1)
      ∧ (Rejected (r.2.resume i).1 → (r.2.resume i).2 = r.2) := by
  intro r
  have hs : Prompt.start.At (ofStory story seed provider limit).stage := rfl
  refine ⟨(resume_at (run_at calls hs) i).1, fun h => ?_⟩
  rcases ha : (r.2.resume i).1 with e | s
  · rw [ha] at h
    exact resume_rejected ha h
  · rw [ha] at h
    cases h

/-- After a call out of turn and the first step there are two choices, and no sixth one. -/
theorem resume_prompted_roundabout :
    let r := (ofStory roundabout "seed" {} 9).run [some 0, none, none]
    prompt r.1 = .choose [⟨"again", false⟩, ⟨"stop", false⟩]
      ∧ r.2.resume (some 5) = (.error (.invalidChoice 5), r.2) := by
  intro r
  have hp : prompt r.1 = .choose [⟨"again", false⟩, ⟨"stop", false⟩] := by
    decide +kernel
  have h := (resume_prompted roundabout "seed" {} 9 [some 0, none, none] (some 5)).1
  rw [hp] at h
  exact ⟨hp, h⟩

end Telling

end Tale
