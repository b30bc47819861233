import Tale.Proofs.Protocol
import Tale.Proofs.Sessions
import Tale.Script.Run

/-!
# Scripts run as they replay

A script's run and the replay of its choices are two loops over one telling. The run looks at each
step before it takes the next choice, so it stops where the story ends, and a choice too many or
too few is an error of the script; the replay takes whatever it is given. What the one comes to can
be told from the other (`run_agrees`). One induction over the choices compares the loops
(`follow_comes`); that the run never uses up its steps is where the number of choices matters.
-/

namespace Tale

namespace Telling

/-- The last step of a telling that goes on with a call and then takes choices. -/
def takes (t : Telling) (choice : Option Nat) (is : List Nat) : Except StepError (Step × Telling) :=
  match t.resume choice with
  | (.ok s, t) => t.follow s is
  | (.error e, _) => .error e

variable {t t' : Telling} {choice : Option Nat} {s : Step} {e : StepError}

theorem takes_error (h : t.resume choice = (.error e, t')) (is : List Nat) :
    t.takes choice is = .error e := by
  rw [takes, h]

theorem takes_nil (h : t.resume choice = (.ok s, t')) : t.takes choice [] = .ok (s, t') := by
  rw [takes, h]
  rfl

theorem takes_cons (h : t.resume choice = (.ok s, t')) (i : Nat) (is : List Nat) :
    t.takes choice (i :: is) = t'.takes (some i) is := by
  rw [takes, h]
  rfl

theorem exists_prompt (t : Telling) : ∃ p : Prompt, p.At t.stage := by
  rcases t.stage with _ | choices | _
  · exact ⟨.start, rfl⟩
  · exact ⟨.choose (choices.map Choice.offer), choices, rfl, rfl⟩
  · exact ⟨.ended, rfl⟩

/-- Nothing is left to choose after the last step. -/
theorem takes_over (h : t.resume choice = (.ok s, t')) (hs : s.isFinished = true) (i : Nat)
    (is : List Nat) : t.takes choice (i :: is) = .error .finished := by
  obtain ⟨p, hp⟩ := t.exists_prompt
  have ht := (resume_at hp choice).2
  rw [h] at ht
  cases s with
  | waiting output => cases hs
  | finished output =>
    rw [takes_cons h]
    exact takes_error (resume_finished ht _) is

end Telling

/-- Whether an event offers choices. -/
def Event.isChoices : Event → Bool
  | choices _ _ => true
  | _ => false

namespace Script

/-- The last step of a story that takes choices, with a script's seed. -/
def replay (s : Script) (source : String) (decisions : List Nat) :
    Except Failure (Step × Telling) :=
  match Document.parse {} source with
  | .error e => .error (.source e)
  | .ok story =>
    match (Telling.ofStory story s.seed).replay decisions with
    | .error e => .error (.step e)
    | .ok p => .ok p

/-! ## Counting -/

namespace Report

/-- How many times choices were offered. -/
def offers (r : Report) : Nat :=
  r.events.countP Event.isChoices

/-- The steps of a report, and the choices that were taken; choices were offered just as often. -/
structure Counts (r : Report) (steps taken : Nat) : Prop where
  steps : r.steps = steps
  consumed : r.consumed = taken
  offers : r.offers = taken

variable {r : Report} {n k : Nat}

theorem offers_push (r : Report) (e : Event) :
    (r.push e).offers = r.offers + if e.isChoices then 1 else 0 :=
  Array.countP_push

theorem offers_append (r : Report) (es : Array Event) :
    (r.append es).offers = r.offers + es.countP Event.isChoices :=
  Array.countP_append

theorem Counts.step (h : r.Counts n k) : Counts { r with steps := r.steps + 1 } (n + 1) k :=
  ⟨congrArg (· + 1) h.steps, h.consumed, h.offers⟩

theorem Counts.push (h : r.Counts n k) {e : Event} (he : e.isChoices = false) :
    (r.push e).Counts n k := by
  refine ⟨h.steps, h.consumed, ?_⟩
  rw [offers_push, he]
  exact h.offers

theorem Counts.shown (h : r.Counts n k) (nodes : List Node) :
    (r.append (shown nodes)).Counts n k := by
  have hs : (Script.shown nodes).countP Event.isChoices = 0 := by
    unfold Script.shown
    split <;> rfl
  refine ⟨h.steps, h.consumed, ?_⟩
  rw [offers_append, hs]
  exact h.offers

/-- Offering choices and taking one counts once. -/
theorem Counts.offered (h : r.Counts n k) (os : List Offer) :
    Counts { r.push (offered os) with consumed := r.consumed + 1 } n (k + 1) := by
  refine ⟨h.steps, congrArg (· + 1) h.consumed, ?_⟩
  exact (offers_push r (Script.offered os)).trans (congrArg (· + 1) h.offers)

theorem finish_zero (r : Report) : r.finish 0 = .ok r :=
  if_pos rfl

theorem finish_succ (r : Report) (left : Nat) :
    r.finish (left + 1) = .error (.choicesLeft r.consumed (r.consumed + (left + 1))) :=
  if_neg (Nat.succ_ne_zero left)

end Report

/-! ## Two loops -/

/-- What a run comes to that goes on with a call and then takes choices, told by the replay of the
same. It comes to a report only if the replay takes all choices, or all but the last; `total` is
how many choices it has taken then. -/
inductive Comes (t : Telling) (choice : Option Nat) (is : List Nat) (total : Nat) :
    Except Failure Report → Prop
  | ended {s : Step} {t' : Telling} {r : Report} (hs : s.isFinished = true)
      (h : t.takes choice is = .ok (s, t')) (hr : r.events.back? = some .ending)
      (hc : r.Counts (total + 1) total) : Comes t choice is total (.ok r)
  | stopped {f : Fault} {r : Report} (h : t.takes choice is = .error (.fault f))
      (hl : is = [] ∨ ∃ p, t.takes choice is.dropLast = .ok p)
      (hr : r.events.back? = some (.error f.code f.message))
      (hc : r.Counts (total + 1) total) : Comes t choice is total (.ok r)
  | short {s : Step} {t' : Telling} {k : Nat} (hs : s.isFinished = false)
      (h : t.takes choice is = .ok (s, t')) : Comes t choice is total (.error (.choiceMissing k))
  | astray {e : StepError} {f : Failure} (h : t.takes choice is = .error e)
      (hl : ∀ x, e = .fault x → is ≠ [] ∧ ∃ e, t.takes choice is.dropLast = .error e)
      (hf : ∀ k, f ≠ .choiceMissing k) : Comes t choice is total (.error f)

namespace Comes

variable {t t' : Telling} {choice : Option Nat} {i : Nat} {is : List Nat} {total : Nat}
  {x : Except Failure Report}

/-- What a run comes to after a step and a choice is what it comes to from before them. -/
theorem cons {s : Step} (ha : t.resume choice = (.ok s, t')) (h : Comes t' (some i) is total x) :
    Comes t choice (i :: is) total x := by
  have hall : t.takes choice (i :: is) = t'.takes (some i) is := Telling.takes_cons ha i is
  cases h with
  | ended hs h hr hc => exact .ended hs (hall.trans h) hr hc
  | stopped h hl hr hc =>
    refine .stopped (hall.trans h) (.inr ?_) hr hc
    cases is with
    | nil => exact ⟨_, Telling.takes_nil ha⟩
    | cons j js =>
      obtain ⟨p, hp⟩ := hl.resolve_left nofun
      exact ⟨p, (Telling.takes_cons ha i _).trans hp⟩
  | short hs h => exact .short hs (hall.trans h)
  | astray h hl hf =>
    refine .astray (hall.trans h) (fun x hx => ⟨nofun, ?_⟩) hf
    obtain ⟨hne, e, he⟩ := hl x hx
    rw [List.dropLast_cons_of_ne_nil hne, Telling.takes_cons ha]
    exact ⟨e, he⟩

/-- A fault ends the run; choices left over are an error. -/
theorem fault {f : Fault} (ha : t.resume choice = (.error (.fault f), t')) {r : Report}
    (hr : r.Counts (total + 1) total) :
    Comes t choice is (total + is.length)
      ((r.push (.error f.code f.message)).finish is.length) := by
  cases is with
  | nil =>
    rw [List.length_nil, Report.finish_zero]
    exact .stopped (Telling.takes_error ha []) (.inl rfl) (by simp [Report.push]) (hr.push rfl)
  | cons i is =>
    rw [List.length_cons, Report.finish_succ]
    exact .astray (Telling.takes_error ha _) (fun _ _ => ⟨nofun, _, Telling.takes_error ha _⟩) nofun

/-- Any other error ends the run without a report. -/
theorem refused {e : StepError} (ha : t.resume choice = (.error e, t'))
    (he : ∀ f, e ≠ .fault f) : Comes t choice is total (.error (.step e)) :=
  .astray (Telling.takes_error ha is) (fun f h => absurd h (he f)) fun _ h => nomatch h

/-- A last step ends the run; choices left over are an error. -/
theorem last {s : Step} (ha : t.resume choice = (.ok s, t')) (hs : s.isFinished = true)
    {r : Report} (hr : r.Counts (total + 1) total) :
    Comes t choice is (total + is.length) ((r.push .ending).finish is.length) := by
  cases is with
  | nil =>
    rw [List.length_nil, Report.finish_zero]
    exact .ended hs (Telling.takes_nil ha) (by simp [Report.push]) (hr.push rfl)
  | cons i is =>
    rw [List.length_cons, Report.finish_succ]
    exact .astray (Telling.takes_over ha hs i is) (fun _ h => nomatch h) nofun

variable (h : Comes t choice is total x)

include h

theorem ended_iff : (∃ r, x = .ok r ∧ r.events.back? = some .ending)
    ↔ ∃ s t', t.takes choice is = .ok (s, t') ∧ s.isFinished = true := by
  cases h with
  | ended hs h hr => simp [h, hs, hr]
  | stopped h _ hr => simp [h, hr]
  | short hs h => simp [h, hs]
  | astray h => simp [h]

theorem stopped_iff (code message : String) :
    (∃ r, x = .ok r ∧ r.events.back? = some (.error code message))
      ↔ ∃ f : Fault, t.takes choice is = .error (.fault f) ∧ f.code = code ∧ f.message = message
        ∧ (is = [] ∨ ∃ p, t.takes choice is.dropLast = .ok p) := by
  cases h with
  | ended _ h hr => simp [h, hr]
  | stopped h hl hr =>
    rw [h]
    refine ⟨?_, fun ⟨f, hf, hc, hm, _⟩ => ⟨_, rfl, ?_⟩⟩
    · rintro ⟨r, ⟨⟩, he⟩
      obtain ⟨hc, hm⟩ := Event.error.inj (Option.some.inj (hr.symm.trans he))
      exact ⟨_, rfl, hc, hm, hl⟩
    · rw [hr, ← hc, ← hm, StepError.fault.inj (Except.error.inj hf)]
  | short _ h => simp [h]
  | astray h hl =>
    refine ⟨nofun, ?_⟩
    rintro ⟨f, hf, -, -, hp⟩
    obtain ⟨hne, e, he⟩ := hl f (Except.error.inj (h.symm.trans hf))
    obtain ⟨p, hp⟩ := hp.resolve_left hne
    exact nomatch he.symm.trans hp

theorem short_iff : (∃ k, x = .error (.choiceMissing k))
    ↔ ∃ s t', t.takes choice is = .ok (s, t') ∧ s.isFinished = false := by
  cases h with
  | ended hs h => simp [h, hs]
  | stopped h => simp [h]
  | short hs h => simp [h, hs]
  | astray h _ hf => simp [h, hf]

theorem counts {r : Report} (hr : x = .ok r) : r.Counts (total + 1) total := by
  cases h with
  | ended _ _ _ hc => exact Except.ok.inj hr ▸ hc
  | stopped _ _ _ hc => exact Except.ok.inj hr ▸ hc
  | short => cases hr
  | astray => cases hr

end Comes

/-- A run that has steps enough for all choices comes to what their replay tells. -/
theorem follow_comes (n : Nat) {t : Telling} {choice : Option Nat} {is : List Nat} {r : Report}
    {total : Nat} (hn : is.length < n) (hr : r.Counts total total) :
    Comes t choice is (total + is.length) (follow n t choice is r) := by
  induction n generalizing t choice is r total with
  | zero => exact absurd hn (Nat.not_lt_zero _)
  | succ n ih =>
    have hstep := hr.step
    rw [follow]
    rcases ha : t.resume choice with ⟨e | s, t'⟩
    · cases e with
      | fault f => exact .fault ha hstep
      | _ => exact .refused ha fun _ h => nomatch h
    · have hshown := hstep.shown s.output.content
      cases hs : s.isFinished with
      | true =>
        simp only [hs, if_true]
        exact .last ha hs hshown
      | false =>
        simp only [hs, Bool.false_eq_true, if_false]
        cases is with
        | nil => exact .short hs (Telling.takes_nil ha)
        | cons i is =>
          have h : Comes t' (some i) is (total + 1 + is.length) _ :=
            ih (Nat.lt_of_succ_lt_succ hn) (hshown.offered s.output.offers)
          rw [Nat.add_right_comm] at h
          exact .cons ha h

/-! ## The run and the replay -/

variable {s : Script} {source : String}

theorem replay_eq {story : Story Unit} (h : Document.parse {} source = .ok story)
    (is : List Nat) :
    s.replay source is = match (Telling.ofStory story s.seed).takes none is with
      | .error e => .error (.step e)
      | .ok p => .ok p := by
  rw [replay, h]
  rfl

theorem replay_ok_iff {story : Story Unit} (h : Document.parse {} source = .ok story)
    {is : List Nat} {p : Step × Telling} :
    s.replay source is = .ok p ↔ (Telling.ofStory story s.seed).takes none is = .ok p := by
  rw [replay_eq h]
  cases (Telling.ofStory story s.seed).takes none is <;> simp

theorem replay_error_iff {story : Story Unit} (h : Document.parse {} source = .ok story)
    {is : List Nat} {e : StepError} :
    s.replay source is = .error (.step e)
      ↔ (Telling.ofStory story s.seed).takes none is = .error e := by
  rw [replay_eq h]
  cases (Telling.ofStory story s.seed).takes none is <;> simp

theorem run_comes {story : Story Unit} (h : Document.parse {} source = .ok story)
    (hd : s.decisions.length < maxSteps) :
    Comes (Telling.ofStory story s.seed) none s.decisions s.decisions.length (s.run source) := by
  have hc : Comes (Telling.ofStory story s.seed) none s.decisions (0 + s.decisions.length)
      (follow maxSteps (Telling.ofStory story s.seed) none s.decisions {}) :=
    follow_comes maxSteps hd ⟨rfl, rfl, rfl⟩
  rw [Nat.zero_add] at hc
  rw [run, h]
  exact hc

/-- What the run of a script comes to can be told from the replay of its choices. The story ends
with the last choice; or it stops at a fault, which the replay runs into as well, and not before
the last choice; or it still waits for a choice. A report counts a step for each choice and one for
the beginning, and choices were offered as often as one was taken. -/
theorem run_agrees (hd : s.decisions.length < maxSteps) :
    ((∃ r, s.run source = .ok r ∧ r.events.back? = some .ending)
        ↔ ∃ step t, s.replay source s.decisions = .ok (step, t) ∧ step.isFinished = true)
      ∧ (∀ code message,
        (∃ r, s.run source = .ok r ∧ r.events.back? = some (.error code message))
          ↔ ∃ f : Fault, s.replay source s.decisions = .error (.step (.fault f))
            ∧ f.code = code ∧ f.message = message
            ∧ (s.decisions = [] ∨ ∃ p, s.replay source s.decisions.dropLast = .ok p))
      ∧ ((∃ k, s.run source = .error (.choiceMissing k))
        ↔ ∃ step t, s.replay source s.decisions = .ok (step, t) ∧ step.isFinished = false)
      ∧ ∀ r, s.run source = .ok r → r.steps = r.consumed + 1
        ∧ r.consumed = s.decisions.length ∧ r.offers = s.decisions.length := by
  rcases h : Document.parse {} source with e | story
  · simp [run, replay, h]
  · have hc := run_comes h hd
    simp only [replay_ok_iff h, replay_error_iff h]
    refine ⟨hc.ended_iff, hc.stopped_iff, hc.short_iff, fun r hr => ?_⟩
    obtain ⟨hs, hn, ho⟩ := hc.counts hr
    exact ⟨by rw [hs, hn], hn, ho⟩

/-- Once on and then off, which is the end; the choices come to a report of three steps. -/
theorem run_agrees_again :
    let s : Script := { schema := format, decisions := [0, 1] }
    s.decisions.length < maxSteps
      ∧ ∃ r, s.run Player.Sitting.again.source = .ok r ∧ r.events.back? = some .ending
        ∧ r.steps = 3 ∧ r.offers = 2 := by
  intro s
  have hd : s.decisions.length < maxSteps := by decide
  have hr : (match s.replay Player.Sitting.again.source s.decisions with
      | .ok (step, _) => step.isFinished
      | .error _ => false) = true := by
    rw [replay, Document.parse_eq_ofChars]
    decide +kernel
  obtain ⟨hend, -, -, hcounts⟩ := @run_agrees s Player.Sitting.again.source hd
  split at hr
  · next step t ht =>
    obtain ⟨r, hrun, he⟩ := hend.mpr ⟨step, t, ht, hr⟩
    obtain ⟨hs, hn, ho⟩ := hcounts r hrun
    exact ⟨hd, r, hrun, he, by rw [hs, hn]; rfl, ho⟩
  · cases hr

end Script

end Tale
