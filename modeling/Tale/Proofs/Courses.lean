import Tale.Proofs.Protocol
import Tale.Proofs.Steps

/-!
# Runs in a regime

Where nothing can be left, two machines that serve a story alike tell it alike: the same answers
come to a row of calls, and the same telling is left but for its machine (`Regime.run_alike`).
Each fault among the answers has a cause that the regime knows.
-/

namespace Tale.Regime

open Telling

variable {R : Regime} {m m' : Machine} {S : Section Nat → Prop} {t : Telling}

/-- What holds of a telling between two calls. -/
structure Stands (R : Regime) (m m' : Machine) (S : Section Nat → Prop) (t : Telling) : Prop where
  suits : R.Suits m' S t
  init (h : t.stage = .unstarted) : R.Links (fun _ => True) (Evaluation.statements m t.story.init)
    (Evaluation.statements m' t.story.init)
  choices (cs : List Choice) (h : t.stage = .waiting cs) : choicesMeet R.norm cs

/-- A fault of a cause the regime knows, or a signal that got out. -/
def Known (R : Regime) (a : Except StepError Step) : Prop :=
  ∀ f, a = .error (.fault f) →
    R.causes f.cause ∨ ∃ s, f.cause = .uncaught s ∧ R.Stops (.signal s)

/-- What a call comes to. -/
structure Resumes (R : Regime) (m m' : Machine) (S : Section Nat → Prop)
    (r : Except StepError Step × Telling) : Prop where
  stands : R.Stands m m' S r.2
  known : R.Known r.1

section Calls

variable (hm : R.Serves m m' S)

include hm in
theorem init_alike (hs : R.Suits m' S t) (hi : R.Links (fun _ => True)
    (Evaluation.statements m t.story.init) (Evaluation.statements m' t.story.init)) :
    Alike m (· = t) Telling.init (fun flow t => FlowMeets R.norm flow ∧ R.Suits m' S t)
      fun e t => R.Stops e ∧ R.Suits m' S t := by
  rintro t' rfl
  have hk : ∀ t : Telling, Telling.init t
      = (onWorld (Evaluation.statements t.machine t.story.init) >>= fun _ => pure .goOn) t :=
    fun _ => rfl
  have hw := hi t'.world hs.world
  rw [hk, hk, hs.machine]
  simp only [onWorld, Bind.bind, EStateM.bind, withMachine]
  generalize Evaluation.statements m t'.story.init t'.world = o,
    Evaluation.statements m' t'.story.init t'.world = o' at hw
  cases hw with
  | ok grows value =>
    exact ⟨rfl, grows.1, trivial, hs.machine, value.2, hs.pending, hs.story⟩
  | error grows stop notLeft =>
    exact ⟨rfl, grows.1, stop.1, hs.machine, stop.2, hs.pending, hs.story⟩
  | left grows stop related =>
    obtain rfl := hm.even _ _ _ stop.1 related
    exact ⟨rfl, grows.1, stop.1, hs.machine, stop.2, hs.pending, hs.story⟩

include hm in
theorem step_alike {P : Telling → Prop} {first : Tell Flow}
    (h : Alike m P first (fun flow t => FlowMeets R.norm flow ∧ R.Suits m' S t)
      fun e t => R.Stops e ∧ R.Suits m' S t) :
    Alike m P (step first) (fun _ t => R.Suits m' S t ∧ Rests R.norm t.stage)
      fun e t => R.Stops e ∧ R.Suits m' S t := by
  refine .bind (located_alike h) fun flow => .of_and fun hf => ?_
  cases flow with
  | goOn =>
    refine .get_bind (fun t ht => ?_) fun t ht => ?_
    · simp only [withMachine, hm.calls.turns, ht.machine]
    · refine (proceed_steps hm _).conseq ?_ (fun _ _ h => h) fun _ _ h => h
      rintro _ rfl
      exact ht
  | wait output choices => exact suspend_steps hf

theorem advance_alike {first : Tell Flow}
    (h : Alike m (· = t) (step first) (fun _ t => R.Suits m' S t ∧ Rests R.norm t.stage)
      fun e t => R.Stops e ∧ R.Suits m' S t) :
    (t.withMachine m).advance first = ((t.advance first).1, (t.advance first).2.withMachine m)
      ∧ R.Resumes m m' S (t.advance first) := by
  obtain ⟨hx, he⟩ := h t rfl
  simp only [advance, hx]
  rcases hy : step first t with ⟨s, t'⟩ | ⟨e, t'⟩ <;> rw [hy] at he
  · refine ⟨rfl, ⟨he.2.1, fun hu => ?_, fun cs hc => ?_⟩, fun f hf => ?_⟩
    · have hr := he.2.2
      rw [hu] at hr
      exact hr.elim
    · have hr := he.2.2
      rw [hc] at hr
      exact hr
    · cases hf
  · refine ⟨rfl, ⟨⟨he.2.2.machine, he.2.2.world, he.2.2.pending, he.2.2.story⟩, fun hu => ?_,
      fun cs hc => ?_⟩, fun f hf => ?_⟩
    · cases hu
    · cases hc
    rcases e with x | s | r | _
    · cases hf
      exact .inl he.2.1
    · cases hf
      exact .inr ⟨s, rfl, he.2.1⟩
    · cases hf
      exact .inl (R.ordinary trivial)
    · cases hf

/-- A call that is answered without a step. -/
theorem Resumes.refl (h : R.Stands m m' S t) {e : StepError} (he : e.isRejection = true) :
    R.Resumes m m' S (.error e, t) := by
  refine ⟨h, fun f hf => ?_⟩
  cases hf
  cases he

include hm in
theorem resume_alike (h : R.Stands m m' S t) (i : Option Nat) :
    (t.withMachine m).resume i = ((t.resume i).1, (t.resume i).2.withMachine m)
      ∧ R.Resumes m m' S (t.resume i) := by
  have hst : (t.withMachine m).stage = t.stage := rfl
  cases hs : t.stage with
  | unstarted =>
    rw [resume_unstarted hs, resume_unstarted (hst.trans hs)]
    cases i with
    | none => exact advance_alike (step_alike hm (init_alike hm h.suits (h.init hs)))
    | some i => exact ⟨rfl, .refl h rfl⟩
  | waiting choices =>
    rw [resume_waiting hs, resume_waiting (hst.trans hs)]
    cases i with
    | none => exact ⟨rfl, .refl h rfl⟩
    | some i =>
      simp only []
      rcases hk : choices[i]?.bind (·.consequence) with _ | k
      · exact ⟨rfl, .refl h rfl⟩
      · have hk' : k.Meets R.norm := by
          obtain ⟨x, hx, hk⟩ := Option.bind_eq_some_iff.mp hk
          have hc := choicesMeet_iff.mp (h.choices choices hs) x (List.mem_of_getElem? hx)
          rcases x with ⟨text, consequence⟩
          cases hk
          exact hc
        refine advance_alike (step_alike hm ((perform_tells hm hk').conseq ?_ (fun _ _ h => h)
          fun _ _ h => h))
        rintro _ rfl
        exact h.suits
  | finished =>
    rw [resume_finished hs, resume_finished (hst.trans hs)]
    exact ⟨rfl, .refl h rfl⟩

include hm in
theorem run_alike : ∀ (is : List (Option Nat)) {t : Telling}, R.Stands m m' S t →
    (t.withMachine m).run is = ((t.run is).1, (t.run is).2.withMachine m)
      ∧ ∀ a ∈ (t.run is).1, R.Known a
  | [], _, _ => ⟨rfl, fun _ => nofun⟩
  | i :: is, t, h => by
    obtain ⟨hr, hc⟩ := resume_alike hm h i
    obtain ⟨hr', hk⟩ := run_alike is hc.stands
    refine ⟨?_, fun a ha => ?_⟩
    · simp only [run, hr, hr']
    · rcases List.mem_cons.mp ha with rfl | ha
      · exact hc.known
      · exact hk a ha

end Calls

end Tale.Regime
