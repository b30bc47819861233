import Tale.Proofs.Runs
import Tale.Telling.Replay

/-!
# Replays bring tellings back

A call is rejected if it is answered before anything is done; it leaves the telling as it was. So
a run in which nothing fails is told by the choices that were taken: `replay` takes just these,
and comes to the last step of the run and to the very telling that the run left (`replay_run`).
-/

namespace Tale

/-- Whether an error was found before anything was done. -/
def StepError.isRejection : StepError → Bool
  | fault _ => false
  | invalidChoice _ => true
  | choiceRequired => true
  | finished => true
  | exhausted => false

namespace Telling

/-- The choices among calls that were answered with a step. -/
def decisions : List (Option Nat) → List (Except StepError Step) → List Nat
  | some i :: is, .ok _ :: as => i :: decisions is as
  | _ :: is, _ :: as => decisions is as
  | _, _ => []

/-- The last step among answers. -/
def lastStep? (answers : List (Except StepError Step)) : Option Step :=
  (answers.filterMap Except.toOption).getLast?

/-- Nothing but rejections went wrong. -/
def Smooth (answers : List (Except StepError Step)) : Prop :=
  ∀ e, .error e ∈ answers → e.isRejection = true

theorem smooth_iff {as : List (Except StepError Step)} :
    Smooth as ↔ ∀ a ∈ as, (match a with | .ok _ => true | .error e => e.isRejection) = true := by
  refine ⟨fun h a ha => ?_, fun h e he => h _ he⟩
  cases a with
  | ok s => rfl
  | error e => exact h e ha

instance (as : List (Except StepError Step)) : Decidable (Smooth as) :=
  decidable_of_iff _ smooth_iff.symm

theorem stepError_isRejection (e : Stop) : (stepError e).isRejection = false := by
  cases e <;> rfl

theorem advance_rejected {t : Telling} {first : Tell Flow} {e : StepError}
    (h : (t.advance first).1 = .error e) : e.isRejection = false := by
  rw [advance] at h
  split at h
  · cases h
  · cases h
    exact stepError_isRejection _

/-- A rejected call leaves the telling as it was. -/
theorem resume_rejected {t : Telling} {i : Option Nat} {e : StepError}
    (h : (t.resume i).1 = .error e) (he : e.isRejection = true) : (t.resume i).2 = t := by
  have ha : ∀ {first : Tell Flow}, (t.advance first).1 = .error e → (t.advance first).2 = t := by
    intro first h
    exact absurd ((advance_rejected h).symm.trans he) nofun
  unfold resume at h ⊢
  split at h
  · exact ha h
  · rfl
  · rfl
  · split at h
    · exact ha h
    · rfl
  · rfl

theorem decisions_error (i : Option Nat) (is : List (Option Nat)) (e : StepError)
    (as : List (Except StepError Step)) :
    decisions (i :: is) (.error e :: as) = decisions is as := by
  cases i <;> rfl

theorem decisions_none (is : List (Option Nat)) (a : Except StepError Step)
    (as : List (Except StepError Step)) : decisions (none :: is) (a :: as) = decisions is as := by
  cases a <;> rfl

theorem lastStep?_ok (s : Step) (as : List (Except StepError Step)) :
    lastStep? (.ok s :: as) = some ((lastStep? as).getD s) := by
  simp [lastStep?, Except.toOption, List.getLast?_cons]

theorem resume_none_begun {t : Telling} {s : Step} (h : (t.resume none).1 = .ok s) :
    t.stage = .unstarted := by
  unfold resume at h
  split at h <;> simp_all

theorem resume_unstarted {t : Telling} (h : t.stage = .unstarted) (i : Option Nat) :
    t.resume i = match i with
      | none => t.advance init
      | some i => (.error (.invalidChoice i), t) := by
  unfold resume
  rw [h]
  cases i <;> rfl

variable {c : Care} {m : Machine} {names : List String}

/-- From where a telling has begun, taking the choices that were taken is as good as the run. -/
theorem follow_run (hm : m.Agree c m) : ∀ (is : List (Option Nat)) {t : Telling} (s : Step),
    t.Stands c m names → t.stage ≠ .unstarted → Smooth (t.run is).1 →
      t.follow s (decisions is (t.run is).1)
        = .ok ((lastStep? (t.run is).1).getD s, (t.run is).2)
  | [], _, _, _, _, _ => rfl
  | i :: is, t, s, ht, hb, hs => by
    have hc := (resume_continues hm ht i).2
    rw [run_cons] at hs ⊢
    have hs' : Smooth ((t.resume i).2.run is).1 := fun e he => hs e (.tail _ he)
    rcases ha : (t.resume i).1 with e | s'
    · rw [ha] at hs
      rw [resume_rejected ha (hs e (.head _))] at hs' ⊢
      rw [decisions_error]
      exact follow_run hm is s ht hb hs'
    · cases i with
      | none => exact absurd (resume_none_begun ha) hb
      | some i =>
        rw [lastStep?_ok, Option.getD_some, decisions, follow, ← Prod.eta (t.resume (some i)), ha]
        exact follow_run hm is s' hc.stands (hc.begun s' ha) hs'

/-- Calls before the first one without a choice are rejected. -/
theorem replay_begun (hm : m.Agree c m) {t : Telling} (ht : t.Stands c m names)
    (hu : t.stage = .unstarted) {is : List (Option Nat)} (hn : none ∈ is)
    (hs : Smooth (t.run is).1) : ∃ s, lastStep? (t.run is).1 = some s
      ∧ t.replay (decisions is (t.run is).1) = .ok (s, (t.run is).2) := by
  induction is with
  | nil => exact nomatch hn
  | cons i is ih =>
    have hc := (resume_continues hm ht i).2
    rw [run_cons] at hs ⊢
    cases i with
    | none =>
      rcases ha : (t.resume none).1 with e | s
      · rw [ha] at hs
        rw [resume_unstarted hu] at ha
        have := advance_rejected ha
        rw [hs e (.head _)] at this
        cases this
      · refine ⟨_, lastStep?_ok s _, ?_⟩
        rw [decisions_none, replay, ← Prod.eta (t.resume none), ha]
        exact follow_run hm is s hc.stands (hc.begun s ha) fun e he => hs e (.tail _ he)
    | some i =>
      rw [resume_unstarted hu] at hs ⊢
      rw [decisions_error]
      refine ih ?_ fun e he => hs e (.tail _ he)
      simpa using hn

theorem replay_run (story : Story Unit) (seed : String) (provider : Provider) (limit : Nat)
    (calls : List (Option Nat)) (hn : none ∈ calls)
    (hs : Smooth ((ofStory story seed provider limit).run calls).1) :
    let t := ofStory story seed provider limit
    ∃ s, lastStep? (t.run calls).1 = some s
      ∧ t.replay (decisions calls (t.run calls).1) = .ok (s, (t.run calls).2) := by
  have ht := ofStory_stands ⟨False, False⟩ story False.elim seed provider limit
  exact replay_begun (machine_agree_refl _ limit) ht rfl hn hs

/-- A story that goes round as often as the reader likes. -/
def roundabout : Story Unit :=
  let again : Expr Unit := ⟨.choice ⟨.string "again", none⟩ ⟨.goto ["round"], none⟩, none⟩
  let stop : Expr Unit := ⟨.choice ⟨.string "stop", none⟩ ⟨.exit, none⟩, none⟩
  let next : Expr Unit := ⟨.selection ⟨.list [.item again, .item stop], none⟩, none⟩
  ⟨⟨1, 0⟩, [], [⟨"round", none, next, [], none⟩]⟩

theorem replay_run_roundabout :
    let t := ofStory roundabout "seed" {} 9
    let calls := [some 1, none, some 0, none, some 5, some 1, some 0]
    decisions calls (t.run calls).1 = [0, 1] ∧ ∃ s, lastStep? (t.run calls).1 = some s
      ∧ t.replay (decisions calls (t.run calls).1) = .ok (s, (t.run calls).2) := by
  intro t calls
  refine ⟨?_, replay_run roundabout "seed" {} 9 calls ?_ ?_⟩
  · decide +kernel
  · decide
  · decide +kernel

end Telling

end Tale
