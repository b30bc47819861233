import Tale.Proofs.Closed
import Tale.Proofs.Evaluation
import Tale.Proofs.Steps

/-!
# Steps keep worlds fit

What holds throughout the steps of a story that was read, of one whose cells are typed, or of any
story: that the outline of the world stays, that the sections still to be entered find the names
they ask for, and what the choices are that a telling waits for.
-/

namespace Tale.Telling

open Evaluation (evals_of_agree finds_of_agree)

variable {α : Type}

/-- A section that can be entered where the names `Γ` can be looked up. -/
def Enterable (Γ : List String) (s : Section Nat) : Prop :=
  s.Within Γ ∧ ∀ k ∈ s.contents, ∀ p ∈ k.placeholders, p.variableName ∈ Γ

structure Fit (c : Care) (m : Machine) (os : List Outline) (t : Telling) : Prop where
  machine : t.machine = m
  world : t.world.Fit c os
  pending (hr : c.read) (s : Section Nat) (h : s ∈ t.pending) : Enterable (reach os) s
  story (hr : c.read) (s : Section Nat) (h : s ∈ t.story.sections) : Enterable (reach os) s

/-- Keeps the outline of the world. -/
def Tells (c : Care) (m m' : Machine) (os : List Outline) (V : α → Prop) (x : Tell α) : Prop :=
  Alike m (Fit c m' os) x (fun a t => V a ∧ t.Fit c m' os) fun e t => e.Fit c ∧ t.Fit c m' os

def Flow.Admitted (c : Care) : Flow → Prop
  | .goOn => True
  | .wait _ choices => c.read → choicesSound choices

section Parts

variable {c : Care} {m m' : Machine} {os : List Outline}

/-- The sections that can be entered, if they were read. -/
def Within (c : Care) (os : List Outline) (s : Section Nat) : Prop :=
  c.read → Enterable (reach os) s

theorem suits_eq : (c.regime os).Suits m (Within c os) = Fit c m os := by
  refine funext fun t => propext ⟨fun h => ?_, fun h => ?_⟩
  · exact ⟨h.machine, Care.fit_iff.mp h.world, fun hr s hs => h.pending s hs hr,
      fun hr s hs => h.story.sections s hs hr⟩
  · refine ⟨h.machine, Care.fit_iff.mpr h.world, fun s hs hr => h.pending hr s hs,
      fun s hs hr => h.story hr s hs, fun names _ name _ _ _ x hx => ?_⟩
    cases hx

theorem tells_iff {V : α → Prop} {x : Tell α} :
    Tells c m m' os V x ↔ (c.regime os).Tells m m' (Within c os) V x := by
  simp only [Tells, Regime.Tells, suits_eq, Care.stops_iff]

theorem admitted_eq : Flow.Admitted c = Regime.FlowMeets c.norm := by
  refine funext fun flow => propext ?_
  cases flow with
  | goOn => exact Iff.rfl
  | wait output choices => exact choicesMeet_iff_sound.symm

/-- Where a telling stands when a step is done. -/
def Stopped (c : Care) : Stage → Prop
  | .unstarted => False
  | .waiting choices => c.read → choicesSound choices
  | .finished => True

/-- The rest of a step. -/
def Steps (c : Care) (m m' : Machine) (os : List Outline) (x : Tell Step) : Prop :=
  Alike m (Fit c m' os) x (fun _ t => t.Fit c m' os ∧ Stopped c t.stage)
    fun e t => e.Fit c ∧ t.Fit c m' os

theorem steps_iff {x : Tell Step} :
    Steps c m m' os x ↔ (c.regime os).Steps m m' (Within c os) x := by
  have hs : ∀ stage, Stopped c stage ↔ Regime.Rests c.norm stage := by
    rintro (_ | choices | _)
    · exact Iff.rfl
    · exact choicesMeet_iff_sound.symm
    · exact Iff.rfl
  have hn : (c.regime os).norm = c.norm := rfl
  simp only [Steps, Regime.Steps, suits_eq, Care.stops_iff, hs, hn]

theorem serves_of_agree (hm : m.Agree c m') : (c.regime os).Serves m m' (Within c os) where
  calls := hm.calls
  enters _ hs :=
    { executes _ he := evals_of_agree hm fun hr => (hs hr).1.1.mem he
      next := evals_of_agree hm fun hr => (hs hr).1.2
      names k hk p hp := finds_of_agree hm fun hr => (hs hr).2 k hk p hp }
  even _ _ _ _ h := h

theorem perform_tells (hm : m.Agree c m') {k : Consequence} (hk : c.read → k.Sound) :
    Tells c m m' os (Flow.Admitted c) (perform k) := by
  rw [tells_iff, admitted_eq]
  exact Regime.perform_tells (serves_of_agree hm) (Consequence.meets_iff.mpr hk)

theorem located_alike {P : Telling → Prop} {Q : α → Telling → Prop} {R : Telling → Prop}
    {x : Tell α} (h : Alike m P x Q fun e t => e.Fit c ∧ R t) :
    Alike m P (located x) Q fun e t => e.Fit c ∧ R t := by
  have hs : ∀ e : Stop, e.Fit c ↔ (c.regime []).Stops e := fun _ => Care.stops_iff.symm
  simp only [hs] at h ⊢
  exact Regime.located_alike h

theorem suspend_steps {output : Output} {choices : List Choice}
    (h : c.read → choicesSound choices) : Steps c m m' os (suspend output choices) :=
  steps_iff.mpr (Regime.suspend_steps (choicesMeet_iff_sound.mpr h))

theorem proceed_steps (hm : m.Agree c m') (turns : Nat) : Steps c m m' os (proceed turns) :=
  steps_iff.mpr (Regime.proceed_steps (serves_of_agree hm) turns)

end Parts

end Tale.Telling
