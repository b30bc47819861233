import Tale.Proofs.Tells

/-!
# Runs of a story

A run is a telling and a row of calls, each with the index of a choice or without one. Whatever is
called, a telling that has begun and has not failed stands on two scopes, that of the story, with
the names its initial statements declare, and that of the library (`resume_continues`). So does
every telling in a run (`run_continues`), and it is the same with another machine that agrees with
its own.
-/

namespace Tale

/-- The scope of the library. -/
def library : Outline :=
  ⟨Native.all.zipIdx.map fun (f, a) => (f.name, a), none⟩

theorem reach_library : reach [library] = Library.names := by
  simp only [reach, library, beyond, List.map_map, Library.names]
  decide

theorem World.initial_fit (c : Care) (random : Random) (provider : Provider) :
    (World.initial random provider).FitIn c [library] none [] := by
  have hv : ∀ (a : Address) (x : Cell), (World.initial random provider).cells[a]? = some x →
      ∃ f, x = ⟨some [.function], .function (.native f)⟩ := by
    intro a x hx
    simp only [World.initial, List.getElem?_toArray, List.getElem?_map,
      Option.map_eq_some_iff] at hx
    obtain ⟨f, -, rfl⟩ := hx
    exact ⟨f, rfl⟩
  refine ⟨[], rfl, rfl, fun _ a x hx => ?_, fun _ => ⟨fun a x hx => ?_, ?_, fun _ => nofun⟩⟩
  · obtain ⟨f, rfl⟩ := hv a x hx
    rfl
  · obtain ⟨f, rfl⟩ := hv a x hx
    trivial
  · simp [World.initial]

/-- In a story from a document no name is unknown. -/
def StepError.Fit (c : Care) : StepError → Prop
  | .fault f => c.read → ∀ name, f.cause ≠ .unknownVariable name
  | _ => True

namespace Telling

/-- The answers to a row of calls, and the telling after them. -/
def run (t : Telling) : List (Option Nat) → List (Except StepError Step) × Telling
  | [] => ([], t)
  | i :: is =>
    let (a, t) := t.resume i
    let (as, t) := t.run is
    (a :: as, t)

variable {c : Care} {m m' : Machine} {names : List String}

/-- The story's own scope has just these names, the newest first, and there is only the library
around it. -/
def Opened (c : Care) (m : Machine) (names : List String) (t : Telling) : Prop :=
  ∃ ns : List (String × Address), ns.map (·.1) = names ∧ t.Fit c m [⟨ns, none⟩, library]

/-- A telling about to begin. -/
structure Unopened (c : Care) (m : Machine) (names : List String) (t : Telling) : Prop where
  machine : t.machine = m
  world : t.world.FitIn c [library] none []
  names : (initialNames t.story.init).reverse = names
  pending : t.pending ⊆ t.story.sections
  story (hr : c.read) : t.story.Closed

/-- The story's own scope may have any names: a telling can fail before it is opened. -/
def Ended (c : Care) (m : Machine) (t : Telling) : Prop :=
  t.machine = m ∧ ∃ xs, t.world.FitIn c [library] none xs

/-- What holds of a telling between two calls. -/
def Stands (c : Care) (m : Machine) (names : List String) (t : Telling) : Prop :=
  match t.stage with
  | .unstarted => t.Unopened c m names
  | .waiting choices => t.Opened c m names ∧ (c.read → choicesSound choices)
  | .finished => t.Ended c m

/-- Whatever a section of a closed story needs is in reach once its names are declared. -/
theorem enterable_of_closed {story : Story Nat} (h : story.Closed)
    {ns : List (String × Address)} (hn : ns.map (·.1) = (initialNames story.init).reverse)
    {s : Section Nat} (hs : s ∈ story.sections) : Enterable (reach [⟨ns, none⟩, library]) s := by
  have hr : initialNames story.init ++ Library.names ⊆ reach [⟨ns, none⟩, library] := by
    rw [reach, hn, reach_library]
    simp [beyond, List.subset_def]
  exact ⟨(h.sections s hs).mono hr, fun k hk p hp =>
    hr (List.mem_append_left _ (h.placeholders s hs k hk p hp))⟩

theorem init_alike (hm : m.Agree c m') (names : List String) :
    Alike m (Unopened c m' names) init (fun flow t => flow.Admitted c ∧ t.Opened c m' names)
      fun e t => e.Fit c ∧ t.Ended c m' := by
  intro t ht
  have hk : ∀ t : Telling, init t
      = (onWorld (Evaluation.statements t.machine t.story.init) >>= fun _ => pure .goOn) t :=
    fun _ => rfl
  have hs : c.read → statementsWithin ([] ++ beyond none (reach [library])) t.story.init :=
    fun hr => reach_library ▸ (ht.story hr).init
  obtain ⟨hxy, he⟩ := Evaluation.statements_extends (hm.inside _ _) t.story.init hs t.world
    ht.world
  rw [hk, hk, ht.machine]
  simp only [onWorld, Bind.bind, EStateM.bind, withMachine, hxy]
  rcases hy : Evaluation.statements m' t.story.init t.world with ⟨a, w⟩ | ⟨e, w⟩ <;> rw [hy] at he
  · obtain ⟨hg, ns, hn, hw⟩ := he
    rw [List.append_nil] at hn
    refine ⟨rfl, hg.1, trivial, ns, hn.trans ht.names, ht.machine, hw, fun hr s hs => ?_,
      fun hr s hs => ?_⟩
    · exact enterable_of_closed (ht.story hr) hn (ht.pending hs)
    · exact enterable_of_closed (ht.story hr) hn hs
  · exact ⟨rfl, he.1.1, he.2.1, ht.machine, he.2.2⟩

/-- How a step goes on once the story is opened. -/
theorem Steps.opened {x : Tell Step}
    (h : ∀ ns : List (String × Address), Steps c m m' [⟨ns, none⟩, library] x) :
    Alike m (Opened c m' names) x (fun _ t => t.Opened c m' names ∧ Stopped c t.stage)
      fun e t => e.Fit c ∧ t.Ended c m' := by
  rintro t ⟨ns, hn, ht⟩
  obtain ⟨hx, he⟩ := h ns t ht
  refine ⟨hx, ?_⟩
  rcases hy : x t with ⟨a, t'⟩ | ⟨e, t'⟩ <;> rw [hy] at he
  · exact ⟨he.1, ⟨ns, hn, he.2.1⟩, he.2.2⟩
  · exact ⟨he.1, he.2.1, he.2.2.machine, names, ns, hn, he.2.2.world⟩

theorem step_alike (hm : m.Agree c m') {P : Telling → Prop} {first : Tell Flow}
    (h : Alike m P first (fun flow t => flow.Admitted c ∧ t.Opened c m' names)
      fun e t => e.Fit c ∧ t.Ended c m') :
    Alike m P (step first) (fun _ t => t.Opened c m' names ∧ Stopped c t.stage)
      fun e t => e.Fit c ∧ t.Ended c m' := by
  refine .bind (located_alike h) fun flow => .of_and fun hf => ?_
  cases flow with
  | goOn =>
    refine .get_bind (fun t ht => ?_) fun t ht => ?_
    · obtain ⟨ns, -, ht⟩ := ht
      simp only [withMachine, hm.turns, ht.machine]
    · refine (Steps.opened fun ns => proceed_steps hm _).conseq ?_ (fun _ _ h => h) fun _ _ h => h
      rintro _ rfl
      exact ht
  | wait output choices => exact Steps.opened fun ns => suspend_steps hf

/-! ## Calls -/

/-- What a call comes to. -/
structure Continues (c : Care) (m : Machine) (names : List String) (t : Telling)
    (r : Except StepError Step × Telling) : Prop where
  grows : t.world.Grows r.2.world
  stands : r.2.Stands c m names
  opened (s : Step) (h : r.1 = .ok s) : r.2.Opened c m names
  begun (s : Step) (h : r.1 = .ok s) : r.2.stage ≠ .unstarted
  fit (e : StepError) (h : r.1 = .error e) : e.Fit c

theorem advance_continues {t : Telling} {first : Tell Flow}
    (h : Alike m (· = t) (step first) (fun _ t => t.Opened c m' names ∧ Stopped c t.stage)
      fun e t => e.Fit c ∧ t.Ended c m') :
    (t.withMachine m).advance first
        = ((t.advance first).1, (t.advance first).2.withMachine m)
      ∧ Continues c m' names t (t.advance first) := by
  obtain ⟨hx, he⟩ := h t rfl
  simp only [advance, hx]
  rcases hy : step first t with ⟨s, t'⟩ | ⟨e, t'⟩ <;> rw [hy] at he
  · refine ⟨rfl, he.1, ?_, fun _ _ => he.2.1, ?_, fun _ => nofun⟩
    · rcases t' with ⟨story, world, pending, visits, last, pinned, stage, machine⟩
      cases stage with
      | unstarted => exact he.2.2.elim
      | waiting choices => exact ⟨he.2.1, he.2.2⟩
      | finished =>
        obtain ⟨ns, hn, ht⟩ := he.2.1
        exact ⟨ht.machine, names, ns, hn, ht.world⟩
    · intro _ _ hs
      have := he.2.2
      rw [hs] at this
      exact this
  · refine ⟨rfl, he.1, he.2.2, fun _ => nofun, fun _ => nofun, ?_⟩
    rintro _ ⟨⟩
    rcases e with f | s | r | _
    · exact he.2.1
    · exact fun _ _ => nofun
    · exact fun _ _ => nofun
    · trivial

theorem Stands.world {t : Telling} (h : t.Stands c m names) :
    ∃ xs, t.world.FitIn c [library] none xs := by
  rw [Stands] at h
  split at h
  · exact ⟨_, h.world⟩
  · obtain ⟨⟨ns, hn, ht⟩, -⟩ := h
    exact ⟨_, ns, hn, ht.world⟩
  · exact h.2

/-- A call that is answered without a step. -/
theorem Continues.refl {t : Telling} (h : t.Stands c m names) {e : StepError} (he : e.Fit c) :
    Continues c m names t (.error e, t) := by
  refine ⟨.refl t.world, h, fun _ => nofun, fun _ => nofun, ?_⟩
  rintro _ ⟨⟩
  exact he

theorem resume_continues (hm : m.Agree c m') {t : Telling} (h : t.Stands c m' names)
    (i : Option Nat) :
    (t.withMachine m).resume i = ((t.resume i).1, (t.resume i).2.withMachine m)
      ∧ Continues c m' names t (t.resume i) := by
  have hst : (t.withMachine m).stage = t.stage := rfl
  have hs := h
  unfold resume
  rw [Stands] at hs
  rw [hst]
  cases hst : t.stage with
  | unstarted =>
    rw [hst] at hs
    cases i with
    | none =>
      refine advance_continues (step_alike hm ((init_alike hm names).conseq ?_ (fun _ _ h => h)
        fun _ _ h => h))
      rintro _ rfl
      exact hs
    | some i => exact ⟨rfl, .refl h trivial⟩
  | waiting choices =>
    rw [hst] at hs
    obtain ⟨⟨ns, hn, ht⟩, hc⟩ := hs
    cases i with
    | none => exact ⟨rfl, .refl h trivial⟩
    | some i =>
      simp only []
      split
      · rename_i k hk
        refine advance_continues (step_alike hm ?_)
        have hk' : c.read → k.Sound := by
          intro hr
          obtain ⟨x, hx, hk⟩ := Option.bind_eq_some_iff.mp hk
          have := choicesSound_iff.mp (hc hr) x (List.mem_of_getElem? hx)
          rcases x with ⟨text, consequence⟩
          cases hk
          exact this
        refine (perform_tells hm hk').conseq ?_ (fun _ _ h => ⟨h.1, ns, hn, h.2⟩)
          fun _ _ h => ⟨h.1, h.2.machine, names, ns, hn, h.2.world⟩
        rintro _ rfl
        exact ht
      · exact ⟨rfl, .refl h trivial⟩
  | finished => exact ⟨rfl, .refl h trivial⟩

/-! ## Rows of calls -/

theorem run_continues (hm : m.Agree c m') : ∀ (is : List (Option Nat)) {t : Telling},
    t.Stands c m' names →
      (t.withMachine m).run is = ((t.run is).1, (t.run is).2.withMachine m)
        ∧ t.world.Grows (t.run is).2.world ∧ (t.run is).2.Stands c m' names
        ∧ ∀ e, .error e ∈ (t.run is).1 → e.Fit c
  | [], t, h => ⟨rfl, .refl t.world, h, fun _ => nofun⟩
  | i :: is, t, h => by
    obtain ⟨hr, hc⟩ := resume_continues hm h i
    obtain ⟨hr', hg, hs, he⟩ := run_continues hm is hc.stands
    refine ⟨?_, hc.grows.trans hg, hs, fun e hm => ?_⟩
    · simp only [run, hr, hr']
    · rcases List.mem_cons.mp hm with h | h
      · exact hc.fit e h.symm
      · exact he e h

theorem run_cons (i : Option Nat) (is : List (Option Nat)) (t : Telling) :
    t.run (i :: is)
      = ((t.resume i).1 :: ((t.resume i).2.run is).1, ((t.resume i).2.run is).2) :=
  rfl

theorem run_append : ∀ (is js : List (Option Nat)) (t : Telling),
    t.run (is ++ js) = ((t.run is).1 ++ ((t.run is).2.run js).1, ((t.run is).2.run js).2)
  | [], _, _ => rfl
  | i :: is, js, t => by
    have h := run_append is js (t.resume i).2
    simp only [List.cons_append, run, h]

/-- A story about to be told stands on its own and the library's scope. -/
theorem ofStory_stands (c : Care) (story : Story Unit) (h : c.read → story.Closed) (seed : String)
    (provider : Provider) (limit : Nat) :
    (ofStory story seed provider limit).Stands c (Tale.machine limit)
      (initialNames story.init).reverse := by
  refine ⟨rfl, World.initial_fit c _ _, ?_, fun s hs => ?_, fun hr => (h hr).labelled⟩
  · exact congrArg List.reverse (labelStatements_initialNames 0 story.init)
  · exact List.mem_of_mem_head? (Option.mem_toList.mp hs)

end Telling

end Tale
