import Tale.Proofs.Visits

/-!
# Where a fault happened

A step looks for the next section, takes it off those that are pending and enters it, again and
again; `journey` goes along with a row of calls and notes the telling at each of these crossings.
So the section a telling is in is the one that was taken at the last crossing, over all calls
(`run_last`), and that is what a fault is marked with on its way out: by `located`, which stands
around the beginning of a step and around each entry.

It does not stand around the end of a story. Where no section is left, the pinned function is called
once more, and a fault of it goes out as it is: it names the pinned function at most, and no section
(`faults_located`, `pinned_unlocated`). At a selection the same function is called within an entry.
-/

namespace Tale

variable {α β : Type}

namespace Telling

/-! ## Crossings -/

/-- What a part of a step is followed by, if the step goes on after it. -/
def further (next : Telling → List Telling) : EStateM.Result Stop Telling Flow → List Telling
  | .ok .goOn t => next t
  | .ok (.wait _ _) _ => []
  | .error _ _ => []

/-- The tellings at which up to `turns` turns look for the next section. -/
def crossings : (turns : Nat) → Telling → List Telling
  | 0, _ => []
  | n + 1, t => t ::
    match t.pending with
    | [] => []
    | s :: pending => further (crossings n) (enter s { t with pending, last := some s })

/-- The tellings at which one call looks for the next section. -/
def crossingsBy (t : Telling) (choice : Option Nat) : List Telling :=
  match t.opening choice with
  | none => []
  | some first => further (fun t => crossings t.machine.turns t) (first t)

/-- The tellings at which a row of calls looks for the next section. -/
def journey (t : Telling) : List (Option Nat) → List Telling
  | [] => []
  | i :: is => t.crossingsBy i ++ (t.resume i).2.journey is

/-- The sections that are taken at some crossings. None is where nothing is pending. -/
def sectionsAt (ts : List Telling) : List (Section Nat) :=
  ts.filterMap (·.pending.head?)

/-- The line of a trail for the section taken last, if there is one. -/
def whereabouts : Option (Section Nat) → String
  | some s => Fault.line ("section " ++ Text.inQuotes s.name) s.location
  | none => Fault.line "initialization" none

theorem sectionsAt_append (ts us : List Telling) :
    sectionsAt (ts ++ us) = sectionsAt ts ++ sectionsAt us :=
  List.filterMap_append

theorem journey_concat : ∀ (is : List (Option Nat)) (i : Option Nat) (t : Telling),
    t.journey (is ++ [i]) = t.journey is ++ (t.run is).2.crossingsBy i
  | [], i, t => List.append_nil _
  | j :: is, i, t => by
    rw [List.cons_append, journey, journey_concat, journey, List.append_assoc, run_cons]

/-! ## The section taken last -/

section Last

variable {l : Option (Section Nat)}

def LastIs (l : Option (Section Nat)) (t : Telling) : Prop :=
  t.last = l

theorem onMachine_lastIs (k : Machine → Run α) :
    Preserves (LastIs l) (do onWorld (k (← get).machine)) := by
  intro t ht
  have hk : (do onWorld (k (← get).machine) : Tell α) t = onWorld (k t.machine) t := rfl
  rw [after, hk, onWorld]
  rcases k t.machine t.world with ⟨a, w⟩ | ⟨e, w⟩ <;> exact ht

theorem takeContent_lastIs : Preserves (LastIs l) takeContent :=
  .get_bind fun _ _ => .bind (.modify fun _ ht => ht) fun _ => .pure

theorem updatePinned_lastIs : Preserves (LastIs l) updatePinned := by
  refine .get_bind fun t _ => ?_
  split
  · exact .modify fun _ ht => ht
  · exact .bind (.adapt (onMachine_lastIs fun m => m.call _ [])) fun _ =>
      .bind takeContent_lastIs fun _ => .modify fun _ ht => ht

theorem act_lastIs (a : Action) : Preserves (LastIs l) (act a) := by
  cases a with
  | goto names =>
    refine .get_bind fun t _ => ?_
    split
    · exact .bind (.modify fun _ ht => ht) fun _ => .pure
    · exact .throw
  | exit => exact .bind (.modify fun _ ht => ht) fun _ => .pure
  | selection choices =>
    exact .bind takeContent_lastIs fun _ => .bind updatePinned_lastIs fun _ => .pure

theorem actOn_lastIs {otherwise : Value → Tell Flow}
    (h : ∀ v, Preserves (LastIs l) (otherwise v)) (v : Value) :
    Preserves (LastIs l) (actOn otherwise v) := by
  unfold actOn
  split
  · exact act_lastIs _
  · exact .pure
  · exact h _

theorem perform_lastIs (k : Consequence) : Preserves (LastIs l) (perform k) := by
  cases k with
  | act a => exact act_lastIs a
  | call f creator =>
    exact .bind (.adapt (onMachine_lastIs fun m => m.call f [])) fun v =>
      actOn_lastIs (fun _ => .throw) v

theorem init_lastIs : Preserves (LastIs l) init := by
  refine .get_bind fun t _ => .bind ?_ fun _ => .pure
  exact onMachine_lastIs fun _ => Evaluation.statements t.machine t.story.init

theorem enter_lastIs (s : Section Nat) : Preserves (LastIs l) (enter s) := by
  rw [enter_eq]
  refine .bind ?_ fun _ => .bind ?_ fun _ =>
    .bind (onMachine_lastIs fun m => m.eval s.next) fun v => actOn_lastIs (fun _ => .throw) v
  · unfold arrive
    split
    · exact .bind (onMachine_lastIs fun m => m.eval _) fun _ => .pure
    · exact .pure
  · exact .bind (.get_bind fun _ _ => .bind (.modify fun _ ht => ht) fun _ => .pure) fun visit =>
      onMachine_lastIs fun m => showContents m s.contents visit

theorem finish_lastIs : Preserves (LastIs l) finish :=
  .bind takeContent_lastIs fun _ => .bind updatePinned_lastIs fun _ =>
    .bind (.modify fun _ ht => ht) fun _ => .pure

end Last

/-! ## Faults on their way out -/

/-- A fault says at the end of its trail where it happened. A signal has no trail, and no refusal is
left. -/
def Located (l : Option (Section Nat)) : Stop → Prop
  | .fault f => f.trailLines.getLast? = some (whereabouts l)
  | .signal _ => True
  | .refused _ => False
  | .exhausted => True

theorem getLast?_passing (f : Fault) (passage : Fault.Passage) (location : Option Location) :
    (f.passing passage location).trailLines.getLast? = some (Fault.line passage.text location) := by
  rw [Fault.trailLines, Fault.passing, List.map_append]
  exact List.getLast?_concat

theorem locate_located (t : Telling) (e : Stop) : Located t.last (t.locate e) := by
  have passing (f : Fault) :
      (locate.passing t f).trailLines.getLast? = some (whereabouts t.last) := by
    rw [locate.passing]
    rcases t.last with _ | s
    · exact getLast?_passing f .initialization none
    · exact getLast?_passing f (.section s.name) s.location
  cases e with
  | fault f => exact passing f
  | signal s => trivial
  | refused e => exact passing _
  | exhausted => trivial

theorem located_ok {x : Tell α} {t t' : Telling} {a : α} (h : x t = .ok a t') :
    located x t = .ok a t' := by
  rw [located, h]

theorem located_error {x : Tell α} {t t' : Telling} {e : Stop} (h : x t = .error e t') :
    located x t = .error (t'.locate e) t' := by
  rw [located, h]

/-- What the pinned function stops with, as it goes out of the call. -/
def pinnedStop (g : Function) : Stop → Stop
  | .refused e => .fault ⟨.pinnedCall g e, none, []⟩
  | .fault x => .fault (x.passing (.pinned g) none)
  | e => e

theorem error_of_bind {x : Tell α} {f : α → Tell β} {t t' : Telling} {e : Stop}
    (h : (x >>= f) t = .error e t') :
    x t = .error e t' ∨ ∃ a t₁, x t = .ok a t₁ ∧ f a t₁ = .error e t' := by
  simp only [Bind.bind, EStateM.bind] at h
  rcases hx : x t with ⟨a, t₁⟩ | ⟨e₁, t₁⟩ <;> rw [hx] at h
  · exact .inr ⟨a, t₁, rfl, h⟩
  · cases h
    exact .inl rfl

theorem updatePinned_error {t t' : Telling} {e : Stop} (h : updatePinned t = .error e t') :
    ∃ g e₁ w, t.world.pinned = some g ∧ t.machine.call g [] t.world = .error e₁ w
      ∧ e = pinnedStop g e₁ := by
  obtain ⟨⟨⟩⟩ | ⟨_, _, ⟨⟩, h⟩ := error_of_bind h
  rcases hp : t.world.pinned with _ | g <;> rw [hp] at h
  · cases h
  · obtain h | ⟨_, _, -, ⟨⟩⟩ := error_of_bind h
    have hcall : call g t = onWorld (t.machine.call g []) t := rfl
    rw [adapt, hcall, onWorld] at h
    rcases hc : t.machine.call g [] t.world with ⟨v, w⟩ | ⟨e₁, w⟩ <;> rw [hc] at h <;> cases h
    exact ⟨g, e₁, w, rfl, hc, rfl⟩

/-- A story fails at its end only if the pinned function does, and with what that stops with. -/
theorem finish_error {t t' : Telling} {e : Stop} (h : finish t = .error e t') :
    ∃ g e₁ w, t.world.pinned = some g
      ∧ t.machine.call g [] { t.world with content := #[] } = .error e₁ w
      ∧ e = pinnedStop g e₁ := by
  obtain ⟨⟨⟩⟩ | ⟨_, _, ⟨⟩, h⟩ := error_of_bind h
  obtain h | ⟨_, _, -, ⟨⟩⟩ := error_of_bind h
  exact updatePinned_error h

/-! ## Steps -/

/-- The telling that is left, with a value or without. -/
def ending : EStateM.Result Stop Telling α → Telling
  | .ok _ t => t
  | .error _ t => t

/-- What a step comes to by way of some crossings, begun in the section `l`: the section it ends in
is the one taken last; if it stops, it says so; and if no section is left at one of the crossings,
this is where the story ends. -/
structure Crossed (l : Option (Section Nat)) (us : List Telling)
    (r : EStateM.Result Stop Telling Step) : Prop where
  last : (ending r).last = (sectionsAt us).getLast?.or l
  located (hu : ∀ u ∈ us, u.pending ≠ []) (e : Stop) (t : Telling) (h : r = .error e t) :
    Located ((sectionsAt us).getLast?.or l) e
  ended (u : Telling) (hu : u ∈ us) (h : u.pending = []) : r = finish u

section Crossed

variable {l : Option (Section Nat)} {us : List Telling} {r : EStateM.Result Stop Telling Step}
  {t : Telling}

theorem Crossed.nil (hl : (ending r).last = l)
    (h : ∀ e t, r = .error e t → Located l e) : Crossed l [] r :=
  ⟨hl, fun _ => h, fun _ => nofun⟩

/-- Taking a section is what begins the rest of a step in it. -/
theorem Crossed.cons {s : Section Nat} {pending : List (Section Nat)}
    (ht : t.pending = s :: pending) (h : Crossed (some s) us r) : Crossed l (t :: us) r := by
  have hs : (sectionsAt (t :: us)).getLast?.or l = (sectionsAt us).getLast?.or (some s) := by
    have hcons : sectionsAt (t :: us) = s :: sectionsAt us :=
      List.filterMap_cons_some (by rw [ht]; rfl)
    rw [hcons, List.getLast?_cons]
    rcases (sectionsAt us).getLast? with _ | x <;> rfl
  refine ⟨hs ▸ h.last, fun hu => hs ▸ h.located fun u hm => hu u (.tail _ hm), fun u hm hp => ?_⟩
  rcases List.mem_cons.mp hm with rfl | hm
  · rw [ht] at hp
    cases hp
  · exact h.ended u hm hp

/-- A part of a step goes on to the rest, or ends the step. The mark of a fault is the section of
the telling that is left, which is still the one before. -/
theorem flow_crossed {x : Tell Flow} {goOn : Tell Step} {next : Telling → List Telling}
    (hx : Preserves (LastIs l) x) (ht : t.last = l)
    (hg : ∀ t, t.last = l → Crossed l (next t) (goOn t)) :
    Crossed l (further next (x t)) ((do
      match ← located x with
      | .goOn => goOn
      | .wait output choices => suspend output choices) t) := by
  have hl : (after x t).last = l := hx t ht
  rcases h : x t with ⟨_ | ⟨output, choices⟩, t'⟩ | ⟨e, t'⟩
  · simp only [Bind.bind, EStateM.bind, located_ok h]
    exact hg t' (after_ok h ▸ hl)
  · simp only [Bind.bind, EStateM.bind, located_ok h]
    exact .nil (after_ok h ▸ hl) fun _ _ => nofun
  · simp only [Bind.bind, EStateM.bind, located_error h]
    rw [after_error h] at hl
    refine .nil hl ?_
    rintro _ _ ⟨⟩
    exact hl ▸ locate_located t' e

/-- By the turns that are left: each begins in the section that was taken at the last crossing. At
the end of the story nothing is taken, so the section stays. -/
theorem proceed_crossed : ∀ (n : Nat) {t : Telling} {l : Option (Section Nat)}, t.last = l →
    Crossed l (crossings n t) (proceed n t)
  | 0, t, l, ht => by
    refine .nil ht ?_
    rintro _ _ ⟨⟩
    trivial
  | n + 1, t, l, ht => by
    rw [crossings]
    rcases hp : t.pending with _ | ⟨s, pending⟩
    · rw [proceed_nil hp]
      have hnone : sectionsAt [t] = [] := by simp [sectionsAt, hp]
      refine ⟨?_, fun hu => absurd hp (hu t (.head _)), fun u hu _ => ?_⟩
      · rw [hnone]
        exact finish_lastIs t ht
      · rw [List.mem_singleton.mp hu]
    · rw [proceed_cons hp]
      exact .cons hp (flow_crossed (enter_lastIs s) rfl fun t => proceed_crossed n)

end Crossed

/-! ## Calls -/

theorem opening_lastIs {t : Telling} {i : Option Nat} {first : Tell Flow}
    {l : Option (Section Nat)} (h : t.opening i = some first) : Preserves (LastIs l) first := by
  unfold opening at h
  split at h
  · cases h
    exact init_lastIs
  · obtain ⟨k, -, rfl⟩ := Option.map_eq_some_iff.mp h
    exact perform_lastIs k
  · cases h

theorem step_crossed {t : Telling} {i : Option Nat} {first : Tell Flow}
    (h : t.opening i = some first) : Crossed t.last (t.crossingsBy i) (step first t) := by
  rw [crossingsBy, h]
  exact flow_crossed (opening_lastIs h) rfl fun t => proceed_crossed t.machine.turns

theorem advance_last (t : Telling) (first : Tell Flow) :
    (t.advance first).2.last = (ending (step first t)).last := by
  rw [advance]
  rcases step first t with ⟨s, t'⟩ | ⟨e, t'⟩ <;> rfl

theorem resume_last (t : Telling) (i : Option Nat) :
    (t.resume i).2.last = (sectionsAt (t.crossingsBy i)).getLast?.or t.last := by
  rw [resume_opening]
  rcases h : t.opening i with _ | first
  · rw [crossingsBy, h]
    rfl
  · exact (advance_last t first).trans (step_crossed h).last

/-- The section a telling is in is the one that was taken last. -/
theorem run_last : ∀ (calls : List (Option Nat)) (t : Telling),
    (t.run calls).2.last = (sectionsAt (t.journey calls)).getLast?.or t.last
  | [], _ => rfl
  | i :: is, t => by
    rw [run_cons, journey, sectionsAt_append, List.getLast?_append, Option.or_assoc, ← resume_last]
    exact run_last is (t.resume i).2

/-- A fault comes from the step that a call takes. -/
theorem step_of_fault {t : Telling} {i : Option Nat} {f : Fault}
    (h : (t.resume i).1 = .error (.fault f)) :
    ∃ first e t', t.opening i = some first ∧ step first t = .error e t'
      ∧ stepError e = .fault f := by
  have advanced : ∀ first, (t.advance first).1 = .error (.fault f) →
      ∃ e t', step first t = .error e t' ∧ stepError e = .fault f := by
    intro first h
    rw [advance] at h
    rcases hs : step first t with ⟨s, t'⟩ | ⟨e, t'⟩ <;> rw [hs] at h
    · cases h
    · exact ⟨e, t', rfl, Except.error.inj h⟩
  unfold opening
  cases hs : t.stage with
  | unstarted =>
    rw [resume_unstarted hs] at h
    cases i with
    | none => exact ⟨init, (advanced init h).imp fun e => .imp fun t' => .intro rfl⟩
    | some i => cases h
  | waiting choices =>
    rw [resume_waiting hs] at h
    cases i with
    | none => cases h
    | some i =>
      rcases hk : choices[i]?.bind (·.consequence) with _ | k <;> simp only [hk] at h ⊢
      · cases h
      · exact ⟨perform k, (advanced (perform k) h).imp fun e => .imp fun t' => .intro rfl⟩
  | finished =>
    rw [resume_finished hs] at h
    cases h

/-! A signal becomes a fault only after the step, so it has no trail in either case. -/

theorem stepError_located {l : Option (Section Nat)} {e : Stop} {f : Fault} (h : Located l e)
    (hf : stepError e = .fault f) :
    (∃ s, f = ⟨.uncaught s, none, []⟩) ∨ f.trailLines.getLast? = some (whereabouts l) := by
  cases e with
  | fault x =>
    cases hf
    exact .inr h
  | signal s =>
    cases hf
    exact .inl ⟨s, rfl⟩
  | refused c => exact h.elim
  | exhausted => cases hf

theorem stepError_pinnedStop {g : Function} {e : Stop} {f : Fault}
    (hf : stepError (pinnedStop g e) = .fault f) :
    (∃ s, e = .signal s ∧ f = ⟨.uncaught s, none, []⟩)
      ∨ (∃ x, e = .fault x ∧ f = x.passing (.pinned g) none)
      ∨ ∃ c, e = .refused c ∧ f = ⟨.pinnedCall g c, none, []⟩ := by
  cases e with
  | fault x =>
    cases hf
    exact .inr (.inl ⟨x, rfl, rfl⟩)
  | signal s =>
    cases hf
    exact .inl ⟨s, rfl, rfl⟩
  | refused c =>
    cases hf
    exact .inr (.inr ⟨c, rfl, rfl⟩)
  | exhausted => cases hf

def faulted : Except StepError Step → Option Fault
  | .error (.fault f) => some f
  | _ => none

theorem eq_fault_of_faulted {r : Except StepError Step} {f : Fault} (h : faulted r = some f) :
    r = .error (.fault f) := by
  unfold faulted at h
  split at h
  · cases h
    rfl
  · cases h

/-- Every fault of every run says at the end of its trail which section it happened in, if it did
not happen at the end of the story: at a crossing where no section is left, only the pinned function
can fail, and nothing is added then to what that says. -/
theorem faults_located (story : Story Unit) (seed : String) (provider : Provider) (limit : Nat)
    (calls : List (Option Nat)) (i : Option Nat) (f : Fault) :
    let start := ofStory story seed provider limit
    let t := (start.run calls).2
    (t.resume i).1 = .error (.fault f) →
      ((∀ u ∈ t.crossingsBy i, u.pending ≠ []) →
        (∃ s, f = ⟨.uncaught s, none, []⟩)
          ∨ f.trailLines.getLast?
            = some (whereabouts (sectionsAt (start.journey (calls ++ [i]))).getLast?))
      ∧ ∀ u ∈ t.crossingsBy i, u.pending = [] → ∃ g e w, u.world.pinned = some g
        ∧ u.machine.call g [] { u.world with content := #[] } = .error e w
        ∧ ((∃ s, e = .signal s ∧ f = ⟨.uncaught s, none, []⟩)
          ∨ (∃ x, e = .fault x ∧ f = x.passing (.pinned g) none)
          ∨ ∃ c, e = .refused c ∧ f = ⟨.pinnedCall g c, none, []⟩) := by
  intro start t h
  obtain ⟨first, e, t', ho, hs, hf⟩ := step_of_fault h
  have hc := step_crossed ho
  have hlast : (sectionsAt (start.journey (calls ++ [i]))).getLast?
      = (sectionsAt (t.crossingsBy i)).getLast?.or t.last := by
    have hnone : start.last = none := rfl
    rw [journey_concat, sectionsAt_append, List.getLast?_append, run_last, hnone, Option.or_none]
  refine ⟨fun hu => ?_, fun u hu hp => ?_⟩
  · rw [hlast]
    exact stepError_located (hc.located hu e t' hs) hf
  · rw [hc.ended u hu hp] at hs
    obtain ⟨g, e₁, w, hg, hcall, rfl⟩ := finish_error hs
    exact ⟨g, e₁, w, hg, hcall, stepError_pinnedStop hf⟩

/-- The way on from the hall goes by the stairs, and fails in the attic. -/
def climbing : Story Unit :=
  let on : Expr Unit := ⟨.choice ⟨.string "on", none⟩ ⟨.goto ["stairs", "attic"], none⟩, none⟩
  ⟨⟨1, 0⟩, [], [⟨"hall", none, ⟨.selection ⟨.list [.item on], none⟩, none⟩, [], none⟩,
    ⟨"stairs", none, ⟨.null, none⟩, [], none⟩,
    ⟨"attic", none, ⟨.string "up", none⟩, [], some ⟨4, 1⟩⟩]⟩

theorem faults_located_climbing :
    let t := ((ofStory climbing "seed" {} 20).run [none]).2
    ∃ f, (t.resume (some 0)).1 = .error (.fault f) ∧ (∀ u ∈ t.crossingsBy (some 0), u.pending ≠ [])
      ∧ f.trailLines.getLast? = some "    at section \"attic\":4:1" := by
  intro t
  have hf : (faulted (t.resume (some 0)).1).any (·.cause.isPlaced) = true := by
    decide +kernel
  have hu : (t.crossingsBy (some 0)).all (!·.pending.isEmpty) = true := by
    decide +kernel
  have hw : whereabouts
      (sectionsAt ((ofStory climbing "seed" {} 20).journey ([none] ++ [some 0]))).getLast?
        = "    at section \"attic\":4:1" := by
    decide +kernel
  have hu : ∀ u ∈ t.crossingsBy (some 0), u.pending ≠ [] := fun u hm hn => by
    simpa [hn] using List.all_eq_true.mp hu u hm
  obtain ⟨f, hf, hp⟩ := (Option.any_eq_true _ _).mp hf
  have he := eq_fault_of_faulted hf
  refine ⟨f, he, hu, ?_⟩
  rcases (faults_located climbing "seed" {} 20 [none] (some 0) f he).1 hu with ⟨s, rfl⟩ | h
  · cases hp
  · rw [h, hw]

/-- Goes to its end, where the function that it has pinned fails. -/
def unlocated : String :=
  "WTCD 1.3\nsection s readerSetPinned::[$ assert::[false]] then exit\n"

/-- A fault of the pinned function at the end of a story does not say in which section it was. -/
theorem pinned_unlocated : ¬ ∀ (source : String) (story : Story Unit),
    Document.parse {} source = .ok story →
      ∀ (calls : List (Option Nat)) (i : Option Nat) (f : Fault),
      let start := ofStory story "seed"
      ((start.run calls).2.resume i).1 = .error (.fault f) → (∀ s, f.cause ≠ .uncaught s) →
        f.trailLines.getLast?
          = some (whereabouts (sectionsAt (start.journey (calls ++ [i]))).getLast?) := by
  intro h
  have ht : (Document.parse {} unlocated).toOption.any (fun story =>
      let start := ofStory story "seed"
      (faulted (start.resume none).1).any fun f => f.cause.isPlaced
        && f.trailLines.getLast?
          != some (whereabouts (sectionsAt (start.journey [none])).getLast?)) = true := by
    rw [Document.parse_eq_ofChars]
    decide +kernel
  obtain ⟨story, hs, ht⟩ := (Option.any_eq_true _ _).mp ht
  obtain ⟨f, hf, ht⟩ := (Option.any_eq_true _ _).mp ht
  simp only [Bool.and_eq_true, bne_iff_ne] at ht
  refine ht.2 (h unlocated story (eq_ok_of_toOption hs) [] none f (eq_fault_of_faulted hf) ?_)
  intro s hc
  rw [hc] at ht
  cases ht.1

end Telling

end Tale
