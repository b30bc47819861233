import Tale.Proofs.Interpolation
import Tale.Proofs.Protocol
import Tale.Proofs.Safety

/-!
# What a visit shows

A section is entered in three parts: it is arrived at, which does what it executes; it is presented,
which counts the visit and shows its contents; and it is left for what comes next (`enter_eq`). A
section whose execution stops was not entered. `entries` goes along with a row of calls and notes
each section that was entered, with the telling as its contents come to be shown.

The notes are the count. How often a section was entered is the number of notes that name it, over
all steps so far, whichever sections were entered in between (`Counted`). So the `k`-th visit of a
section shows one of the contents that are for the `k`-th visit, at the cost of one draw, and shows
and draws nothing where there are none (`contents_by_visit`).
-/

namespace Tale

variable {α β : Type}

/-- Contents are for a visit that is within their bounds. -/
def Content.IsFor (c : Content) (visit : Nat) : Prop :=
  (∀ l ∈ c.bounds.lower, l ≤ visit) ∧ ∀ u ∈ c.bounds.upper, visit ≤ u

theorem Content.isFor_iff {c : Content} {visit : Nat} :
    c.IsFor visit ↔ c.bounds.admits visit = true := by
  rcases c with ⟨html, placeholders, _ | l, _ | u⟩ <;> simp [IsFor, Bounds.admits]

/-- What contents put out in a world: their HTML with the values of its variables, if it is not
blank and all of them can be looked up. -/
def Content.nodes (m : Machine) (c : Content) (w : World) : List Node :=
  match Telling.fillSpans m c.placeholders c.html.toList w with
  | .ok html _ => if (Text.trim html).isEmpty then [] else [.html (String.ofList html)]
  | .error _ _ => []

/-- Contents in which no variable is shown are put out as they are written. -/
theorem Content.nodes_written {m : Machine} {c : Content} {w : World} (h : c.placeholders = []) :
    c.nodes m w = if (Text.trim c.html.toList).isEmpty then [] else [.html c.html] := by
  have hf : Telling.fillSpans m [] c.html.toList w = .ok c.html.toList w := rfl
  rw [nodes, h, hf]
  simp only [String.ofList_toList]

namespace Telling

/-! ## The parts of an entry -/

/-- Does what a section executes. -/
def arrive (s : Section Nat) : Tell Unit := do
  if let some e := s.executes then
    let _ ← eval e

/-- Counts the visit and shows the contents that are for it. -/
def present (s : Section Nat) : Tell Unit := do
  let visit ← countVisit s.name
  onWorld (showContents (← get).machine s.contents visit)

/-- Goes on to what comes after a section. -/
def leave (s : Section Nat) : Tell Flow := do
  let v ← eval s.next
  actOn (fun v => fail (.next v) s.next.location) v

theorem enter_eq (s : Section Nat) : enter s = (do arrive s; present s; leave s) := by
  rcases s with ⟨name, _ | e, next, contents, location⟩
  · simp only [enter, arrive, present, leave, pure_bind, bind_assoc]
  · simp only [enter, arrive, present, leave, bind_assoc, pure_bind]

/-- A section that was entered, and the telling as its contents come to be shown. -/
structure Visit where
  place : Section Nat
  telling : Telling

/-- The note of a section, unless what it executes stops. -/
def noted (s : Section Nat) (t : Telling) : List Visit :=
  match arrive s t with
  | .ok _ t' => [⟨s, t'⟩]
  | .error _ _ => []

/-- What a computation is followed by, if the telling goes on after it. -/
def onward (next : Telling → List Visit) : EStateM.Result Stop Telling Flow → List Visit
  | .ok .goOn t => next t
  | .ok (.wait _ _) _ => []
  | .error _ _ => []

/-- The sections entered in up to `turns` turns. -/
def entered : (turns : Nat) → Telling → List Visit
  | 0, _ => []
  | n + 1, t =>
    match t.pending with
    | [] => []
    | s :: pending =>
      let t := { t with pending, last := some s }
      noted s t ++ onward (entered n) (located (enter s) t)

/-- What a call begins a step with, if it does. -/
def opening (t : Telling) (choice : Option Nat) : Option (Tell Flow) :=
  match t.stage, choice with
  | .unstarted, none => some init
  | .waiting choices, some i => (choices[i]?.bind (·.consequence)).map perform
  | _, _ => none

/-- The sections entered by one call. -/
def enteredBy (t : Telling) (choice : Option Nat) : List Visit :=
  match t.opening choice with
  | none => []
  | some first => onward (fun t => entered t.machine.turns t) (located first t)

/-- The sections entered by a row of calls, in their order. -/
def entries (t : Telling) : List (Option Nat) → List Visit
  | [] => []
  | i :: is => t.enteredBy i ++ (t.resume i).2.entries is

/-! ## What is left alone -/

/-- The telling that a computation leaves, be it with a value or not. -/
def after (x : Tell α) (t : Telling) : Telling :=
  match x t with
  | .ok _ t' => t'
  | .error _ t' => t'

/-- A property that a computation keeps, also if it stops. -/
def Preserves (P : Telling → Prop) (x : Tell α) : Prop :=
  ∀ t, P t → P (after x t)

section Preserves

variable {P : Telling → Prop}

theorem Preserves.pure {a : α} : Preserves P (pure a) :=
  fun _ h => h

theorem Preserves.throw {e : Stop} : Preserves P (throw e : Tell α) :=
  fun _ h => h

theorem Preserves.modify {f : Telling → Telling} (hf : ∀ t, P t → P (f t)) :
    Preserves P (modify f) :=
  fun t h => hf t h

theorem after_ok {x : Tell α} {t t' : Telling} {a : α} (h : x t = .ok a t') : after x t = t' := by
  rw [after, h]

theorem after_error {x : Tell α} {t t' : Telling} {e : Stop} (h : x t = .error e t') :
    after x t = t' := by
  rw [after, h]

theorem after_bind_ok {x : Tell α} {f : α → Tell β} {t t' : Telling} {a : α}
    (h : x t = .ok a t') : after (x >>= f) t = after (f a) t' := by
  simp only [after, Bind.bind, EStateM.bind, h]

theorem after_bind_error {x : Tell α} {f : α → Tell β} {t t' : Telling} {e : Stop}
    (h : x t = .error e t') : after (x >>= f) t = t' := by
  simp only [after, Bind.bind, EStateM.bind, h]

theorem Preserves.bind {x : Tell α} {f : α → Tell β} (hx : Preserves P x)
    (hf : ∀ a, Preserves P (f a)) : Preserves P (x >>= f) := by
  intro t ht
  have hp := hx t ht
  rcases h : x t with ⟨a, t'⟩ | ⟨e, t'⟩
  · rw [after_ok h] at hp
    rw [after_bind_ok h]
    exact hf a t' hp
  · rw [after_error h] at hp
    rw [after_bind_error h]
    exact hp

theorem Preserves.get_bind {f : Telling → Tell α} (hf : ∀ t, P t → Preserves P (f t)) :
    Preserves P (get >>= f) :=
  fun t ht => hf t ht t ht

theorem after_located (x : Tell α) (t : Telling) : after (located x) t = after x t := by
  rw [after, located, after]
  rcases x t with ⟨a, t'⟩ | ⟨e, t'⟩ <;> rfl

theorem Preserves.adapt {f : Stop → Stop} {x : Tell α} (hx : Preserves P x) :
    Preserves P (adapt f x) := by
  intro t ht
  have hp := hx t ht
  rw [after] at hp
  rw [after, Telling.adapt]
  rcases h : x t with ⟨a, t'⟩ | ⟨e, t'⟩ <;> rw [h] at hp <;> exact hp

end Preserves

/-! ## Counting -/

section Counting

/-- A telling of a story with some counts of visits. Each section still to be entered is the first
of its name. -/
structure Holding (told : Story Nat) (m : Machine) (counts : List (String × Nat)) (t : Telling) :
    Prop where
  story : t.story = told
  machine : t.machine = m
  visits : t.visits = counts
  pending (s : Section Nat) (h : s ∈ t.pending) : told.section? s.name = some s

/-- The notes so far are the counts of visits. -/
def Counted (story : Story Nat) (m : Machine) (notes : List Visit) (t : Telling) : Prop :=
  ∃ visits, Holding story m visits t
    ∧ ∀ name, (visits.lookup name).getD 0 = notes.countP (·.place.name = name)

/-- Each note was made when the ones before it were the counts of visits. -/
def Follows (story : Story Nat) (m : Machine) (notes : List Visit) : List Visit → Prop
  | [] => True
  | v :: vs => (story.section? v.place.name = some v.place ∧ Counted story m notes v.telling)
      ∧ Follows story m (notes ++ [v]) vs

variable {story : Story Nat} {m : Machine} {visits : List (String × Nat)} {notes : List Visit}

theorem Follows.append : ∀ {vs ws : List Visit} {notes : List Visit}, Follows story m notes vs →
    Follows story m (notes ++ vs) ws → Follows story m notes (vs ++ ws)
  | [], _, _, _, hw => by rwa [List.append_nil] at hw
  | v :: vs, ws, notes, hv, hw => by
    refine ⟨hv.1, hv.2.append ?_⟩
    rwa [List.append_assoc, List.singleton_append]

theorem Follows.getElem? {vs notes : List Visit} {i : Nat} {v : Visit}
    (h : Follows story m notes vs) (hi : vs[i]? = some v) :
    story.section? v.place.name = some v.place
      ∧ Counted story m (notes ++ vs.take i) v.telling := by
  induction vs generalizing notes i with
  | nil => cases hi
  | cons u vs ih =>
    cases i with
    | zero =>
      cases hi
      rw [List.take_zero, List.append_nil]
      exact h.1
    | succ i =>
      have := ih h.2 hi
      rwa [List.append_assoc, List.singleton_append] at this

/-- What changes none of this. -/
theorem Preserves.counted {x : Tell α} (h : ∀ visits, Preserves (Holding story m visits) x) :
    Preserves (Counted story m notes) x := by
  rintro t ⟨visits, ht, hn⟩
  exact ⟨visits, h visits t ht, hn⟩

theorem onMachine_preserves (k : Machine → Run α) :
    Preserves (Holding story m visits) (do onWorld (k (← get).machine)) := by
  intro t ht
  have hk : (do onWorld (k (← get).machine) : Tell α) t = onWorld (k t.machine) t := rfl
  rw [after, hk, onWorld]
  rcases k t.machine t.world with ⟨a, w⟩ | ⟨e, w⟩
  · exact ⟨ht.story, ht.machine, ht.visits, ht.pending⟩
  · exact ⟨ht.story, ht.machine, ht.visits, ht.pending⟩

theorem eval_preserves (e : Expr Nat) : Preserves (Holding story m visits) (Telling.eval e) :=
  onMachine_preserves fun m => m.eval e

theorem takeContent_preserves : Preserves (Holding story m visits) takeContent :=
  .get_bind fun _ _ => .bind (.modify fun _ ht => ⟨ht.story, ht.machine, ht.visits, ht.pending⟩)
    fun _ => .pure

theorem updatePinned_preserves : Preserves (Holding story m visits) updatePinned := by
  have pinned : ∀ nodes, Preserves (Holding story m visits)
      (modify fun t => { t with pinned := nodes } : Tell Unit) := fun nodes =>
    .modify fun _ ht => ⟨ht.story, ht.machine, ht.visits, ht.pending⟩
  refine .get_bind fun t _ => ?_
  split
  · exact pinned []
  · exact .bind (.adapt (onMachine_preserves fun m => m.call _ [])) fun _ =>
      .bind takeContent_preserves pinned

/-- A target is the first section of its name. -/
theorem targets_first : ∀ {names : List String} {ss : List (Section Nat)},
    targets story names = .ok ss → ∀ s ∈ ss, story.section? s.name = some s
  | [], _, h => by
    cases h
    exact fun _ => nofun
  | name :: names, ss, h => by
    rw [targets] at h
    rcases hr : targets story names with e | rest <;> rw [hr] at h
    · cases h
    · simp only [Bind.bind, Except.bind] at h
      split at h
      · rename_i x hx
        cases h
        intro s hs
        rcases List.mem_cons.mp hs with rfl | hs
        · have hn : s.name = name := by simpa using List.find?_some hx
          rw [hn, hx]
        · exact targets_first hr s hs
      · cases h

theorem act_preserves (a : Action) : Preserves (Holding story m visits) (act a) := by
  cases a with
  | goto names =>
    refine .get_bind fun t ht => ?_
    split
    · rename_i sections hs
      refine .bind (.modify fun t' ht' => ?_) fun _ => .pure
      refine ⟨ht'.story, ht'.machine, ht'.visits, fun s hm => ?_⟩
      rcases List.mem_append.mp hm with hm | hm
      · exact targets_first (ht.story ▸ hs) s hm
      · exact ht'.pending s hm
    · exact .throw
  | exit =>
    exact .bind (.modify fun t ht => ⟨ht.story, ht.machine, ht.visits, fun _ => nofun⟩)
      fun _ => .pure
  | selection choices =>
    exact .bind takeContent_preserves fun _ => .bind updatePinned_preserves fun _ => .pure

theorem actOn_preserves {otherwise : Value → Tell Flow}
    (h : ∀ v, Preserves (Holding story m visits) (otherwise v)) (v : Value) :
    Preserves (Holding story m visits) (actOn otherwise v) := by
  unfold actOn
  split
  · exact act_preserves _
  · exact .pure
  · exact h _

theorem perform_preserves (k : Consequence) : Preserves (Holding story m visits) (perform k) := by
  cases k with
  | act a => exact act_preserves a
  | call f creator =>
    exact .bind (.adapt (onMachine_preserves fun m => m.call f [])) fun v =>
      actOn_preserves (fun _ => .throw) v

theorem init_preserves : Preserves (Holding story m visits) init := by
  refine .get_bind fun t _ => .bind ?_ fun _ => .pure
  exact onMachine_preserves fun _ => Evaluation.statements t.machine t.story.init

theorem arrive_preserves (s : Section Nat) : Preserves (Holding story m visits) (arrive s) := by
  unfold arrive
  split
  · exact .bind (eval_preserves _) fun _ => .pure
  · exact .pure

theorem leave_preserves (s : Section Nat) : Preserves (Holding story m visits) (leave s) :=
  .bind (eval_preserves _) fun v => actOn_preserves (fun _ => .throw) v

theorem suspend_preserves (output : Output) (choices : List Choice) :
    Preserves (Holding story m visits) (suspend output choices) :=
  .bind (.modify fun _ ht => ⟨ht.story, ht.machine, ht.visits, ht.pending⟩) fun _ => .pure

theorem finish_preserves : Preserves (Holding story m visits) finish :=
  .bind takeContent_preserves fun _ => .bind updatePinned_preserves fun _ =>
    .bind (.modify fun _ ht => ⟨ht.story, ht.machine, ht.visits, ht.pending⟩) fun _ => .pure

/-! ## Entries -/

/-- The visit is counted before anything is shown. -/
theorem present_eq (s : Section Nat) (t : Telling) :
    let n := (t.visits.lookup s.name).getD 0 + 1
    present s t = (do onWorld (showContents (← get).machine s.contents n) : Tell Unit)
      { t with visits := (s.name, n) :: t.visits.filter (·.1 != s.name) } :=
  rfl

theorem present_counted {s : Section Nat} {t : Telling} (ht : Counted story m notes t) :
    Counted story m (notes ++ [⟨s, t⟩]) (after (present s) t) := by
  obtain ⟨visits, ht, hn⟩ := ht
  rw [after, present_eq]
  refine ⟨_, onMachine_preserves (fun m => showContents m s.contents _) _
    ⟨ht.story, ht.machine, rfl, ht.pending⟩, fun name => ?_⟩
  rw [ht.visits, List.countP_append, List.countP_singleton, ← hn]
  by_cases hs : s.name = name
  · simp [hs]
  · have hb : (name == s.name) = false := by simpa using Ne.symm hs
    have hf : (name != s.name) = true := by simpa using Ne.symm hs
    simp [hs, List.lookup_cons, hb, lookup_filter (f := (· != s.name)) hf]

theorem enter_counted {s : Section Nat} {t : Telling} (hs : story.section? s.name = some s)
    (ht : Counted story m notes t) :
    Follows story m notes (noted s t)
      ∧ Counted story m (notes ++ noted s t) (after (enter s) t) := by
  have ha := Preserves.counted (fun _ => arrive_preserves s) t ht
  rw [enter_eq, noted]
  rcases h : arrive s t with ⟨_, t'⟩ | ⟨e, t'⟩
  · rw [after_ok h] at ha
    rw [after_bind_ok h]
    refine ⟨⟨⟨hs, ha⟩, trivial⟩, ?_⟩
    have hp : Counted story m (notes ++ [⟨s, t'⟩]) (after (present s) t') := present_counted ha
    rcases h' : present s t' with ⟨_, t''⟩ | ⟨e, t''⟩
    · rw [after_ok h'] at hp
      rw [after_bind_ok h']
      exact Preserves.counted (fun _ => leave_preserves s) t'' hp
    · rw [after_error h'] at hp
      rw [after_bind_error h']
      exact hp
  · rw [after_error h] at ha
    rw [after_bind_error h, List.append_nil]
    exact ⟨trivial, ha⟩

theorem proceed_nil {n : Nat} {t : Telling} (h : t.pending = []) :
    proceed (n + 1) t = finish t := by
  have hg : (get : Tell Telling) t = .ok t t := rfl
  simp only [proceed, Bind.bind, EStateM.bind, hg, h]

theorem proceed_cons {n : Nat} {t : Telling} {s : Section Nat} {pending : List (Section Nat)}
    (h : t.pending = s :: pending) : proceed (n + 1) t = (do
      match ← located (enter s) with
      | .goOn => proceed n
      | .wait output choices => suspend output choices) { t with pending, last := some s } := by
  cases t
  subst h
  rfl

/-- A step goes on with what counts its visits, or ends. -/
theorem flow_counted {x : Tell Flow} {goOn : Tell Step} {next : Telling → List Visit} {t : Telling}
    (hx : Counted story m notes (after x t))
    (hg : ∀ t, Counted story m notes t → Follows story m notes (next t)
      ∧ Counted story m (notes ++ next t) (after goOn t)) :
    Follows story m notes (onward next (located x t))
      ∧ Counted story m (notes ++ onward next (located x t)) (after (do
        match ← located x with
        | .goOn => goOn
        | .wait output choices => suspend output choices) t) := by
  rw [← after_located] at hx
  rcases h : located x t with ⟨_ | ⟨output, choices⟩, t'⟩ | ⟨e, t'⟩
  · rw [after_ok h] at hx
    rw [after_bind_ok h]
    exact hg t' hx
  · rw [after_ok h] at hx
    rw [after_bind_ok h, onward, List.append_nil]
    exact ⟨trivial, Preserves.counted (fun _ => suspend_preserves output choices) t' hx⟩
  · rw [after_error h] at hx
    rw [after_bind_error h, onward, List.append_nil]
    exact ⟨trivial, hx⟩

theorem proceed_counted : ∀ (n : Nat) {t : Telling} {notes : List Visit},
    Counted story m notes t →
      Follows story m notes (entered n t)
        ∧ Counted story m (notes ++ entered n t) (after (proceed n) t)
  | 0, t, notes, ht => by
    rw [entered, List.append_nil]
    exact ⟨trivial, ht⟩
  | n + 1, t, notes, ht => by
    rcases hp : t.pending with _ | ⟨s, pending⟩
    · rw [entered, hp, List.append_nil, after, proceed_nil hp]
      exact ⟨trivial, Preserves.counted (fun _ => finish_preserves) t ht⟩
    · obtain ⟨visits, hh, hn⟩ := ht
      have hs : story.section? s.name = some s := hh.pending s (hp ▸ .head _)
      have ht : Counted story m notes { t with pending, last := some s } :=
        ⟨visits, ⟨hh.story, hh.machine, hh.visits, fun x hx => hh.pending x (hp ▸ .tail _ hx)⟩, hn⟩
      obtain ⟨hf, hc⟩ := enter_counted hs ht
      obtain ⟨hf', hc'⟩ := flow_counted hc fun t => proceed_counted n (t := t)
      rw [entered, hp, after, proceed_cons hp, ← after, ← List.append_assoc]
      exact ⟨hf.append hf', hc'⟩

/-! ## Calls -/

theorem opening_preserves {t : Telling} {i : Option Nat} {first : Tell Flow}
    (h : t.opening i = some first) : Preserves (Counted story m notes) first := by
  unfold opening at h
  split at h
  · cases h
    exact .counted fun _ => init_preserves
  · obtain ⟨k, -, rfl⟩ := Option.map_eq_some_iff.mp h
    exact .counted fun _ => perform_preserves k
  · cases h

/-- A call takes the step it begins, or leaves the telling as it was. -/
theorem resume_opening (t : Telling) (i : Option Nat) :
    (t.resume i).2 = match t.opening i with
      | some first => (t.advance first).2
      | none => t := by
  unfold opening
  cases hs : t.stage with
  | unstarted =>
    rw [resume_unstarted hs]
    cases i <;> rfl
  | waiting choices =>
    rw [resume_waiting hs]
    cases i with
    | none => rfl
    | some i =>
      simp only []
      rcases choices[i]?.bind (·.consequence) with _ | k <;> rfl
  | finished =>
    rw [resume_finished hs]

/-- Also if the step stops, which ends the telling. -/
theorem advance_counted {t : Telling} {first : Tell Flow}
    (h : Counted story m notes (after (step first) t)) :
    Counted story m notes (t.advance first).2 := by
  rw [after] at h
  rw [advance]
  rcases hs : step first t with ⟨s, t'⟩ | ⟨e, t'⟩ <;> rw [hs] at h
  · exact h
  · obtain ⟨visits, ht, hn⟩ := h
    exact ⟨visits, ⟨ht.story, ht.machine, ht.visits, ht.pending⟩, hn⟩

theorem resume_counted {t : Telling} (ht : Counted story m notes t) (i : Option Nat) :
    Follows story m notes (t.enteredBy i)
      ∧ Counted story m (notes ++ t.enteredBy i) (t.resume i).2 := by
  rw [resume_opening, enteredBy]
  rcases h : t.opening i with _ | first
  · rw [List.append_nil]
    exact ⟨trivial, ht⟩
  · obtain ⟨hf, hc⟩ := flow_counted (opening_preserves h t ht)
      fun t ht => proceed_counted t.machine.turns ht
    exact ⟨hf, advance_counted hc⟩

theorem run_counted : ∀ (calls : List (Option Nat)) {t : Telling} {notes : List Visit},
    Counted story m notes t → Follows story m notes (t.entries calls)
      ∧ Counted story m (notes ++ t.entries calls) (t.run calls).2
  | [], _, _, ht => by
    rw [entries, List.append_nil]
    exact ⟨trivial, ht⟩
  | i :: is, t, notes, ht => by
    obtain ⟨hf, hc⟩ := resume_counted ht i
    obtain ⟨hf', hc'⟩ := run_counted is hc
    rw [List.append_assoc] at hc'
    exact ⟨hf.append hf', hc'⟩

end Counting

/-! ## What is shown -/

section Showing

variable {m : Machine} (hm : m.resolve = Run.resolve)

include hm in
/-- Looking values up changes nothing. -/
theorem fillSpans_after (w : World) : ∀ (ps : List Document.Placeholder) (html : List Char),
    (fillSpans m ps html).after w = w
  | [], _ => rfl
  | p :: ps, html => by
    have hw : (get : Run World) w = .ok w w := rfl
    rw [Run.after, fillSpans, hm]
    simp only [Run.resolve, Bind.bind, EStateM.bind, hw]
    rcases w.address? p.variableName with _ | a
    · rfl
    · exact fillSpans_after w ps _

include hm in
/-- The draw is made before the contents are put out. -/
theorem showContents_after {contents : List Content} {visit : Nat} {w : World} {c : Content}
    (hc : (draw contents visit w.random).1 = some c) :
    let w₁ := { w with random := w.random.draw.2 }
    (showContents m contents visit).after w
      = { w₁ with content := w₁.content ++ (c.nodes m w₁).toArray } := by
  intro w₁
  have hw : (get : Run World) w = .ok w w := rfl
  have hs : ∀ (f : World → World) w, (modify f : Run Unit) w = .ok () (f w) := fun _ _ => rfl
  have hb : (!(admitted contents visit).isEmpty) = true := by
    have := List.ne_nil_of_mem (List.mem_of_getElem? hc)
    simpa using this
  have hr : ((w.random.index (admitted contents visit).length).2) = w.random.draw.2 := rfl
  have hf := fillSpans_after hm w₁ c.placeholders c.html.toList
  simp only [draw, admitted] at hb hc hr
  simp only [Run.after, showContents, hb, if_true, Bind.bind, EStateM.bind, hw, hs,
    List.getD_eq_getElem?_getD, hc, Option.getD_some, hr]
  rw [Content.nodes]
  rw [Run.after] at hf
  rcases h : fillSpans m c.placeholders c.html.toList w₁ with ⟨html, w'⟩ | ⟨e, w'⟩ <;>
    rw [h] at hf <;> obtain rfl : w' = w₁ := hf
  · cases hb : (Text.trim html).isEmpty
    · simp [hb, hs, World.emit]
    · simp [hb]
      rfl
  · simp

end Showing

theorem present_after (s : Section Nat) (t : Telling) :
    (after (present s) t).world = (showContents t.machine s.contents
      ((t.visits.lookup s.name).getD 0 + 1)).after t.world := by
  have hk : ∀ (k : Machine → Run Unit) (t : Telling),
      (do onWorld (k (← get).machine) : Tell Unit) t = onWorld (k t.machine) t := fun _ _ => rfl
  rw [after, present_eq, hk (fun m => showContents m s.contents _), onWorld, Run.after]
  rcases showContents t.machine s.contents ((t.visits.lookup s.name).getD 0 + 1) t.world with
    ⟨_, w⟩ | ⟨e, w⟩ <;> rfl

theorem draw_of_isFor {contents : List Content} {visit : Nat} {r : Random} {c : Content}
    (h : c ∈ contents) (hv : c.IsFor visit) : ∃ d, (draw contents visit r).1 = some d := by
  refine Option.ne_none_iff_exists'.mp fun hn => ?_
  have : c ∈ admitted contents visit := List.mem_filter.mpr ⟨h, Content.isFor_iff.mp hv⟩
  rw [draw_none (w := { random := r }) hn] at this
  cases this

theorem ofStory_counted (story : Story Unit) (seed : String) (provider : Provider) (limit : Nat) :
    Counted story.labelled (Tale.machine limit) [] (ofStory story seed provider limit) := by
  refine ⟨[], ⟨rfl, rfl, rfl, fun s hs => ?_⟩, fun _ => rfl⟩
  have hs : s ∈ story.labelled.sections.head? := Option.mem_toList.mp hs
  obtain ⟨ss, hss⟩ := List.head?_eq_some_iff.mp hs
  rw [Story.section?, hss, List.find?_cons_of_pos (by simp)]

/-- Each visit of a section shows one of the contents that are for its number, at the cost of one
draw, and shows and draws nothing where there are none. The number counts the visits of this section
alone, over all calls. What is put out of contents in which no variable is shown is their HTML, if
it is not blank. -/
theorem contents_by_visit (story : Story Unit) (seed : String) (provider : Provider) (limit : Nat)
    (calls : List (Option Nat)) :
    let t := ofStory story seed provider limit
    (∀ s, enter s = (do arrive s; present s; leave s))
      ∧ (∀ name, ((t.run calls).2.visits.lookup name).getD 0
          = (t.entries calls).countP (·.place.name = name))
      ∧ ∀ i v, (t.entries calls)[i]? = some v →
        let visit := ((t.entries calls).take i).countP (·.place.name = v.place.name) + 1
        let w := v.telling.world
        let w' := (after (present v.place) v.telling).world
        t.story.section? v.place.name = some v.place
          ∧ ((∀ c ∈ v.place.contents, ¬ c.IsFor visit) → w' = w)
          ∧ ((∃ c ∈ v.place.contents, c.IsFor visit) → ∃ c ∈ v.place.contents, c.IsFor visit ∧
            let drawn := { w with random := w.random.draw.2 }
            w' = { drawn with
                content := drawn.content ++ (c.nodes (Tale.machine limit) drawn).toArray }
              ∧ (c.placeholders = [] → c.nodes (Tale.machine limit) drawn
                = if (Text.trim c.html.toList).isEmpty then [] else [.html c.html])) := by
  intro t
  obtain ⟨hf, _, hh, hn⟩ := run_counted calls (ofStory_counted story seed provider limit)
  refine ⟨enter_eq, fun name => ?_, fun i v hi => ?_⟩
  · rw [hh.visits]
    exact hn name
  · obtain ⟨hs, visits, hh, hn⟩ := hf.getElem? hi
    rw [List.nil_append] at hn
    rw [present_after, hh.machine, hh.visits, hn]
    refine ⟨hs, fun hv => ?_, fun ⟨c, hc, hv⟩ => ?_⟩
    · have hd : (draw v.place.contents
          ((((ofStory story seed provider limit).entries calls).take i).countP
            (·.place.name = v.place.name) + 1) v.telling.world.random).1 = none := by
        refine Option.eq_none_iff_forall_ne_some.mpr fun c hd => ?_
        obtain ⟨hc, ha⟩ := draw_mem hd
        exact hv c hc (Content.isFor_iff.mpr ha)
      rw [Run.after, showContents_none hd]
    · obtain ⟨d, hd⟩ := draw_of_isFor (r := v.telling.world.random) hc hv
      obtain ⟨hc, hv⟩ := draw_mem hd
      exact ⟨d, hc, Content.isFor_iff.mpr hv, showContents_after rfl hd, Content.nodes_written⟩

/-- A room that is entered anew by its choice, by way of a hall. Contents of both are for a second
visit or for later ones. -/
def returning : Story Unit :=
  let back : Expr Unit := ⟨.choice ⟨.string "back", none⟩ ⟨.goto ["hall", "room"], none⟩, none⟩
  let contents : List Content :=
    [⟨"<p>known</p>", [], ⟨some 2, some 2⟩⟩, ⟨"<p>home</p>", [], ⟨some 3, none⟩⟩]
  ⟨⟨1, 0⟩, [], [⟨"room", none, ⟨.selection ⟨.list [.item back], none⟩, none⟩, contents, none⟩,
    ⟨"hall", none, ⟨.null, none⟩, contents, none⟩]⟩

/-- The second visit of the room comes after one of the hall, and shows what is for a second one. -/
theorem contents_by_visit_returning :
    let t := ofStory returning "seed" {} 20
    let calls := [none, some 0]
    ((t.entries calls).take 3).map (·.place.name) = ["room", "hall", "room"]
      ∧ ∃ v, (t.entries calls)[2]? = some v ∧
        let w := v.telling.world
        (after (present v.place) v.telling).world = { w with
          random := w.random.draw.2
          content := w.content ++ #[.html "<p>known</p>"] } := by
  intro t calls
  have hn : ((t.entries calls).take 3).map (·.place.name) = ["room", "hall", "room"] := by
    decide +kernel
  have hc : (t.entries calls)[2]?.map (·.place.contents) = some
      [⟨"<p>known</p>", [], ⟨some 2, some 2⟩⟩, ⟨"<p>home</p>", [], ⟨some 3, none⟩⟩] := by
    decide +kernel
  obtain ⟨v, hv, hc⟩ := Option.map_eq_some_iff.mp hc
  have hr : v.place.name = "room" := by
    have := congrArg (·[2]?) hn
    simpa [hv] using this
  have hk : (((ofStory returning "seed" {} 20).entries calls).take 2).countP
      (·.place.name = v.place.name) = 1 := by
    rw [hr]
    decide +kernel
  have shown := (contents_by_visit returning "seed" {} 20 calls).2.2 2 v hv
  simp only [hk] at shown
  have hk : ⟨"<p>known</p>", [], ⟨some 2, some 2⟩⟩ ∈ v.place.contents := by
    rw [hc]
    exact .head _
  obtain ⟨c, hm, hf, hw, hnodes⟩ := shown.2.2 ⟨_, hk, by simp [Content.IsFor]⟩
  rw [hc] at hm
  simp only [List.mem_cons, List.not_mem_nil, or_false] at hm
  rcases hm with rfl | rfl
  · refine ⟨hn, v, hv, hw.trans ?_⟩
    rw [hnodes rfl, if_neg (by decide)]
  · exact absurd hf (by simp [Content.IsFor])

end Telling

end Tale
