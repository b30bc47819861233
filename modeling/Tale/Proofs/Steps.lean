import Tale.Proofs.Operators
import Tale.Telling

/-!
# Tellings with one machine and with another

A telling holds the machine it evaluates with. `Alike` says of a computation on tellings that it
does the same with a machine in place of another one, and that cells are only added. In a regime
that nothing is left in, it follows for each part of a step from what the two machines have in
common (`Regime.Tells`).
-/

namespace Tale

namespace Telling

variable {α β : Type}

def withMachine (m : Machine) (t : Telling) : Telling :=
  { t with machine := m }

/-- The outcome of a computation, the machine exchanged. -/
def exchange (m : Machine) : EStateM.Result Stop Telling α → EStateM.Result Stop Telling α
  | .ok a t => .ok a (t.withMachine m)
  | .error e t => .error e (t.withMachine m)

/-- A computation started with `t` ended as it should. -/
def Ends (t : Telling) (Q : α → Telling → Prop) (E : Stop → Telling → Prop) :
    EStateM.Result Stop Telling α → Prop
  | .ok a t' => t.world.Grows t'.world ∧ Q a t'
  | .error e t' => t.world.Grows t'.world ∧ E e t'

/-- With the machine `m` a computation does the same, wherever `P` admits it. -/
def Alike (m : Machine) (P : Telling → Prop) (x : Tell α) (Q : α → Telling → Prop)
    (E : Stop → Telling → Prop) : Prop :=
  ∀ t, P t → x (t.withMachine m) = exchange m (x t) ∧ Ends t Q E (x t)

namespace Alike

variable {m : Machine} {P : Telling → Prop} {Q : α → Telling → Prop} {R : β → Telling → Prop}
  {E : Stop → Telling → Prop} {x : Tell α}

theorem bind {f : α → Tell β} (h : Alike m P x Q E) (hf : ∀ a, Alike m (Q a) (f a) R E) :
    Alike m P (x >>= f) R E := by
  intro t hp
  obtain ⟨hx, he⟩ := h t hp
  simp only [Bind.bind, EStateM.bind, hx]
  rcases hy : x t with ⟨a, t'⟩ | ⟨e, t'⟩ <;> rw [hy] at he
  · obtain ⟨hfa, hb⟩ := hf a t' he.2
    refine ⟨hfa, ?_⟩
    simp only []
    rcases hg : f a t' with ⟨b, t''⟩ | ⟨e, t''⟩ <;> rw [hg] at hb
    · exact ⟨he.1.trans hb.1, hb.2⟩
    · exact ⟨he.1.trans hb.1, hb.2⟩
  · exact ⟨rfl, he⟩

theorem conseq {P' : Telling → Prop} {Q' : α → Telling → Prop} {E' : Stop → Telling → Prop}
    (h : Alike m P x Q E) (hp : ∀ t, P' t → P t) (hq : ∀ a t, Q a t → Q' a t)
    (he : ∀ e t, E e t → E' e t) : Alike m P' x Q' E' := by
  intro t ht
  obtain ⟨hx, hr⟩ := h t (hp t ht)
  refine ⟨hx, ?_⟩
  rcases hy : x t with ⟨a, t'⟩ | ⟨e, t'⟩ <;> rw [hy] at hr
  · exact ⟨hr.1, hq a t' hr.2⟩
  · exact ⟨hr.1, he e t' hr.2⟩

theorem of_and {p : Prop} (h : p → Alike m P x Q E) : Alike m (fun t => p ∧ P t) x Q E :=
  fun t ht => h ht.1 t ht.2

theorem pure {a : α} (h : ∀ t, P t → Q a t) : Alike m P (pure a) Q E :=
  fun t ht => ⟨rfl, .refl t.world, h t ht⟩

theorem throw {e : Stop} (h : ∀ t, P t → E e t) : Alike m P (throw e : Tell α) Q E :=
  fun t ht => ⟨rfl, .refl t.world, h t ht⟩

/-- A change that looks at everything but the machine. -/
theorem modify {f : Telling → Telling} {Q : Unit → Telling → Prop}
    (hm : ∀ t, f (t.withMachine m) = (f t).withMachine m)
    (hg : ∀ t : Telling, t.world.Grows (f t).world) (h : ∀ t, P t → Q () (f t)) :
    Alike m P (modify f : Tell Unit) Q E :=
  fun t ht => ⟨congrArg (EStateM.Result.ok ()) (hm t), hg t, h t ht⟩

/-- Looks at the telling; what it does then may depend on all but the machine. -/
theorem get_bind {f : Telling → Tell α} (hm : ∀ t, P t → f (t.withMachine m) = f t)
    (h : ∀ t, P t → Alike m (· = t) (f t) Q E) : Alike m P (get >>= f) Q E := by
  intro t ht
  obtain ⟨hx, he⟩ := h t ht t rfl
  exact ⟨(congrFun (hm t ht) _).trans hx, he⟩

end Alike

end Telling

/-! ## In a regime -/

namespace Regime

/-- Two machines that do alike whatever a section asks for. -/
structure Enters (R : Regime) (m m' : Machine) (s : Section Nat) : Prop where
  executes (e : Expr Nat) (h : e ∈ s.executes.toList) : R.Evals m m' e
  next : R.Evals m m' s.next
  names (k : Content) (hk : k ∈ s.contents) (p : Document.Placeholder) (hp : p ∈ k.placeholders) :
    R.Finds m m' p.variableName

/-- What two machines have in common outside of all scopes that can be left, so that each of the
sections `S` can be entered with either. -/
structure Serves (R : Regime) (m m' : Machine) (S : Section Nat → Prop) : Prop where
  calls : R.Calls m m'
  enters (s : Section Nat) (h : S s) : R.Enters m m' s
  even (r : Register) (w w' : World) (hr : R.leaves r) (h : R.left r w w') : w = w'

/-- A story with sections `S`. If an action leads to none of them, the regime knows the cause of
the fault. -/
structure Covers (R : Regime) (S : Section Nat → Prop) (story : Story Nat) : Prop where
  sections (s : Section Nat) (h : s ∈ story.sections) : S s
  targets (names : List String) (h : R.norm.targets names) (name : String) (hn : name ∈ names)
    (hs : story.section? name = none) : R.causes (.unknownSection name)

/-- A telling with the machine `m`, in a fit world, of a story with sections `S`. -/
structure Suits (R : Regime) (m : Machine) (S : Section Nat → Prop) (t : Telling) : Prop where
  machine : t.machine = m
  world : R.Fit t.world
  pending (s : Section Nat) (h : s ∈ t.pending) : S s
  story : R.Covers S t.story

open Telling

variable {α β : Type}

def Tells (R : Regime) (m m' : Machine) (S : Section Nat → Prop) (V : α → Prop) (x : Tell α) :
    Prop :=
  Alike m (R.Suits m' S) x (fun a t => V a ∧ R.Suits m' S t) fun e t =>
    R.Stops e ∧ R.Suits m' S t

namespace Tells

variable {R : Regime} {m m' : Machine} {S : Section Nat → Prop} {V : α → Prop} {U : β → Prop}
  {x : Tell α}

theorem bind {f : α → Tell β} (h : R.Tells m m' S V x) (hf : ∀ a, V a → R.Tells m m' S U (f a)) :
    R.Tells m m' S U (x >>= f) :=
  Alike.bind h fun a => .of_and fun ha => hf a ha

theorem pure {a : α} (h : V a) : R.Tells m m' S V (pure a) :=
  Alike.pure fun _ ht => ⟨h, ht⟩

theorem fault {cause : Fault.Cause} {location : Option Location} (h : R.causes cause) :
    R.Tells m m' S V (Telling.fail cause location) :=
  Alike.throw fun _ ht => ⟨h, ht⟩

theorem fail {cause : Fault.Cause} {location : Option Location}
    (h : cause.Ordinary) : R.Tells m m' S V (Telling.fail cause location) :=
  fault (R.ordinary h)

theorem modify {V : Unit → Prop} {f : Telling → Telling} (hv : V ())
    (hm : ∀ t, f (t.withMachine m) = (f t).withMachine m)
    (hw : ∀ t, (f t).world.cells = t.world.cells)
    (h : ∀ t, R.Suits m' S t → R.Suits m' S (f t)) : R.Tells m m' S V (modify f) :=
  Alike.modify hm (fun t a x hx => ⟨x, (congrArg (·[a]?) (hw t)).trans hx, rfl⟩)
    fun t ht => ⟨hv, h t ht⟩

theorem get_bind {f : Telling → Tell α} (hm : ∀ t, f (t.withMachine m) = f t)
    (h : ∀ t, R.Suits m' S t → R.Tells m m' S V (f t)) : R.Tells m m' S V (get >>= f) := by
  refine Alike.get_bind (fun t _ => hm t) fun t ht => (h t ht).conseq ?_ (fun _ _ h => h)
    fun _ _ h => h
  rintro _ rfl
  exact ht

theorem adapt {f : Stop → Stop} (h : R.Tells m m' S V x) (hf : ∀ e, R.Stops e → R.Stops (f e)) :
    R.Tells m m' S V (Telling.adapt f x) := by
  intro t ht
  obtain ⟨hx, he⟩ := h t ht
  rw [Telling.adapt, Telling.adapt, hx]
  rcases hy : x t with ⟨a, t'⟩ | ⟨e, t'⟩ <;> rw [hy] at he
  · exact ⟨rfl, he⟩
  · exact ⟨rfl, he.1, hf e he.2.1, he.2.2⟩

end Tells

/-! ## The parts of a step -/

section Parts

variable {R : Regime} {m m' : Machine} {S : Section Nat → Prop} (hm : R.Serves m m' S)

def FlowMeets (N : Norm) : Flow → Prop
  | .goOn => True
  | .wait _ choices => choicesMeet N choices

include hm in
/-- What the machine does to the world. -/
theorem onMachine_tells {V : α → Prop} {k : Machine → Run α} (h : R.Links V (k m) (k m')) :
    R.Tells m m' S V (do onWorld (k (← get).machine)) := by
  intro t ht
  have hk : ∀ t : Telling, (do onWorld (k (← get).machine) : Tell α) t = onWorld (k t.machine) t :=
    fun _ => rfl
  have hw := h t.world ht.world
  rw [hk, hk, ht.machine, onWorld, onWorld]
  simp only [withMachine]
  generalize k m t.world = o, k m' t.world = o' at hw
  cases hw with
  | ok grows value =>
    exact ⟨rfl, grows.1, value.1, ht.machine, value.2, ht.pending, ht.story⟩
  | error grows stop notLeft =>
    exact ⟨rfl, grows.1, stop.1, ht.machine, stop.2, ht.pending, ht.story⟩
  | left grows stop related =>
    obtain rfl := hm.even _ _ _ stop.1 related
    exact ⟨rfl, grows.1, stop.1, ht.machine, stop.2, ht.pending, ht.story⟩

theorem takeContent_tells : R.Tells m m' S (fun _ => True) takeContent := by
  refine .get_bind (fun _ => rfl) fun t _ => .bind (.modify (V := fun _ => True) trivial
    (fun _ => rfl) (fun _ => rfl) fun t ht => ?_) fun _ _ => .pure trivial
  exact ⟨ht.machine, ht.world.of_eq rfl rfl rfl, ht.pending, ht.story⟩

theorem targets_mem {story : Story Nat} : ∀ {names : List String} {ss : List (Section Nat)},
    targets story names = .ok ss → ∀ s ∈ ss, s ∈ story.sections
  | [], _, h => by
    cases h
    exact fun _ => nofun
  | name :: names, ss, h => by
    rw [targets] at h
    rcases hr : targets story names with e | rest <;> rw [hr] at h
    · cases h
    · simp only [Bind.bind, Except.bind] at h
      split at h
      · rename_i x hx
        cases h
        intro s hs
        rcases List.mem_cons.mp hs with rfl | hs
        · exact List.mem_of_find?_eq_some hx
        · exact targets_mem hr s hs
      · cases h

/-- The name that is missing is one of those asked for. -/
theorem targets_missing {story : Story Nat} : ∀ {names : List String} {name : String},
    targets story names = .error name → name ∈ names ∧ story.section? name = none
  | [], _, h => by cases h
  | x :: names, name, h => by
    rw [targets] at h
    rcases hr : targets story names with e | rest <;> rw [hr] at h
    · cases h
      have ih := targets_missing hr
      exact ⟨.tail _ ih.1, ih.2⟩
    · simp only [Bind.bind, Except.bind] at h
      split at h
      · cases h
      · cases h
        exact ⟨.head _, ‹_›⟩

theorem fillSpans_links : ∀ (ps : List Document.Placeholder) (html : List Char),
    (∀ p ∈ ps, R.Finds m m' p.variableName) →
      R.Links (fun _ => True) (fillSpans m ps html) (fillSpans m' ps html)
  | [], _, _ => .pure trivial
  | p :: ps, html, h => by
    refine .bind (h p (.head _)) fun a _ => .bind (.read a) fun v _ => ?_
    exact fillSpans_links ps _ fun p' hp => h p' (.tail _ hp)

theorem showContents_links {contents : List Content} {visit : Nat}
    (h : ∀ k ∈ contents, ∀ p ∈ k.placeholders, R.Finds m m' p.variableName) :
    R.Links (fun _ => True) (showContents m contents visit) (showContents m' contents visit) := by
  simp only [showContents]
  split
  · refine .get_bind fun w _ => .bind (.modify (V := fun _ => True) trivial (fun _ => rfl)
      (fun _ => rfl) (fun _ => rfl) fun _ => List.prefix_rfl) fun _ _ => ?_
    refine .bind (fillSpans_links _ _ fun p hp => ?_) fun html _ => ?_
    · generalize Random.index _ w.random = drawn at hp
      rw [List.getD_eq_getElem?_getD] at hp
      rcases hk : (contents.filter (·.bounds.admits visit))[drawn.1]? with _ | k <;> rw [hk] at hp
      · exact nomatch hp
      · exact h k (List.mem_filter.mp (List.mem_of_getElem? hk)).1 p hp
    · split
      · exact .modify trivial (fun _ => rfl) (fun _ => rfl) (fun _ => rfl) fun w =>
          w.content_emit _
      · exact .pure trivial
  · exact .pure trivial

include hm in
theorem eval_tells {e : Expr Nat} (he : R.Evals m m' e) :
    R.Tells m m' S R.Admits (Telling.eval e) :=
  onMachine_tells hm (k := fun m => m.eval e) he

include hm in
theorem call_tells {f : Function} (hf : f.Meets R.norm) :
    R.Tells m m' S R.Admits (Telling.call f) :=
  onMachine_tells hm (k := fun m => m.call f []) (hm.calls.call f [] hf nofun)

include hm in
theorem updatePinned_tells : R.Tells m m' S (fun _ => True) updatePinned := by
  refine .get_bind (fun _ => rfl) fun t ht => ?_
  split
  · refine .modify trivial (fun _ => rfl) (fun _ => rfl) fun t ht => ?_
    exact ⟨ht.machine, ht.world, ht.pending, ht.story⟩
  · rename_i f hp
    refine .bind (.adapt (call_tells hm (ht.world.pinned f hp)) ?_) fun _ _ => ?_
    · rintro (x | s | e | _) h
      · exact h
      · exact h
      · exact R.ordinary trivial
      · exact h
    · refine .bind takeContent_tells fun pinned _ => ?_
      refine .modify trivial (fun _ => rfl) (fun _ => rfl) fun t ht => ?_
      exact ⟨ht.machine, ht.world, ht.pending, ht.story⟩

include hm in
theorem act_tells {a : Action} (ha : a.Meets R.norm) :
    R.Tells m m' S (FlowMeets R.norm) (act a) := by
  cases a with
  | goto names =>
    refine .get_bind (fun _ => rfl) fun t ht => ?_
    split
    · rename_i sections hs
      refine .bind (.modify (V := fun _ => True) trivial (fun _ => rfl) (fun _ => rfl)
        fun t' ht' => ?_) fun _ _ => .pure trivial
      refine ⟨ht'.machine, ht'.world, fun s hm => ?_, ht'.story⟩
      rcases List.mem_append.mp hm with hm | hm
      · exact ht.story.sections s (targets_mem hs s hm)
      · exact ht'.pending s hm
    · rename_i name hn
      obtain ⟨hm, hs⟩ := targets_missing hn
      exact .fault (ht.story.targets names ha name hm hs)
  | exit =>
    refine .bind (.modify (V := fun _ => True) trivial (fun _ => rfl) (fun _ => rfl)
      fun t ht => ?_) fun _ _ => .pure trivial
    exact ⟨ht.machine, ht.world, fun _ => nofun, ht.story⟩
  | selection choices =>
    exact .bind takeContent_tells fun _ _ => .bind (updatePinned_tells hm) fun _ _ => .pure ha

include hm in
theorem actOn_tells {otherwise : Value → Tell Flow} {v : Value} (hv : R.Admits v)
    (ho : ∀ v, R.Tells m m' S (FlowMeets R.norm) (otherwise v)) :
    R.Tells m m' S (FlowMeets R.norm) (actOn otherwise v) := by
  unfold actOn
  split
  · exact act_tells hm hv
  · exact .pure trivial
  · exact ho _

include hm in
theorem perform_tells {k : Consequence} (hk : k.Meets R.norm) :
    R.Tells m m' S (FlowMeets R.norm) (perform k) := by
  cases k with
  | act a => exact act_tells hm hk
  | call f creator =>
    refine .bind (.adapt (call_tells hm hk) ?_) fun v hv => actOn_tells hm hv fun _ => .fail trivial
    rintro (x | s | e | _) h
    · exact h
    · exact h
    · exact R.ordinary trivial
    · exact h

theorem countVisit_tells {name : String} : R.Tells m m' S (fun _ => True) (countVisit name) := by
  refine .get_bind (fun _ => rfl) fun t _ => .bind (.modify (V := fun _ => True) trivial
    (fun _ => rfl) (fun _ => rfl) fun t ht => ?_) fun _ _ => .pure trivial
  exact ⟨ht.machine, ht.world, ht.pending, ht.story⟩

include hm in
theorem enter_tells {s : Section Nat} (hs : S s) :
    R.Tells m m' S (FlowMeets R.norm) (enter s) := by
  have he := hm.enters s hs
  have rest : R.Tells m m' S (FlowMeets R.norm) (do
      let visit ← countVisit s.name
      onWorld (showContents (← get).machine s.contents visit)
      let v ← Telling.eval s.next
      actOn (fun v => Telling.fail (.next v) s.next.location) v) := by
    refine .bind countVisit_tells fun visit _ => ?_
    rw [← bind_assoc]
    refine .bind (onMachine_tells hm (k := fun m => showContents m s.contents visit)
      (showContents_links he.names)) fun _ _ => ?_
    exact .bind (eval_tells hm he.next) fun v hv => actOn_tells hm hv fun _ => .fail trivial
  simp only [enter]
  split
  · rename_i e hx
    refine .bind (eval_tells hm (he.executes e ?_)) fun _ _ => rest
    rw [hx]
    exact .head _
  · exact rest

theorem locate_stops {t : Telling} {e : Stop} (h : R.Stops e) : R.Stops (t.locate e) := by
  have hp : ∀ f : Fault, (locate.passing t f).cause = f.cause := by
    intro f
    rw [locate.passing]
    split <;> rfl
  rcases e with f | s | r | _
  · rw [locate, Stops, hp]
    exact h
  · exact h
  · rw [locate, Stops, hp]
    exact R.ordinary trivial
  · exact h

theorem located_alike {P : Telling → Prop} {Q : α → Telling → Prop} {T : Telling → Prop}
    {x : Tell α} (h : Alike m P x Q fun e t => R.Stops e ∧ T t) :
    Alike m P (located x) Q fun e t => R.Stops e ∧ T t := by
  intro t ht
  obtain ⟨hx, he⟩ := h t ht
  rw [located, located, hx]
  rcases hy : x t with ⟨a, t'⟩ | ⟨e, t'⟩ <;> rw [hy] at he
  · exact ⟨rfl, he⟩
  · exact ⟨rfl, he.1, locate_stops he.2.1, he.2.2⟩

/-- Where a telling stands when a step is done. -/
def Rests (N : Norm) : Stage → Prop
  | .unstarted => False
  | .waiting choices => choicesMeet N choices
  | .finished => True

/-- The rest of a step. -/
def Steps (R : Regime) (m m' : Machine) (S : Section Nat → Prop) (x : Tell Step) : Prop :=
  Alike m (R.Suits m' S) x (fun _ t => R.Suits m' S t ∧ Rests R.norm t.stage) fun e t =>
    R.Stops e ∧ R.Suits m' S t

theorem suspend_steps {output : Output} {choices : List Choice} (h : choicesMeet R.norm choices) :
    R.Steps m m' S (suspend output choices) := by
  refine Alike.bind (Q := fun _ t => R.Suits m' S t ∧ Rests R.norm t.stage) ?_ fun _ =>
    .pure fun _ h => h
  refine .modify (fun _ => rfl) (fun _ => .refl _) fun t ht => ⟨?_, h⟩
  exact ⟨ht.machine, ht.world, ht.pending, ht.story⟩

include hm in
theorem finish_steps : R.Steps m m' S finish := by
  refine Alike.bind takeContent_tells fun _ => .of_and fun _ => ?_
  refine Alike.bind (updatePinned_tells hm) fun _ => .of_and fun _ => ?_
  refine Alike.bind (Q := fun _ t => R.Suits m' S t ∧ Rests R.norm t.stage) ?_ fun _ =>
    .pure fun _ h => h
  refine .modify (fun _ => rfl) (fun _ => .refl _) fun t ht => ⟨?_, trivial⟩
  exact ⟨ht.machine, ht.world, ht.pending, ht.story⟩

include hm in
/-- One section after the other: each is one of the story's, so it can be entered. -/
theorem proceed_steps : ∀ turns, R.Steps m m' S (proceed turns)
  | 0 => Alike.throw fun _ ht => ⟨trivial, ht⟩
  | n + 1 => by
    rw [proceed]
    refine Alike.get_bind (fun _ _ => rfl) fun t ht => ?_
    split
    · refine (finish_steps hm).conseq ?_ (fun _ _ h => h) fun _ _ h => h
      rintro _ rfl
      exact ht
    · rename_i s pending hp
      have hs := ht.pending s (hp ▸ .head _)
      refine Alike.bind (Q := fun _ t => R.Suits m' S t)
        (.modify (fun _ => rfl) (fun _ => .refl _) ?_) fun _ =>
          .bind (located_alike (enter_tells hm hs)) fun flow => .of_and fun hf => ?_
      · rintro _ rfl
        refine ⟨ht.machine, ht.world, fun x hx => ?_, ht.story⟩
        exact ht.pending x (hp ▸ .tail _ hx)
      · cases flow with
        | goOn => exact proceed_steps n
        | wait output choices => exact suspend_steps hf

end Parts

end Regime

end Tale
