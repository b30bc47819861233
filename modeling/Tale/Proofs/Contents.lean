import Tale.Proofs.Protocol
import Tale.Proofs.Safety

/-!
# What the reader is shown

Whatever a story puts out goes into one buffer. When a step ends, the buffer is taken for the
content of the step; then the pinned function is called, and what it puts out is taken for what is
pinned.

`narrate` goes through the step of a call and notes, part after part, what is put out. It takes
nothing from the buffer, and ends before the pinned function is called. A step shows just what
`narrate` notes, and what is pinned is just what the pinned function puts out where `narrate` ends,
called with an empty buffer; the buffer is empty after that (`contents_shown`). The function that is
called may be pinned no longer when the step is over (`pinned_outlasting`).

That what a part puts out is seen in the buffer rests on `Run.Appends`: nothing that is evaluated or
called takes out of the buffer what is in it.
-/

namespace Tale

variable {α β : Type}

/-! ## Parts -/

def World.drained (w : World) : World :=
  { w with content := #[] }

/-- The nodes that a computation puts out. -/
def Run.nodes (x : Run α) (w : World) : List Node :=
  (x.after w).content.toList.drop w.content.size

/-- What was put out before stays, and comes first. -/
def Run.Appends (x : Run α) (w : World) : Prop :=
  (x.after w).content.toList = w.content.toList ++ x.nodes w

theorem Agree.appends {P : World → Prop} {Q : α → World → Prop} {E : Stop → World → Prop}
    {x y : Run α} {w : World} (h : Agree P x y Q E) (hw : P w) : y.Appends w := by
  have hp : w.content.toList <+: (y.after w).content.toList := by
    obtain ⟨-, he⟩ := h w hw
    rw [Run.after]
    rcases hy : y w with ⟨a, w'⟩ | ⟨e, w'⟩ <;> rw [hy] at he
    · exact he.1.2
    · exact he.1.2
  rw [Run.Appends, Run.nodes, ← Array.length_toList]
  exact (List.prefix_iff_eq_append.mp hp).symm

theorem Keeps.appends {V : α → Prop} {x y : Run α} {w : World}
    (h : Keeps ⟨False, False⟩ w.outlines V x y) : y.Appends w :=
  Agree.appends h ⟨rfl, False.elim, False.elim⟩

/-- Nothing is taken out of the buffer by what a machine does. -/
structure Machine.Appends (m : Machine) : Prop where
  eval (e : Expr Nat) (w : World) : (m.eval e).Appends w
  call (f : Function) (args : List Value) (w : World) : (m.call f args).Appends w
  native (f : Native) (args : List Value) (w : World) : (f.run m args).run.Appends w
  contents (contents : List Content) (visit : Nat) (w : World) :
    (Telling.showContents m contents visit).Appends w
  statements (ss : List (Statement Nat)) (w : World) (hw : w.scopes ≠ []) :
    (Evaluation.statements m ss).Appends w

theorem machine_appends (n : Nat) : (machine n).Appends := by
  have agree := machine_agree_refl ⟨False, False⟩ n
  refine ⟨fun e w => ?_, fun f args w => ?_, fun f args w => ?_, fun contents visit w => ?_,
    fun ss w hw => ?_⟩
  · exact Keeps.appends (agree.eval w.outlines e False.elim)
  · exact Keeps.appends (agree.call w.outlines f args False.elim fun _ _ => False.elim)
  · exact Keeps.appends (Native.run_answers agree f fun _ _ => False.elim)
  · have links : (Care.regime ⟨False, False⟩ w.outlines).Links (fun _ => True)
        (Telling.showContents (machine n) contents visit)
        (Telling.showContents (machine n) contents visit) :=
      Regime.showContents_links fun _ _ _ _ => Evaluation.finds_of_agree agree False.elim
    exact Keeps.appends (keeps_iff.mpr links)
  · obtain ⟨s, scopes, hs⟩ := List.exists_cons_of_ne_nil hw
    have fit : w.FitIn ⟨False, False⟩ (scopes.map Scope.outline) s.outline.register
        (s.names.map (·.1)) := by
      refine ⟨s.names, rfl, ?_, False.elim, False.elim⟩
      rw [World.outlines, hs]
      rfl
    exact Agree.appends (Evaluation.statements_extends (agree.inside _ _) ss False.elim) fit

namespace Telling

/-! ## Narrations -/

/-- A computation on a telling with a log of what is put out. -/
abbrev Narration := StateT (List Node) Tell

namespace Narration

/-- Runs a part of a step on the world, and notes what it puts out. -/
def part (body : Machine → Run α) : Narration α := fun log => do
  let t ← get
  let a ← onWorld (body t.machine)
  return (a, log ++ (body t.machine).nodes t.world)

/-- Does what an action does, up to where a selection ends the step. It says whether the step goes
on. -/
def act : Action → Narration Bool
  | .selection _ => return false
  | a => do
    let _ ← Telling.act a
    return true

def actOn (otherwise : Value → Tell Flow) : Value → Narration Bool
  | .action a => act a
  | .null => return true
  | v => do
    let _ ← otherwise v
    return true

def perform : Consequence → Narration Bool
  | .act a => act a
  | .call f creator => do
    let v ← part (·.call f [])
    actOn (fun v => fail (.actionResult v) creator) v

def enter (s : Section Nat) : Narration Bool := do
  if let some e := s.executes then
    let _ ← part (·.eval e)
  let visit ← countVisit s.name
  part (showContents · s.contents visit)
  let v ← part (·.eval s.next)
  actOn (fun v => fail (.next v) s.next.location) v

/-- Enters section after section until the step ends. -/
def proceed : (turns : Nat) → Narration Unit
  | 0 => throw .exhausted
  | n + 1 => do
    match (← getThe Telling).pending with
    | [] => return
    | s :: pending =>
      modifyThe Telling fun t => { t with pending, last := some s }
      if ← enter s then proceed n

def step (first : Narration Bool) : Narration Unit := do
  if ← first then proceed (← getThe Telling).machine.turns

def init : Narration Bool := do
  let t ← getThe Telling
  part (Evaluation.statements · t.story.init)
  return true

end Narration

/-- How a call begins a step, if it does. -/
def begins (t : Telling) (choice : Option Nat) : Option (Narration Bool) :=
  match t.stage, choice with
  | .unstarted, none => some Narration.init
  | .waiting choices, some i => (choices[i]?.bind (·.consequence)).map Narration.perform
  | _, _ => none

/-- What is put out in the step of a call, up to where it ends and the pinned function is called,
and the telling at this point. -/
def narrate (t : Telling) (choice : Option Nat) : Option (List Node × Telling) :=
  match t.begins choice with
  | some first =>
    match Narration.step first [] t with
    | .ok log t => some (log.2, t)
    | .error _ _ => none
  | none => none

/-- Calls the pinned function, if one is set. -/
def pinnedCall (t : Telling) : Run Unit :=
  match t.world.pinned with
  | none => pure ()
  | some f => do
    let _ ← t.machine.call f []

def pinnedNodes (t : Telling) : List Node :=
  t.pinnedCall.nodes t.world.drained

/-! ## Steps and their narrations -/

/-- The narration with the buffer for a log goes as the computation does, if that comes to a value,
and ends in the telling `told` with its buffer for a log. -/
def Logs (P : Telling → Prop) (Q : α → β → Telling → Telling → Prop) (x : Tell α)
    (y : Narration β) : Prop :=
  ∀ ⦃t a t'⦄, P t → x t = .ok a t' → ∃ b told,
    y t.world.content.toList t = .ok (b, told.world.content.toList) told ∧ Q a b told t'

def On (m : Machine) (t : Telling) : Prop :=
  t.machine = m

/-- Both came to the same. -/
def Same (m : Machine) (a b : α) (told t : Telling) : Prop :=
  a = b ∧ told = t ∧ t.On m

/-- The contents, which are all that was in the buffer of `told`, were taken, and then what is
pinned. -/
structure Taken (contents : List Node) (told t : Telling) : Prop where
  contents : contents = told.world.content.toList
  pinned : t.pinned = told.pinnedNodes
  world : t.world = (told.pinnedCall.after told.world.drained).drained

/-- A flow that ends a step has taken what is shown; the narration has not. -/
def Goes (m : Machine) (flow : Flow) (goesOn : Bool) (told t : Telling) : Prop :=
  match flow with
  | .goOn => goesOn = true ∧ told = t ∧ t.On m
  | .wait output _ => goesOn = false ∧ Taken output.content told t

theorem of_adapt {f : Stop → Stop} {x : Tell α} {t t' : Telling} {a : α}
    (h : adapt f x t = .ok a t') : x t = .ok a t' := by
  rw [adapt] at h
  split at h
  · cases h
    assumption
  · cases h

theorem of_onWorld {body : Run α} {t t' : Telling} {a : α} (h : onWorld body t = .ok a t') :
    ∃ w, body t.world = .ok a w ∧ t' = { t with world := w } := by
  rw [onWorld] at h
  split at h
  · cases h
    exact ⟨_, ‹_›, rfl⟩
  · cases h

namespace Narration

theorem bind_ok {y : Narration α} {g : α → Narration β} {log log' : List Node} {t t' : Telling}
    {a : α} (h : y log t = .ok (a, log') t') : (y >>= g) log t = g a log' t' := by
  simp only [Bind.bind, StateT.bind, EStateM.bind, h]

end Narration

section Logs

variable {m : Machine} {P : Telling → Prop} {Q : α → β → Telling → Telling → Prop}

theorem Logs.bind {γ : Type} {x : Tell γ} {y : Narration γ} {f : γ → Tell α} {g : γ → Narration β}
    (h : Logs P (Same m) x y) (hf : ∀ c, Logs (On m) Q (f c) (g c)) :
    Logs P Q (x >>= f) (y >>= g) := by
  intro t a t' ht ha
  obtain ⟨c, s, hc, ha⟩ := of_bind ha
  obtain ⟨_, _, hy, rfl, rfl, hs⟩ := h ht hc
  obtain ⟨b, told, hg, hq⟩ := hf c hs ha
  exact ⟨b, told, (Narration.bind_ok hy).trans hg, hq⟩

theorem Logs.pure {a : α} {b : β} (h : ∀ t, t.On m → Q a b t t) :
    Logs (On m) Q (pure a) (pure b) := by
  rintro t _ _ ht ⟨⟩
  exact ⟨b, t, rfl, h t ht⟩

theorem Logs.stop {e : Stop} {y : Narration β} : Logs P Q (throw e : Tell α) y :=
  fun _ _ _ _ h => False.elim (Ensures.stop (Q := fun _ _ => False) h)

theorem Logs.get_bind {f : Telling → Tell α} {g : Telling → Narration β}
    (h : ∀ t, P t → Logs P Q (f t) (g t)) : Logs P Q (get >>= f) (getThe Telling >>= g) :=
  fun t _ _ ht ha => h t ht ht ha

/-- What leaves the buffer alone needs no log. -/
theorem Logs.lift {x : Tell α}
    (h : ∀ ⦃t a t'⦄, x t = .ok a t' → t'.world = t.world ∧ t'.machine = t.machine) :
    Logs (On m) (Same m) x (liftM x) := by
  intro t a t' ht ha
  obtain ⟨hw, hm⟩ := h ha
  refine ⟨a, t', ?_, rfl, rfl, hm.trans ht⟩
  have hl : (liftM x : Narration α) t.world.content.toList t
      = (x >>= fun a => Pure.pure (a, t.world.content.toList)) t := rfl
  rw [hl, hw]
  simp only [Bind.bind, EStateM.bind, ha]
  rfl

theorem Logs.located {x : Tell α} {y : Narration β} (h : Logs P Q x y) :
    Logs P Q (located x) y :=
  fun _ _ _ ht ha => h ht (of_located ha)

theorem Logs.adapt {f : Stop → Stop} {x : Tell α} {y : Narration β} (h : Logs P Q x y) :
    Logs P Q (adapt f x) y :=
  fun _ _ _ ht ha => h ht (of_adapt ha)

/-- A part that only adds to the buffer adds the same to the log. -/
theorem part_logs {x : Tell α} {body : Machine → Run α} (hm : ∀ t, P t → t.On m)
    (hx : ∀ t, P t → x t = onWorld (body m) t) (hn : ∀ t, P t → (body m).Appends t.world) :
    Logs P (Same m) x (Narration.part body) := by
  intro t a t' ht ha
  have htm : t.machine = m := hm t ht
  rw [hx t ht] at ha
  have hp : Narration.part body t.world.content.toList t
      = (onWorld (body m) >>= fun a =>
          Pure.pure (a, t.world.content.toList ++ (body m).nodes t.world)) t := by
    rw [← htm]
    rfl
  have hc := hn t ht
  obtain ⟨w, hb, rfl⟩ := of_onWorld ha
  rw [Run.Appends, Run.after, hb] at hc
  refine ⟨a, _, ?_, rfl, rfl, htm⟩
  rw [hp, ← hc]
  simp only [Bind.bind, EStateM.bind, ha]
  rfl

variable (hm : m.Appends)

include hm in
theorem eval_logs (e : Expr Nat) :
    Logs (On m) (Same m) (Telling.eval e) (Narration.part (·.eval e)) :=
  part_logs (fun _ h => h) (fun _ ht => ht ▸ rfl) fun t _ => hm.eval e t.world

include hm in
theorem call_logs (f : Function) :
    Logs (On m) (Same m) (Telling.call f) (Narration.part (·.call f [])) :=
  part_logs (fun _ h => h) (fun _ ht => ht ▸ rfl) fun t _ => hm.call f [] t.world

include hm in
theorem contents_logs (contents : List Content) (visit : Nat) :
    Logs (On m) (Same m) (do onWorld (showContents (← get).machine contents visit))
      (Narration.part (showContents · contents visit)) :=
  part_logs (fun _ h => h) (fun _ ht => ht ▸ rfl) fun t _ => hm.contents contents visit t.world

/-! ## Where a step ends -/

/-- The pinned function is called with an empty buffer, which is emptied again. -/
theorem updatePinned_ok {t t' : Telling} (he : t.world.drained = t.world)
    (h : updatePinned t = .ok () t') :
    t'.pinned = t.pinnedNodes ∧ t'.world = (t.pinnedCall.after t.world.drained).drained := by
  obtain ⟨_, _, ⟨⟩, h⟩ := of_bind h
  rw [pinnedNodes, he, pinnedCall]
  rcases hp : t.world.pinned with _ | f <;> rw [hp] at h
  · cases h
    exact ⟨(List.drop_eq_nil_of_le Nat.le.refl).symm, he.symm⟩
  · obtain ⟨_, s, hc, h⟩ := of_bind h
    obtain ⟨w, hf, rfl⟩ := of_onWorld (of_adapt hc)
    have ha : Run.after (do let _ ← t.machine.call f []) t.world = w := by
      simp only [Run.after, Bind.bind, EStateM.bind, hf]
      rfl
    cases h
    refine ⟨?_, congrArg World.drained ha.symm⟩
    rw [← he] at ha ⊢
    exact (congrArg (·.content.toList) ha).symm

theorem taken {t t' t'' : Telling} {contents : List Node}
    (h : takeContent t = .ok contents t') (h' : updatePinned t' = .ok () t'') :
    Taken contents t t'' := by
  cases h
  obtain ⟨hp, hw⟩ := updatePinned_ok rfl h'
  exact ⟨rfl, hp, hw⟩

/-! ## Sections -/

/-- What goes on without a look at the buffer needs no log. -/
theorem goOn_logs {x : Tell Flow} (h : ∀ ⦃t flow t'⦄, x t = .ok flow t' →
      flow = .goOn ∧ t'.world = t.world ∧ t'.machine = t.machine) :
    Logs (On m) (Goes m) x (do let _ ← x; return true) := by
  intro t flow t' ht hx
  obtain ⟨rfl, -⟩ := h hx
  obtain ⟨_, told, hl, -, rfl, hs⟩ := Logs.lift (fun _ _ _ hx => (h hx).2) ht hx
  exact ⟨true, told, Narration.bind_ok hl, rfl, rfl, hs⟩

theorem act_logs (a : Action) : Logs (On m) (Goes m) (Telling.act a) (Narration.act a) := by
  cases a with
  | goto names =>
    refine goOn_logs fun t flow t' h => ?_
    obtain ⟨_, _, ⟨⟩, h⟩ := of_bind h
    rcases ht : targets t.story names with name | sections <;> rw [ht] at h
    · cases h
    · cases h
      exact ⟨rfl, rfl, rfl⟩
  | exit =>
    refine goOn_logs ?_
    rintro t _ _ ⟨⟩
    exact ⟨rfl, rfl, rfl⟩
  | selection choices =>
    intro t flow t' ht h
    obtain ⟨contents, s, hc, h⟩ := of_bind h
    obtain ⟨_, s', hp, h⟩ := of_bind h
    cases h
    exact ⟨false, t, rfl, rfl, taken hc hp⟩

theorem actOn_logs {otherwise : Value → Tell Flow}
    (h : ∀ v t flow t', otherwise v t ≠ .ok flow t') (v : Value) :
    Logs (On m) (Goes m) (Telling.actOn otherwise v) (Narration.actOn otherwise v) := by
  unfold Telling.actOn
  split
  · exact act_logs _
  · exact .pure fun t ht => ⟨rfl, rfl, ht⟩
  · exact fun t flow t' _ hv => absurd hv (h v t flow t')

include hm in
theorem perform_logs (k : Consequence) :
    Logs (On m) (Goes m) (Telling.perform k) (Narration.perform k) := by
  cases k with
  | act a => exact act_logs a
  | call f creator =>
    exact .bind (.adapt (call_logs hm f)) fun v => actOn_logs (fun _ _ _ _ => by rintro ⟨⟩) v

include hm in
theorem enter_logs (s : Section Nat) :
    Logs (On m) (Goes m) (Telling.enter s) (Narration.enter s) := by
  have visited : ∀ visit, Logs (On m) (Goes m)
      (do
        onWorld (showContents (← get).machine s.contents visit)
        Telling.actOn (fun v => fail (.next v) s.next.location) (← Telling.eval s.next))
      (do
        Narration.part (showContents · s.contents visit)
        Narration.actOn (fun v => fail (.next v) s.next.location)
          (← Narration.part (·.eval s.next))) := fun visit =>
    .bind (contents_logs hm _ _) fun _ => .bind (eval_logs hm _) fun v =>
      actOn_logs (fun _ _ _ _ => by rintro ⟨⟩) v
  have counted : Logs (On m) (Same m) (countVisit s.name) (countVisit s.name) := by
    refine .lift ?_
    rintro t _ _ ⟨⟩
    exact ⟨rfl, rfl⟩
  rcases s with ⟨name, _ | e, next, contents, location⟩
  · exact .bind counted visited
  · exact .bind (eval_logs hm e) fun _ => .bind counted visited

/-! ## Steps -/

/-- The step shows what was in the buffer of `told`. -/
def Shows (s : Step) (_ : Unit) (told t : Telling) : Prop :=
  Taken s.output.content told t

theorem suspend_shows {output : Output} {choices : List Choice} {told t t' : Telling} {s : Step}
    (h : suspend output choices t = .ok s t') (ht : Taken output.content told t) :
    Shows s () told t' := by
  cases h
  exact ⟨ht.contents, ht.pinned, ht.world⟩

theorem finish_logs : Logs (On m) Shows finish (pure ()) := by
  intro t s t' _ h
  obtain ⟨contents, t₁, hc, h⟩ := of_bind h
  obtain ⟨_, t₂, hp, h⟩ := of_bind h
  obtain ⟨hn, hp, he⟩ := taken hc hp
  cases h
  exact ⟨(), t, rfl, hn, hp, he⟩

/-- After a flow, the step goes on or ends. -/
theorem flow_logs {x : Tell Flow} {y : Narration Bool} {k : Flow → Tell Step} {g : Narration Unit}
    (h : Logs P (Goes m) x y) (hg : Logs (On m) Shows (k .goOn) g)
    (hw : ∀ output choices, k (.wait output choices) = suspend output choices) :
    Logs P Shows (x >>= k) (do if ← y then g) := by
  intro t s t' ht hs
  obtain ⟨flow, t₁, hx, hs⟩ := of_bind hs
  obtain ⟨b, told, hy, hq⟩ := h ht hx
  cases flow with
  | goOn =>
    obtain ⟨rfl, rfl, hm⟩ := hq
    obtain ⟨_, told, hn, hq⟩ := hg hm hs
    exact ⟨(), told, (Narration.bind_ok hy).trans hn, hq⟩
  | wait output choices =>
    obtain ⟨rfl, hq⟩ := hq
    rw [hw] at hs
    exact ⟨(), told, Narration.bind_ok hy, suspend_shows hs hq⟩

include hm in
theorem proceed_logs : ∀ turns, Logs (On m) Shows (Telling.proceed turns) (Narration.proceed turns)
  | 0 => .stop
  | n + 1 => by
    have moved : ∀ s pending, Logs (On m) (Same m)
        (modify fun t => { t with pending, last := some s } : Tell Unit)
        (modifyThe Telling fun t => { t with pending, last := some s }) := by
      refine fun s pending => .lift ?_
      rintro t _ _ ⟨⟩
      exact ⟨rfl, rfl⟩
    refine .get_bind fun t _ => ?_
    rcases t.pending with _ | ⟨s, pending⟩
    · exact finish_logs
    · exact .bind (moved s pending) fun _ =>
        flow_logs (.located (enter_logs hm s)) (proceed_logs n) fun _ _ => rfl

include hm in
theorem step_logs {first : Tell Flow} {first' : Narration Bool} (h : Logs P (Goes m) first first') :
    Logs P Shows (Telling.step first) (Narration.step first') :=
  flow_logs (.located h) (.get_bind fun _ _ => proceed_logs hm _) fun _ _ => rfl

/-! ## Calls -/

include hm in
/-- The initial statements need a scope to declare names in. -/
theorem init_logs {t : Telling} (ht : t.On m) (hw : t.world.scopes ≠ []) :
    Logs (· = t) (Goes m) Telling.init Narration.init := by
  refine .get_bind ?_
  rintro t rfl
  refine .bind (part_logs ?_ ?_ ?_) fun _ => .pure fun _ ht => ⟨rfl, rfl, ht⟩
  · rintro t rfl
    exact ht
  · rintro t rfl
    rw [ht]
  · rintro t rfl
    exact hm.statements _ _ hw

end Logs

section Calls

variable {m : Machine} {names : List String} {t : Telling}

/-- A call begins a step, with a narration of it, or does nothing. -/
theorem resume_begins (hm : m.Appends) (ht : t.Stands ⟨False, False⟩ m names) (i : Option Nat) :
    (∃ e, t.resume i = (.error e, t)) ∨ ∃ first first', t.resume i = t.advance first
      ∧ t.begins i = some first' ∧ Logs (· = t) (Goes m) first first' := by
  rw [Stands] at ht
  unfold begins
  cases hs : t.stage with
  | unstarted =>
    rw [hs] at ht
    rw [resume_unstarted hs]
    cases i with
    | some i => exact .inl ⟨_, rfl⟩
    | none =>
      refine .inr ⟨_, _, rfl, rfl, init_logs hm ht.machine fun hw => ?_⟩
      obtain ⟨ns, -, hf⟩ := ht.world
      have ho := hf.outlines
      rw [World.outlines, hw] at ho
      cases ho
  | waiting choices =>
    rw [hs] at ht
    obtain ⟨⟨_, -, ht⟩, -⟩ := ht
    rw [resume_waiting hs]
    cases i with
    | none => exact .inl ⟨_, rfl⟩
    | some i =>
      rcases hk : choices[i]?.bind (·.consequence) with _ | k
      · refine .inl ⟨.invalidChoice i, ?_⟩
        simp only [hk]
      · refine .inr ⟨perform k, Narration.perform k, ?_, ?_, ?_⟩
        · simp only [hk]
        · simp only [hk, Option.map_some]
        · rintro _ _ _ rfl h
          exact perform_logs hm k ht.machine h
  | finished => exact .inl ⟨_, resume_finished hs i⟩

theorem begins_finished (h : t.stage = .finished) (i : Option Nat) : t.begins i = none := by
  unfold begins
  rw [h]

theorem narrate_ok {i : Option Nat} {first : Narration Bool} {log : List Node} {told : Telling}
    (hb : t.begins i = some first) (h : Narration.step first [] t = .ok ((), log) told) :
    t.narrate i = some (log, told) := by
  simp only [narrate, hb, h]

/-- Between two calls, the buffer is empty. Only an error leaves anything in it. -/
def Emptied (t : Telling) : Prop :=
  t.stage ≠ .finished → t.world.content = #[]

/-- What a call shows is narrated of it. The narration starts with an empty log, and so with the
buffer for a log. -/
theorem resume_shows (hm : m.Appends) (ht : t.Stands ⟨False, False⟩ m names) (he : t.Emptied)
    (i : Option Nat) :
    (t.resume i).2.Emptied ∧ ∀ s, (t.resume i).1 = .ok s → ∃ told,
      t.narrate i = some (s.output.content, told) ∧ Shows s () told (t.resume i).2 := by
  obtain ⟨e, hr⟩ | ⟨first, first', hr, hb, hl⟩ := resume_begins hm ht i
  · rw [hr]
    refine ⟨he, ?_⟩
    rintro _ ⟨⟩
  · rw [hr, advance]
    rcases hs : Telling.step first t with ⟨s, t'⟩ | ⟨e, t'⟩
    · obtain ⟨_, told, hn, hq⟩ := step_logs hm hl rfl hs
      have hf : t.stage ≠ .finished := fun hf => by
        rw [begins_finished hf] at hb
        cases hb
      rw [he hf] at hn
      refine ⟨fun _ => congrArg World.content hq.world, ?_⟩
      rintro _ ⟨⟩
      exact ⟨told, hq.contents ▸ narrate_ok hb hn, hq⟩
    · refine ⟨fun hf => absurd rfl hf, ?_⟩
      rintro _ ⟨⟩

theorem run_emptied (hm : m.Appends) (agree : m.Agree ⟨False, False⟩ m) :
    ∀ (is : List (Option Nat)) {t : Telling}, t.Stands ⟨False, False⟩ m names → t.Emptied →
      (t.run is).2.Emptied
  | [], _, _, he => he
  | i :: is, _, ht, he =>
    run_emptied hm agree is (resume_continues agree ht i).2.stands (resume_shows hm ht he i).1

end Calls

theorem contents_shown :
    (∀ n, (Tale.machine n).Appends)
      ∧ ∀ (story : Story Unit) (seed : String) (provider : Provider) (limit : Nat)
          (calls : List (Option Nat)),
        let t := ((ofStory story seed provider limit).run calls).2
        (∀ choices, t.stage = .waiting choices → t.world.content = #[])
          ∧ ∀ i s, (t.resume i).1 = .ok s → ∃ nodes told, t.narrate i = some (nodes, told)
            ∧ s.output.content = nodes ∧ (t.resume i).2.pinned = told.pinnedNodes
            ∧ (t.resume i).2.world = (told.pinnedCall.after told.world.drained).drained := by
  refine ⟨machine_appends, ?_⟩
  intro story seed provider limit calls t
  have hm := machine_appends limit
  have agree := machine_agree_refl ⟨False, False⟩ limit
  have hs := ofStory_stands ⟨False, False⟩ story False.elim seed provider limit
  have he : t.Emptied := run_emptied hm agree calls hs fun _ => rfl
  have ht : t.Stands _ _ _ := (run_continues agree calls hs).2.2.1
  refine ⟨fun choices hw => he ?_, fun i s h => ?_⟩
  · rw [hw]
    rintro ⟨⟩
  · obtain ⟨told, hn, hq⟩ := (resume_shows hm ht he i).2 s h
    exact ⟨_, told, hn, rfl, hq.pinned, hq.world⟩

/-- Pins a function that puts out a paragraph, puts out another one, and a third when the choice it
asks for is taken. -/
def pinning : Story Unit :=
  let e (shape : Shape Unit) : Expr Unit := ⟨shape, none⟩
  let invoke (f : String) (arg : Expr Unit) :=
    e (.binary .invoke (e (.reference f)) (e (.list [.item arg])))
  let paragraph (text : String) := invoke "contentAddParagraph" (e (.string text))
  let function (body : Expr Unit) := e (.function ⟨(), [], none, ["contentAddParagraph"], body⟩)
  let go := e (.choice (e (.string "go")) (function (paragraph "b")))
  ⟨⟨1, 0⟩, [⟨.expression (invoke "readerSetPinned" (function (paragraph "p"))), none⟩],
    [⟨"s", some (paragraph "a"), e (.selection (e (.list [.item go]))), [], none⟩]⟩

theorem contents_shown_pinning :
    let t := ((ofStory pinning "seed" {} 30).run [none]).2
    ∃ s, (t.resume (some 0)).1 = .ok s ∧ s.output.content.length = 1
      ∧ (t.resume (some 0)).2.pinned.length = 1 ∧ ∃ nodes told,
        t.narrate (some 0) = some (nodes, told) ∧ s.output.content = nodes
          ∧ (t.resume (some 0)).2.pinned = told.pinnedNodes
          ∧ (t.resume (some 0)).2.world = (told.pinnedCall.after told.world.drained).drained := by
  have shown := contents_shown.2 pinning "seed" {} 30 [none]
  dsimp only at shown ⊢
  generalize ht : ((ofStory pinning "seed" {} 30).run [none]).2 = t at shown ⊢
  have hc : (t.resume (some 0)).1.toOption.map (·.output.content.length) = some 1 := by
    rw [← ht]
    decide +kernel
  have hp : (t.resume (some 0)).2.pinned.length = 1 := by
    rw [← ht]
    decide +kernel
  obtain ⟨s, hs, hl⟩ := Option.map_eq_some_iff.mp hc
  have ho := eq_ok_of_toOption hs
  exact ⟨s, ho, hl, hp, shown.2 (some 0) s ho⟩

/-- The function that is pinned takes itself back when it is called. -/
def unpinning : String :=
  "WTCD 1.3 declare f=$\x7bcontentAddParagraph::[\"p\"]readerUnsetPinned::[]\x7d"
    ++ "section s readerSetPinned::[f]then exit"

/-- What is pinned can be the output of a function that is pinned no longer. -/
theorem pinned_outlasting : ¬ ∀ (source : String) (story : Story Unit),
    Document.parse {} source = .ok story →
      ∀ (calls : List (Option Nat)) (i : Option Nat) (s : Step),
      let t := ((ofStory story "seed").run calls).2
      (t.resume i).1 = .ok s → (t.resume i).2.world.pinned = none → (t.resume i).2.pinned = [] := by
  intro h
  have ht : (Document.parse {} unpinning).toOption.any (fun story =>
      let r := ((ofStory story "seed").run []).2.resume none
      r.1.toOption.isSome && r.2.world.pinned.isNone && !r.2.pinned.isEmpty) = true := by
    rw [Document.parse_eq_ofChars]
    decide +kernel
  obtain ⟨story, hs, ht⟩ := (Option.any_eq_true _ _).mp ht
  simp only [Bool.and_eq_true, Option.isNone_iff_eq_none] at ht
  obtain ⟨⟨ho, hn⟩, hp⟩ := ht
  obtain ⟨s, ho⟩ := Option.isSome_iff_exists.mp ho
  rw [h unpinning story (eq_ok_of_toOption hs) [] none s (eq_ok_of_toOption ho) hn] at hp
  cases hp

end Telling

end Tale
