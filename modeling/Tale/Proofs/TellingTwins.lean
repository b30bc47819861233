import Tale.Proofs.EvaluationTwins
import Tale.Proofs.Runs

/-!
# Tellings side by side

A story and the same story moved to other places are told alike: each part of a step keeps the two
tellings alike, and so does a row of calls (`run_twins`). Where the tellings do not draw alike, a
section may have one variant of its contents at most, so that there is nothing to draw from.
-/

namespace Tale

variable {K : Kin} {α β : Type}

namespace Kin

variable (K : Kin)

/-- A section that can be entered in both tellings alike. -/
structure Sections (s : Section Nat) : Prop where
  named : ∀ x ∈ s.references, K.Named x
  contents : K.chance ∨ s.contents.length ≤ 1

inductive Stages : Stage → Stage → Prop
  | unstarted : Stages .unstarted .unstarted
  | waiting {cs cs' : List Choice} (h : ChoicesAkin K cs cs') : Stages (.waiting cs) (.waiting cs')
  | finished : Stages .finished .finished

structure Tellings (t t' : Telling) : Prop where
  story : t'.story = t.story.relocate K.place
  init : ∀ x ∈ referencesInStatements t.story.init, K.Named x
  sections : ∀ s ∈ t.story.sections, K.Sections s
  world : K.Worlds t.world t'.world
  pending : t'.pending = t.pending.map (Section.relocate K.place)
  enterable : ∀ s ∈ t.pending, K.Sections s
  visits : t'.visits = t.visits
  last : t'.last = t.last.map (Section.relocate K.place)
  pinned : t'.pinned = t.pinned
  stage : K.Stages t.stage t'.stage
  machine : t'.machine = t.machine
  drives : K.Drives t.machine

inductive Flows : Telling.Flow → Telling.Flow → Prop
  | goOn : Flows .goOn .goOn
  | wait (output : Output) {cs cs' : List Choice} (h : ChoicesAkin K cs cs') :
      Flows (.wait output cs) (.wait output cs')

/-- Twin computations on tellings. -/
def Tells (R : CallError → Prop) (V : α → α → Prop) (x y : Telling.Tell α) : Prop :=
  Twins K.Tellings (K.Stops R) V x y

/-- Errors that are alike. -/
inductive Errors : StepError → StepError → Prop
  | fault {f f' : Fault} (h : K.Faults f f') : Errors (.fault f) (.fault f')
  | invalidChoice (i : Nat) : Errors (.invalidChoice i) (.invalidChoice i)
  | choiceRequired : Errors .choiceRequired .choiceRequired
  | finished : Errors .finished .finished
  | exhausted : Errors .exhausted .exhausted

end Kin

namespace Telling

/-! ## Parts of a step -/

theorem onWorld_twins {R : CallError → Prop} {V : α → α → Prop} {x y : Run α}
    (h : K.Runs R V x y) : K.Tells R V (onWorld x) (onWorld y) := by
  intro t t' ht
  have hxy := h ht.world
  simp only [onWorld]
  generalize x t.world = o, y t'.world = o' at hxy
  cases hxy with
  | ok value state => exact .ok value { ht with world := state }
  | error stop state => exact .error stop { ht with world := state }

theorem eval_twins {e : Expr Nat} (h : ∀ x ∈ e.references, K.Named x) :
    K.Tells Unrefused (Value.Akin K) (eval e) (eval (e.relocate K.place)) := by
  refine Twins.get_bind fun t t' ht => ?_
  rw [ht.machine]
  exact onWorld_twins (ht.drives.eval e h)

theorem call_twins {f f' : Function} (hf : f.Akin K f') :
    K.Tells f.Refuses (Value.Akin K) (call f) (call f') := by
  refine Twins.get_bind fun t t' ht => ?_
  rw [ht.machine]
  exact onWorld_twins (ht.drives.call hf .nil)

theorem adapt_twins {R R' : CallError → Prop} {V : α → α → Prop} {f g : Stop → Stop}
    {x y : Tell α} (hf : ∀ e e', K.Stops R e e' → K.Stops R' (f e) (g e'))
    (h : K.Tells R V x y) : K.Tells R' V (adapt f x) (adapt g y) := by
  intro t t' ht
  have hxy := h ht
  simp only [adapt]
  generalize x t = o, y t' = o' at hxy
  cases hxy with
  | ok value state => exact .ok value state
  | error stop state => exact .error (hf _ _ stop) state

theorem takeContent_twins {R : CallError → Prop} : K.Tells R Eq takeContent takeContent := by
  refine Twins.get_bind fun t t' ht => ?_
  rw [ht.world.content]
  refine Twins.bind (Twins.modify fun t t' ht => ?_) fun _ _ _ => Twins.pure rfl
  exact { ht with world := { ht.world with content := rfl } }

theorem updatePinned_twins : K.Tells Unrefused (fun _ _ => True) updatePinned updatePinned := by
  refine Twins.get_bind fun t t' ht => ?_
  have hp := ht.world.pinned
  generalize t.world.pinned = f, t'.world.pinned = f' at hp
  cases hp with
  | none => exact Twins.modify fun t t' ht => { ht with pinned := rfl }
  | @some f f' hf =>
    refine Twins.bind (adapt_twins (fun e e' he => ?_) (call_twins hf)) fun _ _ _ =>
      Twins.bind takeContent_twins fun nodes nodes' hn =>
        Twins.modify fun t t' ht => { ht with pinned := hn.symm }
    cases he with
    | fault h => exact .fault (h.through (congrArg (_ ++ · ++ _) hf.describe))
    | signal s => exact .signal s
    | refused _ text =>
      exact .fault (Kin.Causes.unplaced
        ⟨rfl, congrArg₂ (_ ++ · ++ _ ++ ·) hf.describe text, rfl, rfl⟩)
    | exhausted => exact .exhausted

theorem section?_relocate (σ : Option Location → Option Location) (story : Story Nat)
    (name : String) :
    (story.relocate σ).section? name = (story.section? name).map (Section.relocate σ) := by
  simp only [Story.section?, Story.relocate, List.find?_map]
  rfl

theorem targets_relocate (σ : Option Location → Option Location) (story : Story Nat) :
    ∀ names : List String,
      targets (story.relocate σ) names = (targets story names).map (List.map (Section.relocate σ))
  | [] => rfl
  | name :: names => by
    rw [targets, targets, targets_relocate σ story names, section?_relocate]
    rcases targets story names with e | ss
    · rfl
    · rcases story.section? name with _ | s
      · rfl
      · rfl

theorem mem_of_targets {story : Story Nat} : ∀ {names : List String} {ss : List (Section Nat)},
    targets story names = .ok ss → ss ⊆ story.sections
  | [], _, h => by
    cases h
    exact List.nil_subset _
  | name :: names, ss, h => by
    rw [targets] at h
    rcases hr : targets story names with e | rest <;> rw [hr] at h
    · cases h
    · rcases hs : story.section? name with _ | s <;> simp only [hs] at h
      · cases h
      · cases h
        exact List.cons_subset.mpr ⟨List.mem_of_find?_eq_some hs, mem_of_targets hr⟩

/-- The choices look the same to the reader. -/
theorem offers_twins {cs cs' : List Choice} (h : ChoicesAkin K cs cs') :
    cs'.map Choice.offer = cs.map Choice.offer := by
  have offer {c c' : Choice} (h : c.Akin K c') : c'.offer = c.offer := by
    cases h with
    | disabled text => rfl
    | enabled text h => rfl
  induction choicesAkin_iff.mp h with
  | nil => rfl
  | cons hc hcs ih => rw [List.map_cons, List.map_cons, offer hc, ih (choicesAkin_iff.mpr hcs)]

theorem act_twins {a a' : Action} (h : a.Akin K a') :
    K.Tells Unrefused K.Flows (act a) (act a') := by
  cases h with
  | goto names =>
    refine Twins.get_bind fun t t' ht => ?_
    rw [ht.story, targets_relocate]
    rcases hs : targets t.story names with name | ss
    · exact Twins.throw (.fault (Kin.Causes.unplaced ⟨rfl, rfl, rfl, rfl⟩))
    · have hk : ∀ s ∈ ss, K.Sections s := fun s hm => ht.sections s (mem_of_targets hs hm)
      refine Twins.bind (Twins.modify fun t t' ht => ?_) fun _ _ _ => Twins.pure .goOn
      refine { ht with pending := ?_, enterable := List.forall_mem_append.mpr ⟨hk, ht.enterable⟩ }
      simp only [ht.pending, List.map_append]
  | exit =>
    exact Twins.bind (Twins.modify fun t t' ht => { ht with pending := rfl, enterable := nofun })
      fun _ _ _ => Twins.pure .goOn
  | @selection cs cs' h =>
    refine Twins.bind takeContent_twins fun content _ hc =>
      Twins.bind updatePinned_twins fun _ _ _ => ?_
    subst hc
    rw [offers_twins h]
    exact Twins.pure (.wait _ h)

theorem actOn_twins {otherwise otherwise' : Value → Tell Flow}
    (ho : ∀ v v', v.Akin K v' → K.Tells Unrefused K.Flows (otherwise v) (otherwise' v'))
    {v v' : Value} (hv : v.Akin K v') :
    K.Tells Unrefused K.Flows (actOn otherwise v) (actOn otherwise' v') := by
  have rest := ho v v' hv
  cases hv with
  | action h => exact act_twins h
  | null => exact Twins.pure .goOn
  | _ => exact rest

theorem fail_twins {R : CallError → Prop} {V : α → α → Prop} {cause cause' : Fault.Cause}
    {location : Option Location} (h : Kin.Causes cause cause') :
    K.Tells R V (fail cause location) (fail cause' (K.place location)) :=
  Twins.throw (.fault ⟨h, rfl, .nil⟩)

theorem perform_twins {k k' : Consequence} (h : k.Akin K k') :
    K.Tells Unrefused K.Flows (perform k) (perform k') := by
  cases h with
  | act h => exact act_twins h
  | call hf creator =>
    refine Twins.bind (adapt_twins (fun e e' he => ?_) (call_twins hf)) fun _ _ =>
      actOn_twins fun v v' hv => ?_
    · cases he with
      | fault h => exact .fault (h.passing rfl creator)
      | signal s => exact .signal s
      | refused _ text =>
        exact .fault ⟨⟨rfl, congrArg (_ ++ ·) text, rfl, rfl⟩, rfl, .nil⟩
      | exhausted => exact .exhausted
    · exact fail_twins ⟨rfl, congrArg (_ ++ ·) hv.describe, rfl, rfl⟩

/-! ## Sections -/

section Contents

variable {m : Machine} (hm : K.Drives m)

include hm in
theorem fillSpans_twins : ∀ (ps : List Document.Placeholder) (html : List Char),
    K.Runs Unrefused Eq (fillSpans m ps html) (fillSpans m ps html)
  | [], _ => .pure rfl
  | p :: ps, html => by
    refine .bind (hm.resolve p.variableName) ?_
    rintro _ a ⟨rfl, -⟩
    refine .bind (.read a) fun v v' hv => ?_
    rw [hv.display]
    exact fillSpans_twins ps _

include hm in
/-- Which of the contents is drawn is the same in both tellings if they draw alike, or if there is
nothing to draw from. -/
theorem showContents_twins {contents : List Content} {visit : Nat}
    (h : K.chance ∨ contents.length ≤ 1) : K.Runs Unrefused (fun _ _ => True)
      (showContents m contents visit) (showContents m contents visit) := by
  have shown (content : Content) : K.Runs Unrefused (fun _ _ => True)
      (do
        let html ← fillSpans m content.placeholders content.html.toList
        if !(Text.trim html).isEmpty then
          modify (·.emit (.html (String.ofList html))))
      (do
        let html ← fillSpans m content.placeholders content.html.toList
        if !(Text.trim html).isEmpty then
          modify (·.emit (.html (String.ofList html)))) := by
    refine .bind (fillSpans_twins hm _ _) ?_
    rintro html _ rfl
    split
    · exact .modify fun w w' hw => hw.emit _
    · exact .pure trivial
  simp only [showContents]
  generalize he : contents.filter (·.bounds.admits visit) = eligible
  split
  · refine .get_bind fun w w' hw => ?_
    have hi : (w'.random.index eligible.length).1 = (w.random.index eligible.length).1 := by
      rcases h with h | h
      · rw [hw.random h]
      · have hl : eligible.length ≤ 1 := he ▸ Nat.le_trans (List.length_filter_le _ _) h
        simp only [Random.index, Nat.sub_eq_zero_of_le hl, Nat.min_zero]
    simp only [hi]
    refine .bind (.modify fun w₁ w₁' hw₁ => { hw₁ with random := fun hc => ?_ }) fun _ _ _ =>
      shown _
    rw [hw.random hc]
  · exact .pure trivial

end Contents

theorem countVisit_twins {R : CallError → Prop} (name : String) :
    K.Tells R Eq (countVisit name) (countVisit name) := by
  refine Twins.get_bind fun t t' ht => ?_
  rw [ht.visits]
  exact Twins.bind (Twins.modify fun t t' ht => { ht with visits := rfl }) fun _ _ _ =>
    Twins.pure rfl

theorem enter_twins {s : Section Nat} (h : K.Sections s) :
    K.Tells Unrefused K.Flows (enter s) (enter (s.relocate K.place)) := by
  obtain ⟨name, executes, next, contents, location⟩ := s
  have hn := h.named
  rw [Section.references, List.forall_mem_append] at hn
  have rest : K.Tells Unrefused K.Flows
      (do
        let visit ← countVisit name
        onWorld (showContents (← get).machine contents visit)
        let v ← eval next
        actOn (fun v => fail (.next v) next.location) v)
      (do
        let visit ← countVisit name
        onWorld (showContents (← get).machine contents visit)
        let v ← eval (next.relocate K.place)
        actOn (fun v => fail (.next v) (next.relocate K.place).location) v) := by
    refine Twins.bind (countVisit_twins name) ?_
    rintro visit _ rfl
    refine Twins.get_bind fun t t' ht => ?_
    rw [ht.machine]
    refine Twins.bind (onWorld_twins (showContents_twins ht.drives h.contents)) fun _ _ _ =>
      Twins.bind (eval_twins hn.2) fun _ _ => actOn_twins fun v v' hv => ?_
    obtain ⟨shape, place⟩ := next
    exact fail_twins ⟨rfl, congrArg (_ ++ ·) hv.describe, rfl, rfl⟩
  rcases executes with _ | e
  · exact rest
  · exact Twins.bind (eval_twins hn.1) fun _ _ _ => rest

/-! ## Steps -/

theorem locate_twins {t t' : Telling} (ht : K.Tellings t t') {e e' : Stop}
    (h : K.Stops Unrefused e e') : K.Stops Unrefused (t.locate e) (t'.locate e') := by
  cases h with
  | fault h =>
    simp only [locate, locate.passing, ht.last]
    rcases t.last with _ | s
    · exact .fault (h.through rfl)
    · exact .fault (h.passing (p := .section s.name) rfl s.location)
  | signal s => exact .signal s
  | refused h _ => exact h.elim
  | exhausted => exact .exhausted

theorem located_twins {V : α → α → Prop} {x y : Tell α} (h : K.Tells Unrefused V x y) :
    K.Tells Unrefused V (located x) (located y) := by
  intro t t' ht
  have hxy := h ht
  simp only [located]
  generalize x t = o, y t' = o' at hxy
  cases hxy with
  | ok value state => exact .ok value state
  | error stop state => exact .error (locate_twins state stop) state

theorem finish_twins : K.Tells Unrefused Eq finish finish := by
  refine Twins.bind takeContent_twins fun content _ hc => Twins.bind updatePinned_twins fun _ _ _ =>
    Twins.bind (Twins.modify fun _ _ ht => { ht with stage := .finished }) fun _ _ _ => ?_
  rw [hc]
  exact Twins.pure rfl

theorem suspend_twins {output : Output} {cs cs' : List Choice} (h : ChoicesAkin K cs cs') :
    K.Tells Unrefused Eq (suspend output cs) (suspend output cs') :=
  Twins.bind (Twins.modify fun _ _ ht => { ht with stage := .waiting h }) fun _ _ _ =>
    Twins.pure rfl

theorem proceed_twins : ∀ turns : Nat, K.Tells Unrefused Eq (proceed turns) (proceed turns)
  | 0 => Twins.throw .exhausted
  | n + 1 => by
    refine Twins.get_bind fun t t' ht => ?_
    have he := ht.enterable
    rw [ht.pending]
    generalize t.pending = sections at he
    rcases sections with _ | ⟨s, pending⟩
    · exact finish_twins
    · rw [List.forall_mem_cons] at he
      refine Twins.bind (Twins.modify fun t t' ht => ?_) fun _ _ _ =>
        Twins.bind (located_twins (enter_twins he.1)) fun flow flow' hf => ?_
      · exact { ht with pending := rfl, enterable := he.2, last := rfl }
      · cases hf with
        | goOn => exact proceed_twins n
        | wait output h => exact suspend_twins h

theorem step_twins {first first' : Tell Flow} (h : K.Tells Unrefused K.Flows first first') :
    K.Tells Unrefused Eq (step first) (step first') := by
  refine Twins.bind (located_twins h) fun flow flow' hf => ?_
  cases hf with
  | goOn =>
    refine Twins.get_bind fun t t' ht => ?_
    rw [ht.machine]
    exact proceed_twins t.machine.turns
  | wait output h => exact suspend_twins h

theorem init_twins : K.Tells Unrefused K.Flows init init := by
  refine Twins.get_bind fun t t' ht => ?_
  rw [ht.machine, ht.story]
  exact Twins.bind (onWorld_twins (Evaluation.statements_twins ht.drives t.story.init ht.init))
    fun _ _ _ => Twins.pure .goOn

/-! ## Calls -/

section Calls

variable {t t' : Telling}

theorem advance_twins (ht : K.Tellings t t') {first first' : Tell Flow}
    (h : K.Tells Unrefused K.Flows first first') :
    Concur K.Errors Eq (t.advance first).1 (t'.advance first').1
      ∧ K.Tellings (t.advance first).2 (t'.advance first').2 := by
  have hs := step_twins h ht
  simp only [advance]
  generalize step first t = o, step first' t' = o' at hs
  cases hs with
  | ok value state => exact ⟨.ok value, state⟩
  | error stop state =>
    refine ⟨.error ?_, { state with stage := .finished }⟩
    cases stop with
    | fault h => exact .fault h
    | signal s => exact .fault (Kin.Causes.unplaced ⟨rfl, rfl, rfl, rfl⟩)
    | refused h _ => exact h.elim
    | exhausted => exact .exhausted

theorem resume_twins (ht : K.Tellings t t') (choice : Option Nat) :
    Concur K.Errors Eq (t.resume choice).1 (t'.resume choice).1
      ∧ K.Tellings (t.resume choice).2 (t'.resume choice).2 := by
  have hs := ht.stage
  simp only [resume]
  generalize t.stage = stage, t'.stage = stage' at hs
  cases hs with
  | unstarted =>
    rcases choice with _ | i
    · exact advance_twins ht init_twins
    · exact ⟨.error (.invalidChoice i), ht⟩
  | @waiting cs cs' h =>
    rcases choice with _ | i
    · exact ⟨.error .choiceRequired, ht⟩
    · have hc := forall₂_getElem? (choicesAkin_iff.mp h) i
      simp only []
      generalize cs[i]? = c, cs'[i]? = c' at hc
      cases hc with
      | none => exact ⟨.error (.invalidChoice i), ht⟩
      | some hc =>
        cases hc with
        | disabled text => exact ⟨.error (.invalidChoice i), ht⟩
        | enabled text hk => exact advance_twins ht (perform_twins hk)
  | finished => exact ⟨.error .finished, ht⟩

theorem run_twins : ∀ (calls : List (Option Nat)) {t t' : Telling}, K.Tellings t t' →
    List.Forall₂ (Concur K.Errors Eq) (t.run calls).1 (t'.run calls).1
      ∧ K.Tellings (t.run calls).2 (t'.run calls).2
  | [], _, _, ht => ⟨.nil, ht⟩
  | choice :: calls, _, _, ht => by
    have hr := resume_twins ht choice
    have hrest := run_twins calls hr.2
    exact ⟨.cons hr.1 hrest.1, hrest.2⟩

end Calls

end Telling

/-! ## Where tellings begin -/

/-- The names of functions that draw are the only ones that must not be used. -/
theorem World.initial_twins {random random' : Random} (h : K.chance → random' = random)
    (provider : Provider) : K.Worlds (.initial random provider) (.initial random' provider) where
  size := rfl
  fresh a ha n hn := by
    obtain ⟨hl, -⟩ := List.getElem?_eq_some_iff.mp hn
    simp only [World.initial, List.size_toArray, List.length_map] at ha
    exact absurd hl (Nat.not_lt.mpr ha)
  cells a := by
    simp only [World.initial, List.getElem?_toArray, List.getElem?_map]
    rcases hf : Native.all[a]? with _ | f
    · exact .none
    · exact .some ⟨rfl, rfl, fun ho => .function (.native f (ho f hf))⟩
  scopes := by
    refine .cons ⟨rfl, .nil, .none⟩ (.cons ⟨rfl, ?_, .none⟩ .nil)
    intro p hp hn f hf
    obtain ⟨⟨g, a⟩, hg, rfl⟩ := List.mem_map.mp hp
    have ha : Native.all[a]? = some g := List.mk_mem_zipIdx_iff_getElem?.mp hg
    rw [ha] at hf
    exact Option.some.inj hf ▸ hn g rfl
  random h' := h h'
  content := rfl
  pinned := .none
  stateText := rfl
  timers := rfl
  canvases := rfl
  provider := rfl

/-- The sections of a story keep their references and contents when its functions are numbered. -/
theorem labelled_sections {story : Story Unit} (hn : ∀ x ∈ story.references, K.Named x)
    (hc : K.chance ∨ ∀ s ∈ story.sections, s.contents.length ≤ 1) :
    ∀ s ∈ story.labelled.sections, K.Sections s := by
  intro s hs
  rw [← story.labelled_references] at hn
  refine ⟨fun x hx => hn x (List.mem_append_right _ (List.mem_flatMap.mpr ⟨s, hs, hx⟩)), ?_⟩
  rcases hc with hc | hc
  · exact .inl hc
  · have hk : story.labelled.sections.map (·.contents) = story.sections.map (·.contents) :=
      (labelSections_relocate id _ story.sections).2.2
    obtain ⟨s', hs', he⟩ := List.mem_map.mp (hk ▸ List.mem_map_of_mem hs)
    exact .inr (he ▸ hc s' hs')

namespace Telling

theorem ofStory_twins (story : Story Unit) (hn : ∀ x ∈ story.references, K.Named x)
    (hc : K.chance ∨ ∀ s ∈ story.sections, s.contents.length ≤ 1) (seed seed' : String)
    (hs : K.chance → seed' = seed) (provider : Provider) (limit : Nat) :
    K.Tellings (ofStory story seed provider limit)
      (ofStory (story.relocate K.place) seed' provider limit) where
  story := story.labelled_relocate K.place
  init x hx := hn x (story.labelled_references ▸ List.mem_append_left _ hx)
  sections := labelled_sections hn hc
  world := World.initial_twins (fun h => by rw [hs h]) provider
  pending := by
    rw [ofStory, ofStory, story.labelled_relocate, Story.relocate, List.head?_map]
    exact Option.toList_map
  enterable s hs := labelled_sections hn hc s (List.mem_of_mem_head? (Option.mem_toList.mp hs))
  visits := rfl
  last := rfl
  pinned := rfl
  stage := .unstarted
  machine := rfl
  drives := machine_drives K limit

end Telling

/-! ## What is told of an error -/

/-- A fault that happened at other places. -/
def Fault.relocate (σ : Option Location → Option Location) (f : Fault) : Fault :=
  ⟨f.cause, σ f.location, f.trail.map fun e => ⟨e.passage, σ e.location⟩⟩

namespace StepError

def relocate (σ : Option Location → Option Location) : StepError → StepError
  | fault f => fault (f.relocate σ)
  | e => e

theorem relocate_id (e : StepError) : e.relocate id = e := by
  cases e with
  | fault f =>
    have ht : f.trail.map (fun e => (⟨e.passage, id e.location⟩ : Fault.Entry)) = f.trail :=
      List.map_id _
    rw [relocate, Fault.relocate, ht, id]
  | _ => rfl

/-- All that a host can read off an error: its kind, its message, where it happened and the lines
of its trail. -/
structure Report where
  code : String
  message : String
  location : Option Location
  stack : List String

def report : StepError → Report
  | fault f => ⟨f.code, f.message, f.location, f.trailLines⟩
  | e => ⟨e.code, e.message, none, []⟩

end StepError

theorem Kin.Faults.report {f f' : Fault} (h : K.Faults f f') :
    (StepError.fault f').report = (StepError.fault (f.relocate K.place)).report := by
  have stack : f'.trailLines = (f.relocate K.place).trailLines := by
    have ht := h.trail
    simp only [Fault.trailLines, Fault.relocate, List.map_map]
    generalize f.trail = trail, f'.trail = trail' at ht
    induction ht with
    | nil => rfl
    | @cons e e' _ _ he _ ih =>
      have hl : e'.text = Fault.Entry.text ⟨e.passage, K.place e.location⟩ := by
        rw [Fault.Entry.text, Fault.Entry.text, he.text, he.location]
      rw [List.map_cons, List.map_cons, ih, hl]
      rfl
  have message : f'.message = (f.relocate K.place).message := by
    rw [Fault.message, Fault.message, h.cause.text, h.cause.isPlaced, h.location]
    rfl
  have code : f'.code = (f.relocate K.place).code := h.cause.code
  simp only [StepError.report, code, message, stack, h.location]
  rfl

theorem Kin.Errors.report {e e' : StepError} (h : K.Errors e e') :
    e'.report = (e.relocate K.place).report := by
  cases h with
  | fault h => exact h.report
  | _ => rfl

/-- Answers that are alike tell the host the same, but for the places. -/
theorem answers_report {as as' : List (Except StepError Step)}
    (h : List.Forall₂ (Concur K.Errors Eq) as as') :
    as'.map (Except.mapError StepError.report)
      = as.map (Except.mapError fun e => (e.relocate K.place).report) := by
  induction h with
  | nil => rfl
  | cons ha _ ih =>
    rw [List.map_cons, List.map_cons, ih]
    cases ha with
    | ok hs => rw [hs]; rfl
    | error he => exact congrArg (· :: _) (congrArg Except.error he.report)

theorem Kin.Tellings.isFinished {t t' : Telling} (h : K.Tellings t t') :
    t'.isFinished = t.isFinished := by
  have hs := h.stage
  simp only [Telling.isFinished]
  generalize t.stage = stage, t'.stage = stage' at hs
  cases hs <;> rfl

end Tale
