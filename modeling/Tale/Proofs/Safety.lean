import Tale.Proofs.Runs

/-!
# What no run of a story breaks

Three things hold throughout every run. In a story that was read from a document, every name that
is looked up is found, and while a function is called it is found without going out to the scopes
of the caller (`lookups_found`). In any story, each cell keeps its bound and holds a value of a
type it takes (`cells_typed`), and whatever is evaluated leaves the scopes behind as it found them
(`evaluation_keeps_scopes`).

That something holds of all lookups, or of all states on the way, is said by exchanging the
machine: for one that looks names up only where they have to be found, or for one that checks the
cells before and after each evaluation. No run can tell such a machine from the usual one.
-/

namespace Tale

/-! ## Names -/

/-- Looks up, of any name, the cell that the scopes of the innermost call map it to. It may do
anything where they map it to none: go on with a wrong cell, stop, or spoil the world. -/
def Faithful (resolve : String → Run Address) : Prop :=
  ∀ (name : String) (w : World) (a : Address),
    (callScopes w.scopes).findSome? (·.address? name) = some a → resolve name w = .ok a w

theorem findSome?_of_callScopes {α : Type} {f : Scope → Option α} {a : α} : ∀ {ss : List Scope},
    (callScopes ss).findSome? f = some a → ss.findSome? f = some a
  | [], h => h
  | s :: ss, h => by
    rw [callScopes] at h
    rw [List.findSome?_cons]
    rcases hs : f s with _ | b
    · split at h
      · simp [hs] at h
      · rw [List.findSome?_cons, hs] at h
        exact findSome?_of_callScopes h
    · split at h <;> simpa [hs] using h

theorem Run.resolve_ok {name : String} {w : World} {a : Address} (h : w.address? name = some a) :
    Run.resolve name w = .ok a w := by
  have hw : (get : Run World) w = .ok w w := rfl
  simp only [Run.resolve, Bind.bind, EStateM.bind, hw, h]
  rfl

theorem resolve_faithful : Faithful Run.resolve :=
  fun _ _ _ h => Run.resolve_ok (findSome?_of_callScopes h)

theorem faithful_keeps {c : Care} {os : List Outline} {resolve : String → Run Address}
    (h : Faithful resolve) {name : String} (hn : name ∈ reach os) :
    Keeps c os (fun _ => True) (resolve name) (Run.resolve name) := by
  intro w hw
  have hr : name ∈ reach (w.scopes.map Scope.outline) := by
    rw [← World.outlines, hw.outlines]
    exact hn
  obtain ⟨a, hc, -⟩ := address?_of_mem_reach hr
  rw [h name w a hc, resolve_faithful name w a hc]
  exact ⟨rfl, .refl w, trivial, hw⟩

theorem lookups_found {options : Document.Options} {source : String} {story : Story Unit}
    (h : Document.parse options source = .ok story) (seed : String) (provider : Provider)
    (limit : Nat) (calls : List (Option Nat)) :
    let t := Telling.ofStory story seed provider limit
    (∀ f name, .error (.fault f) ∈ (t.run calls).1 → f.cause ≠ .unknownVariable name)
      ∧ ∀ resolve, Faithful resolve →
        let m := machine limit resolve
        (t.withMachine m).run calls = ((t.run calls).1, (t.run calls).2.withMachine m) := by
  intro t
  have hs := Telling.ofStory_stands ⟨False, True⟩ story (fun _ => Document.parse_closed h) seed
    provider limit
  have agree : ∀ resolve, Faithful resolve →
      (machine limit resolve).Agree ⟨False, True⟩ (machine limit) := fun resolve hr =>
    machine_agree (fun _ _ hn => faithful_keeps hr (hn trivial)) limit
  refine ⟨fun f name hf => ?_, fun resolve hr => ?_⟩
  · exact (Telling.run_continues (agree _ resolve_faithful) calls hs).2.2.2 _ hf trivial name
  · exact (Telling.run_continues (agree _ hr) calls hs).1

/-- A document with a function that captures a name and uses it in a default. -/
def capturing : String :=
  "WTCD 1.1 declare[x=1 f=function[y=x][x y]]section s f::[]then null"

theorem lookups_found_capturing : ∃ story, Document.parse {} capturing = .ok story ∧ ∀ calls,
    let t := Telling.ofStory story "seed"
    (∀ f name, .error (.fault f) ∈ (t.run calls).1 → f.cause ≠ .unknownVariable name)
      ∧ ∀ resolve, Faithful resolve →
        let m := machine Telling.defaultLimit resolve
        (t.withMachine m).run calls = ((t.run calls).1, (t.run calls).2.withMachine m) := by
  have hp : (Document.parse {} capturing).toOption.isSome = true := by
    rw [Document.parse_eq_ofChars]
    decide +kernel
  rcases h : Document.parse {} capturing with e | story
  · rw [h] at hp
    cases hp
  · exact ⟨story, rfl, fun calls => lookups_found h "seed" {} _ calls⟩

/-! ## Cells -/

theorem World.typed_iff {w : World} :
    w.Typed ↔ ∀ x ∈ w.cells.toList, x.bound.accepts x.value.type = true := by
  refine ⟨fun h x hx => ?_, fun h a x hx => h x ?_⟩
  · obtain ⟨a, ha⟩ := List.mem_iff_getElem?.mp hx
    exact h a x (by rwa [Array.getElem?_toList] at ha)
  · rw [← Array.getElem?_toList] at hx
    exact List.mem_of_getElem? hx

instance (w : World) : Decidable w.Typed :=
  decidable_of_iff _ World.typed_iff.symm

theorem World.grows_iff {w w' : World} : w.Grows w' ↔
    ∀ a < w.cells.size, w'.cells[a]?.map (·.bound) = w.cells[a]?.map (·.bound) := by
  refine ⟨fun h a ha => ?_, fun h a x hx => ?_⟩
  · obtain ⟨x, hx⟩ : ∃ x, w.cells[a]? = some x := ⟨_, Array.getElem?_eq_getElem ha⟩
    obtain ⟨x', hx', hb⟩ := h a x hx
    rw [hx, hx', Option.map_some, Option.map_some, hb]
  · have ha : a < w.cells.size := (Array.getElem?_eq_some_iff.mp hx).1
    have := h a ha
    rw [hx, Option.map_some, Option.map_eq_some_iff] at this
    exact this

instance (w w' : World) : Decidable (w.Grows w') :=
  decidable_of_iff _ World.grows_iff.symm

/-- The world a computation leaves, be it with a value or not. -/
def Run.after {α : Type} (x : Run α) (w : World) : World :=
  match x w with
  | .ok _ w' => w'
  | .error _ w' => w'

theorem Keeps.after {α : Type} {c : Care} {os : List Outline} {V : α → Prop} {x y : Run α}
    {w : World} (h : Keeps c os V x y) (hw : w.Fit c os) :
    w.Grows (y.after w) ∧ (y.after w).Fit c os := by
  obtain ⟨-, he⟩ := h w hw
  rw [Run.after]
  rcases hy : y w with ⟨v, w'⟩ | ⟨e, w'⟩ <;> rw [hy] at he
  · exact ⟨he.1.1, he.2.2⟩
  · exact ⟨he.1.1, he.2.2⟩

/-- Does what a computation does, with a look at the cells before and after it. An alarm is set
off if one holds a value of a type it does not take, is gone, or has another bound than before. -/
def Run.watched (alarm x : Run Value) : Run Value := fun w =>
  if w.Typed then
    match x w with
    | .ok v w' => if w'.Typed ∧ w.Grows w' then .ok v w' else alarm w'
    | .error e w' => if w'.Typed ∧ w.Grows w' then .error e w' else alarm w'
  else alarm w

/-- The machine of a limit, with a watch on every evaluation and every call within it. -/
def watchedMachine (alarm : Run Value) : (n : Nat) → Machine
  | 0 => machine 0
  | n + 1 =>
    let m := watchedMachine alarm n
    { turns := n + 1
      resolve := Run.resolve
      eval e := Run.watched alarm (Evaluation.expression m e)
      call f args := Run.watched alarm (Evaluation.call m f args) }

theorem watched_keeps {c : Care} (hc : c.typed) {os : List Outline} {V : Value → Prop}
    {alarm x y : Run Value} (h : Keeps c os V x y) : Keeps c os V (Run.watched alarm x) y := by
  intro w hw
  obtain ⟨hxy, he⟩ := h w hw
  refine ⟨?_, he⟩
  rw [Run.watched, if_pos (hw.typed hc), hxy]
  rcases hy : y w with ⟨v, w'⟩ | ⟨e, w'⟩ <;> rw [hy] at he
  · exact if_pos ⟨he.2.2.typed hc, he.1.1⟩
  · exact if_pos ⟨he.2.2.typed hc, he.1.1⟩

theorem watchedMachine_agree {c : Care} (hc : c.typed) (alarm : Run Value) :
    ∀ n, (watchedMachine alarm n).Agree c (machine n)
  | 0 => machine_agree_refl c 0
  | n + 1 =>
    have hm := watchedMachine_agree hc alarm n
    ⟨rfl, fun _ _ => resolve_keeps,
      fun _ _ he => watched_keeps hc (Evaluation.expression_keeps hm he),
      fun _ _ _ hf ha => watched_keeps hc (Evaluation.call_keeps hm ha hf)⟩

theorem cells_typed :
    (∀ n e (w : World), w.Typed →
        ((eval Run.resolve n e).after w).Typed ∧ w.Grows ((eval Run.resolve n e).after w))
      ∧ (∀ n f args (w : World), w.Typed →
        ((call Run.resolve n f args).after w).Typed
          ∧ w.Grows ((call Run.resolve n f args).after w))
      ∧ ∀ (story : Story Unit) (seed : String) (provider : Provider) (limit : Nat)
          (calls more : List (Option Nat)),
        let t := Telling.ofStory story seed provider limit
        (t.run calls).2.world.Typed
          ∧ (t.run calls).2.world.Grows (t.run (calls ++ more)).2.world
          ∧ ∀ alarm,
            let m := watchedMachine alarm limit
            (t.withMachine m).run calls = ((t.run calls).1, (t.run calls).2.withMachine m) := by
  have agree := machine_agree_refl ⟨True, False⟩
  have fit : ∀ w : World, w.Typed → w.Fit ⟨True, False⟩ w.outlines :=
    fun w hw => ⟨rfl, fun _ => hw, False.elim⟩
  refine ⟨fun n e w hw => ?_, fun n f args w hw => ?_, ?_⟩
  · obtain ⟨hg, hf⟩ := ((agree n).eval w.outlines e False.elim).after (fit w hw)
    exact ⟨hf.typed trivial, hg⟩
  · obtain ⟨hg, hf⟩ := ((agree n).call w.outlines f args False.elim
      fun _ _ => False.elim).after (fit w hw)
    exact ⟨hf.typed trivial, hg⟩
  · intro story seed provider limit calls more t
    have hs := Telling.ofStory_stands ⟨True, False⟩ story False.elim seed provider limit
    have hc := (Telling.run_continues (agree limit) calls hs).2.2.1
    refine ⟨?_, ?_, fun alarm => ?_⟩
    · obtain ⟨xs, ns, -, hw⟩ := hc.world
      exact hw.typed trivial
    · rw [Telling.run_append]
      exact (Telling.run_continues (agree limit) more hc).2.1
    · exact (Telling.run_continues (watchedMachine_agree trivial alarm limit) calls hs).1

/-- A boolean variable declared, set and refused a text. -/
def refusing : Expr Nat :=
  let x : Expr Nat := ⟨.reference "x", none⟩
  let set (e : Expr Nat) : Statement Nat := ⟨.expression ⟨.binary .assign x e, none⟩, none⟩
  ⟨.block [⟨.declare [⟨"x", some [.boolean], none, none⟩], none⟩, set ⟨.boolean true, none⟩,
    set ⟨.string "text", none⟩], none⟩

theorem cells_typed_refusing :
    let w := World.initial (.ofSeed "seed") {}
    let w' := (eval Run.resolve 9 refusing).after w
    w'.cells.size = w.cells.size + 1 ∧ w'.Typed ∧ w.Grows w' := by
  intro w w'
  refine ⟨?_, cells_typed.1 9 refusing w ?_⟩
  · decide +kernel
  · decide +kernel

/-! ## Scopes -/

/-- Nothing but the story's scope, with the names it declares, and the library's. -/
def World.Bare (names : List String) (w : World) : Prop :=
  ∃ ns : List (String × Address), ns.map (·.1) = names ∧ w.outlines = [⟨ns, none⟩, library]

theorem evaluation_keeps_scopes :
    (∀ n e (w : World), ((eval Run.resolve n e).after w).outlines = w.outlines)
      ∧ (∀ n f args (w : World), ((call Run.resolve n f args).after w).outlines = w.outlines)
      ∧ (∀ n (f : Native) args (w : World),
        ((f.run (machine n) args).run.after w).outlines = w.outlines)
      ∧ ∀ (story : Story Unit) (seed : String) (provider : Provider) (limit : Nat)
          (calls : List (Option Nat)),
        let t := Telling.ofStory story seed provider limit
        let names := (initialNames story.init).reverse
        (∀ choices, (t.run calls).2.stage = .waiting choices → (t.run calls).2.world.Bare names)
          ∧ ∀ i s, ((t.run calls).2.resume i).1 = .ok s →
            ((t.run calls).2.resume i).2.world.Bare names := by
  have agree := machine_agree_refl ⟨False, False⟩
  have fit : ∀ w : World, w.Fit ⟨False, False⟩ w.outlines := fun w => ⟨rfl, False.elim, False.elim⟩
  refine ⟨fun n e w => ?_, fun n f args w => ?_, fun n f args w => ?_, ?_⟩
  · exact (((agree n).eval w.outlines e False.elim).after (fit w)).2.outlines
  · exact (((agree n).call w.outlines f args False.elim
      fun _ _ => False.elim).after (fit w)).2.outlines
  · exact ((Native.run_answers (agree n) f fun _ _ => False.elim).after (fit w)).2.outlines
  · intro story seed provider limit calls t names
    have hs := Telling.ofStory_stands ⟨False, False⟩ story False.elim seed provider limit
    have hc := (Telling.run_continues (agree limit) calls hs).2.2.1
    have bare : ∀ t : Telling, t.Opened ⟨False, False⟩ (machine limit) names → t.world.Bare names :=
      fun t ⟨ns, hn, ht⟩ => ⟨ns, hn, ht.world.outlines⟩
    refine ⟨fun choices hw => ?_, fun i s h => ?_⟩
    · rw [Telling.Stands, hw] at hc
      exact bare _ hc.1
    · exact bare _ ((Telling.resume_continues (agree limit) hc i).2.opened s h)

/-- Declares a name, and asks for a choice. -/
def asking : Story Unit :=
  let choice : Expr Unit := ⟨.choice ⟨.string "go", none⟩ ⟨.exit, none⟩, none⟩
  ⟨⟨1, 0⟩, [⟨.declare [⟨"x", none, none, none⟩], none⟩],
    [⟨"s", none, ⟨.selection ⟨.list [.item choice], none⟩, none⟩, [], none⟩]⟩

theorem evaluation_keeps_scopes_asking :
    let t := ((Telling.ofStory asking "seed" {} 9).run [none]).2
    ∃ choices, t.stage = .waiting choices ∧ t.world.Bare ["x"] := by
  intro t
  have h : (match t.stage with | .waiting _ => true | _ => false) = true := by decide +kernel
  split at h
  · rename_i choices hc
    refine ⟨choices, hc, ?_⟩
    exact (evaluation_keeps_scopes.2.2.2 asking "seed" {} 9 [none]).1 choices hc
  · cases h

end Tale
