import Tale.Proofs.TellingTwins

/-!
# Kinds of errors

An evaluation stops for a fault or a signal, and a call may also be refused, but only for a reason
of the callee's own: that a function it calls in turn is refused becomes a fault where an
expression made the call, and a refusal of the library's where the library made it. A fault of a
call outside of any expression never comes about, since every such call is made by a choice or for
the pinned function, and both say so.

That each of these conversions is made is part of what keeps two evaluations alike, so it is read
off an evaluation set beside itself.
-/

namespace Tale

/-! ## Nothing changed -/

theorem Kin.Worlds.self (w : World) : Kin.same.Worlds w w where
  size := rfl
  fresh _ _ _ _ _ := trivial
  cells a := by
    rcases w.cells[a]? with _ | c
    · exact .none
    · exact .some ⟨rfl, rfl, fun _ => c.value.akin_self⟩
  scopes := by
    refine List.forall₂_same.mpr fun s _ => ⟨rfl, fun _ _ _ _ _ _ => trivial, ?_⟩
    rcases s.register with _ | p
    · exact .none
    · exact .some ⟨rfl, p.2.akin_self⟩
  random _ := rfl
  content := rfl
  pinned := by
    rcases w.pinned with _ | f
    · exact .none
    · exact .some f.akin_self
  stateText := rfl
  timers := rfl
  canvases := rfl
  provider := rfl

/-! ## Reasons to stop -/

/-- A fault is one of the story or of a damaged document. -/
def Fault.OfStory (f : Fault) : Prop :=
  f.code = "WTCD_RUNTIME" ∨ f.code = "WTCD_INTERNAL"

/-- Calls are refused for reasons in `R` only. -/
def Stop.Legitimate (R : CallError → Prop) : Stop → Prop
  | .fault f => f.OfStory
  | .signal _ => True
  | .refused e => R e
  | .exhausted => True

theorem Kin.Faults.ofStory {K : Kin} {f f' : Fault} (h : K.Faults f f') : f.OfStory := by
  have hw := h.cause.within
  simp only [Fault.OfStory, Fault.code]
  cases hc : f.cause with
  | strayCall e =>
    rw [hc] at hw
    cases hw
  | unknownVariable _ => exact .inr rfl
  | unknownRegister _ => exact .inr rfl
  | _ => exact .inl rfl

theorem Kin.Stops.legitimate {K : Kin} {R : CallError → Prop} {e e' : Stop}
    (h : K.Stops R e e') : e.Legitimate R := by
  cases h with
  | fault h => exact h.ofStory
  | signal s => trivial
  | refused h _ => exact h
  | exhausted => trivial

theorem Kin.Runs.legitimate {α : Type} {R : CallError → Prop} {V : α → α → Prop} {x y : Run α}
    (h : Kin.same.Runs R V x y) {w w' : World} {e : Stop} (he : x w = .error e w') :
    e.Legitimate R := by
  have hxy := h (Kin.Worlds.self w)
  rw [he] at hxy
  generalize y w = o at hxy
  cases hxy with
  | error stop _ => exact stop.legitimate

theorem eval_legitimate {n : Nat} {e : Expr Nat} {w w' : World} {s : Stop}
    (h : (machine n).eval e w = .error s w') : s.Legitimate Unrefused :=
  ((machine_drives .same n).eval e fun _ _ _ _ _ => trivial).legitimate h

theorem call_legitimate {n : Nat} {f : Function} {args : List Value} {w w' : World} {s : Stop}
    (h : (machine n).call f args w = .error s w') : s.Legitimate f.Refuses :=
  ((machine_drives .same n).call f.akin_self
    (List.forall₂_same.mpr fun v _ => v.akin_self)).legitimate h

theorem native_legitimate {n : Nat} {f : Native} {args : List Value} {w w' : World} {s : Stop}
    (h : (f.run (machine n) args).run w = .error s w') : s.Legitimate Unrefused :=
  (Native.run_twins (List.forall₂_same.mpr fun v _ => v.akin_self) (machine_drives .same n) f
    fun _ => trivial).legitimate h

theorem ofStory_of_mem_run {n : Nat} {story : Story Unit} {seed : String} {provider : Provider}
    {calls : List (Option Nat)} {f : Fault}
    (h : .error (.fault f) ∈ ((Telling.ofStory story seed provider n).run calls).1) :
    f.OfStory := by
  have ht := Telling.ofStory_twins (K := .same) story (fun _ _ _ _ _ => trivial) (.inl trivial)
    seed seed (fun _ => rfl) provider n
  have hr := (Telling.run_twins calls ht).1
  generalize ((Telling.ofStory story seed provider n).run calls).1 = as,
    ((Telling.ofStory (story.relocate Kin.same.place) seed provider n).run calls).1 = as' at h hr
  induction hr with
  | nil => cases h
  | cons ha _ ih =>
    rcases List.mem_cons.mp h with rfl | h
    · cases ha with
      | error he =>
        cases he with
        | fault hf => exact hf.ofStory
    · exact ih h

/-- Errors of one kind are turned into those of the next at every boundary. An evaluation has no
refusal left, nor has a function of the library that calls others; a call is refused for what it
was given itself; and a run of any story fails for nothing but the protocol, its faults and what
the machine was granted. -/
theorem layers (n : Nat) :
    (∀ (e : Expr Nat) (w w' : World) (s : Stop),
      (machine n).eval e w = .error s w' → s.Legitimate Unrefused)
    ∧ (∀ (f : Function) (args : List Value) (w w' : World) (s : Stop),
      (machine n).call f args w = .error s w' → s.Legitimate f.Refuses)
    ∧ (∀ (f : Native) (args : List Value) (w w' : World) (s : Stop),
      (f.run (machine n) args).run w = .error s w' → s.Legitimate Unrefused)
    ∧ ∀ (story : Story Unit) (seed : String) (provider : Provider) (calls : List (Option Nat))
        (e : StepError), .error e ∈ ((Telling.ofStory story seed provider n).run calls).1 →
      e.code ∈ ["WTCD_INVALID_CHOICE", "WTCD_CHOICE_REQUIRED", "WTCD_FINISHED"]
        ∨ e.code ∈ ["WTCD_RUNTIME", "WTCD_INTERNAL"] ∨ e = .exhausted := by
  refine ⟨fun _ _ _ _ => eval_legitimate, fun _ _ _ _ _ => call_legitimate,
    fun _ _ _ _ _ => native_legitimate, fun story seed provider calls e h => ?_⟩
  cases e with
  | fault f =>
    refine .inr (.inl ?_)
    rcases ofStory_of_mem_run h with h | h
    · exact h ▸ .head _
    · exact h ▸ .tail _ (.head _)
  | invalidChoice i => exact .inl (.head _)
  | choiceRequired => exact .inl (.tail _ (.head _))
  | finished => exact .inl (.tail _ (.tail _ (.head _)))
  | exhausted => exact .inr (.inr rfl)

/-- A refusal that goes through a list: `assert` does not take the index it is given along with the
element, and `listMap` is what refuses. A machine that was granted nothing does not get that far.
Beside it, a name that means nothing, and a choice made before anything was asked. -/
theorem layers_asserting :
    let f : Function := .native .listMap
    let args : List Value := [.list [.boolean true], .function (.native .assert)]
    let w : World := { random := ⟨0, 0, 0, 0⟩ }
    let refusal : CallError := .native .listMap (.element 0 (.native .assert (.tooMany 1 2)))
    let unknown : Stop := .fault ⟨.unknownVariable "x", none, []⟩
    let early : StepError := .invalidChoice 0
    ((machine 2).call f args w = .error (.refused refusal) w ∧ f.Refuses refusal)
      ∧ ((Native.listMap.run (machine 0) args).run w = .error .exhausted w
        ∧ Stop.exhausted.Legitimate Unrefused)
      ∧ ((machine 2).eval ⟨.reference "x", none⟩ w = .error unknown w
        ∧ unknown.Legitimate Unrefused)
      ∧ ((Telling.ofStory ⟨⟨1, 3⟩, [], []⟩ "seed" {} 2).run [some 0]).1 = [.error early]
      ∧ (early.code ∈ ["WTCD_INVALID_CHOICE", "WTCD_CHOICE_REQUIRED", "WTCD_FINISHED"]
        ∨ early.code ∈ ["WTCD_RUNTIME", "WTCD_INTERNAL"] ∨ early = .exhausted) := by
  intro f args w refusal unknown early
  have hc : (machine 2).call f args w = .error (.refused refusal) w := rfl
  have hn : (Native.listMap.run (machine 0) args).run w = .error .exhausted w := rfl
  have he : (machine 2).eval ⟨.reference "x", none⟩ w = .error unknown w := rfl
  have hr : ((Telling.ofStory ⟨⟨1, 3⟩, [], []⟩ "seed" {} 2).run [some 0]).1 = [.error early] := rfl
  have hm : .error early ∈ ((Telling.ofStory ⟨⟨1, 3⟩, [], []⟩ "seed" {} 2).run [some 0]).1 :=
    hr ▸ List.mem_singleton_self _
  exact ⟨⟨hc, (layers 2).2.1 f args w w (.refused refusal) hc⟩,
    ⟨hn, (layers 0).2.2.1 .listMap args w w .exhausted hn⟩,
    ⟨he, (layers 2).1 ⟨.reference "x", none⟩ w w unknown he⟩,
    hr, (layers 2).2.2.2 _ "seed" {} [some 0] early hm⟩

end Tale
