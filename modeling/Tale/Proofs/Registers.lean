import Tale.Proofs.Exits
import Tale.Proofs.ParsedRegisters

/-!
# Registers where they stand

While a story is told, a register is looked for in all scopes there are, from the innermost one on,
whatever function they belong to. In a document it belongs to the block, the loop or the function
around the statement that sets it. An evaluator that knows what stands around a statement, and goes
up just as many scopes as there are blocks and loops in between, needs no search. It tells each
parsed story like the usual one, but for what is left to `otherwise`: a `break` in a function that
is not in a loop of the same function (`registers_enclosing`). Such a statement is read if the
function stands in a loop, and if it is called elsewhere its register may be missing
(`break_unresolved`).
-/

namespace Tale

/-- Every statement with a register stands in what the register belongs to. -/
def Story.Enclosed {ι : Type} (s : Story ι) : Prop :=
  s.Placed fun _ => False

namespace Lexical

variable {spare : Register → Prop} {otherwise : Register → Value → Run Unit}
  {fs : List (Option Register)} {rs : List Register} {r : Register} {v : Value}

/-- Sets the register that stands as many scopes up as there are registers in front of it. -/
def set (otherwise : Register → Value → Run Unit) (rs : List Register) (r : Register) (v : Value) :
    Run Unit :=
  if r ∈ rs then
    modify fun w => { w with
      scopes := w.scopes.modify (rs.idxOf r) fun s => { s with register := some (r, v) } }
  else otherwise r v

def exits (otherwise : Register → Value → Run Unit) : Exits where
  leave rs r v := do
    set otherwise rs r v
    throw (.signal (.leave r))
  set := set otherwise
  frame := Run.frame

theorem setRegister_sinceCall : ∀ {ss : List Scope}, r ∈ sinceCall (kinds ss) →
    World.setRegister r v ss = some (ss.modify ((sinceCall (kinds ss)).idxOf r)
      fun s => { s with register := some (r, v) })
  | [], h => by cases h
  | s :: ss, h => by
    have hs : s.hasRegister r = true ↔ s.register.map (·.1) = some r := Scope.hasRegister_iff
    rw [kinds, List.map_cons, ← kinds] at h ⊢
    rw [World.setRegister]
    generalize s.register.map (·.1) = k at h hs ⊢
    have here : k = some r → (sinceCall (k :: kinds ss)).idxOf r = 0 := by
      rintro rfl
      cases r <;> exact List.idxOf_cons_self
    by_cases hk : k = some r
    · rw [if_pos (hs.mpr hk), here hk]
      rfl
    · rw [if_neg (mt hs.mp hk)]
      rcases k with _ | q
      · cases h
      · have hq : q ≠ r := fun hq => hk (congrArg some hq)
        have hc : sinceCall (some q :: kinds ss) = q :: sinceCall (kinds ss) := by
          cases q with
          | «return» => exact absurd (List.mem_singleton.mp h).symm hq
          | yield => rfl
          | «break» => rfl
        rw [hc] at h ⊢
        have hm := (List.mem_cons.mp h).resolve_left hq.symm
        rw [setRegister_sinceCall hm, List.idxOf_cons, beq_false_of_ne hq]
        rfl

/-! ## What is placed -/

theorem parts_placed {s : Shape Nat} (h : s.Placed spare rs) {e : Expr Nat} (he : e ∈ s.parts) :
    e.Placed spare rs := by
  cases s with
  | binary op l r =>
    simp only [Shape.parts, List.mem_cons, List.not_mem_nil, or_false] at he
    rcases he with rfl | rfl
    · exact h.1
    · exact h.2
  | unary op e' => exact List.mem_singleton.mp he ▸ h
  | conditional c y n =>
    simp only [Shape.parts, List.mem_cons, List.not_mem_nil, or_false] at he
    rcases he with rfl | rfl | rfl
    · exact h.1
    · exact h.2.1
    · exact h.2.2
  | selection e' => exact List.mem_singleton.mp he ▸ h
  | choice t a =>
    simp only [Shape.parts, List.mem_cons, List.not_mem_nil, or_false] at he
    rcases he with rfl | rfl
    · exact h.1
    · exact h.2
  | list es =>
    obtain ⟨x, hx, rfl⟩ := List.mem_map.mp he
    exact elementsPlaced_iff.mp h x hx
  | switch e' cs d =>
    simp only [Shape.parts, List.mem_cons, List.mem_append, List.mem_flatMap] at he
    rcases he with rfl | ⟨c, hc, he⟩ | he
    · exact h.1
    · exact casesPlaced_iff.mp h.2.1 c hc e he
    · exact optionPlaced_iff.mp h.2.2 e he
  | cond c y n =>
    simp only [Shape.parts, List.mem_cons] at he
    rcases he with rfl | rfl | he
    · exact h.1
    · exact h.2.1
    · exact optionPlaced_iff.mp h.2.2 e he
  | _ => cases he

theorem statement_placed {s : StatementShape Nat} (h : s.Placed spare rs) :
    (∀ e ∈ s.parts, e.Placed spare rs) ∧ ∀ r ∈ s.register?, r ∈ rs ∨ spare r := by
  cases s with
  | declare ds =>
    refine ⟨fun e he => ?_, fun _ => nofun⟩
    obtain ⟨d, hd, he⟩ := List.mem_flatMap.mp he
    exact optionPlaced_iff.mp (declarationsPlaced_iff.mp h d hd) e he
  | expression e => exact ⟨fun _ he => List.mem_singleton.mp he ▸ h, fun _ => nofun⟩
  | leave r e =>
    refine ⟨fun _ he => List.mem_singleton.mp he ▸ h.2, ?_⟩
    rintro _ ⟨⟩
    exact h.1
  | set r e =>
    refine ⟨fun _ he => List.mem_singleton.mp he ▸ h.2, ?_⟩
    rintro _ ⟨⟩
    exact h.1
  | «continue» => exact ⟨fun _ => nofun, fun _ => nofun⟩

theorem function_placed {f : FunctionExpr Nat} (h : f.Placed spare) :
    ∀ e ∈ f.parts, e.Placed spare [.return] := by
  obtain ⟨_, ps, _, _, body⟩ := f
  intro e he
  rcases List.mem_append.mp he with he | he
  · obtain ⟨p, hp, he⟩ := List.mem_flatMap.mp he
    exact optionPlaced_iff.mp (parametersPlaced_iff.mp h.1 p hp) e he
  · exact List.mem_singleton.mp he ▸ h.2

theorem loop_placed {b a : Option (Expr Nat)} {c : Expr Nat}
    (h : Shape.Placed spare rs (.loop b c a)) :
    ∀ e ∈ b.toList ++ c :: a.toList, e.Placed spare (.break :: rs) := by
  intro e he
  rcases List.mem_append.mp he with he | he
  · exact optionPlaced_iff.mp h.1 e he
  · rcases List.mem_cons.mp he with rfl | he
    · exact h.2.1
    · exact optionPlaced_iff.mp h.2.2 e he

/-- Only the register of what is not placed can be missing. Both evaluators leave the same worlds
behind. -/
def scheme (spare : Register → Prop) : Scheme where
  rule :=
    { expr := fun rs e => e.Placed spare rs
      register := fun rs r => r ∈ rs ∨ spare r
      targets := fun _ => True
      part := fun {_ e _} h hm => by
        obtain ⟨shape, _⟩ := e
        exact parts_placed h hm
      block := fun h s hs => statement_placed (statementsPlaced_iff.mp h s hs)
      loop := fun h => loop_placed h
      function := fun h => function_placed h
      goto := fun _ => trivial }
  causes cause := ∀ r, cause = .unknownRegister r → spare r
  ordinary h r hc := by
    rw [hc] at h
    exact h.elim
  unknown _ _ := nofun
  left _ v w := v = w

/-! ## The evaluators compared -/

theorem set_apply {w : World} (hw : ((scheme spare).regime fs).Fit w)
    (hr : r ∈ sinceCall fs ∨ spare r) (ho : spare r → otherwise r v = Run.setRegister r v) :
    set otherwise (sinceCall fs) r v w = Run.setRegister r v w := by
  have hk : kinds w.scopes = fs := hw.frame
  rw [set]
  split
  · rename_i hm
    rw [← hk] at hm ⊢
    have hs := setRegister_sinceCall (v := v) hm
    have hg : (get : Run World) w = .ok w w := rfl
    simp only [Run.setRegister, Bind.bind, EStateM.bind, hg, hs]
    rfl
  · rw [ho (hr.resolve_left ‹_›)]

theorem mem_of_sinceCall : ∀ {fs : List (Option Register)}, r ∈ sinceCall fs → some r ∈ fs
  | some .return :: _, h => List.mem_singleton.mp h ▸ .head _
  | some .yield :: _, h =>
    (List.mem_cons.mp h).elim (fun h => h ▸ .head _) fun h => .tail _ (mem_of_sinceCall h)
  | some .break :: _, h =>
    (List.mem_cons.mp h).elim (fun h => h ▸ .head _) fun h => .tail _ (mem_of_sinceCall h)

theorem found (hr : r ∈ sinceCall fs ∨ spare r) :
    some r ∈ fs ∨ (scheme spare).causes (.unknownRegister r) := by
  refine hr.imp mem_of_sinceCall fun hr r' h => ?_
  cases h
  exact hr

theorem exits_respects (ho : ∀ r v, spare r → otherwise r v = Run.setRegister r v) :
    (exits otherwise).Respects (scheme spare) where
  leave fs r v hr hv := by
    refine Linked.of_eq (leave_links (fun _ => rfl) (found hr) hv) fun w hw => ?_
    simp only [exits, Run.leave, Bind.bind, EStateM.bind, set_apply hw hr (ho r v)]
  set fs r v hr hv :=
    Linked.of_eq (setRegister_links (found hr) hv) fun w hw => set_apply hw hr (ho r v)
  frame _ _ _ _ _ _ _ hs hf h := frame_links (fun _ _ _ => Iff.rfl) hs hf h

/-- A story that uses other registers than those in sight only if they are spare. -/
theorem run_placed {story : Story Unit} (hp : story.Placed spare)
    (ho : ∀ r v, spare r → otherwise r v = Run.setRegister r v) (seed : String)
    (provider : Provider) (limit : Nat) (calls : List (Option Nat)) :
    let t := Telling.ofStory story seed provider limit
    let m := (exits otherwise).machine limit []
    (t.withMachine m).run calls = ((t.run calls).1, (t.run calls).2.withMachine m)
      ∧ ∀ f r, .error (.fault f) ∈ (t.run calls).1 → f.cause = .unknownRegister r → spare r := by
  intro t m
  have hl := Story.labelled_placed.mpr hp
  have hf : (scheme spare).rule.Story story.labelled :=
    ⟨fun s hs => statement_placed (statementsPlaced_iff.mp hl.1 s hs),
      fun x hx => ⟨optionPlaced_iff.mp (hl.2 x hx).1, (hl.2 x hx).2⟩⟩
  have hc : ∀ name, (scheme spare).causes (.unknownSection name) := fun _ _ => nofun
  obtain ⟨hr, hk⟩ := Exits.run_alike (exits_respects ho) hf (fun _ _ name _ _ => hc name) seed
    provider limit calls
  refine ⟨hr, fun f r hf hc => ?_⟩
  rcases hk _ hf f rfl with hs | ⟨s, hs, -⟩
  · exact hs r hc
  · rw [hc] at hs
    cases hs

end Lexical

theorem registers_enclosing {options : Document.Options} {source : String} {story : Story Unit}
    (h : Document.parse options source = .ok story) (seed : String) (provider : Provider)
    (limit : Nat) (calls : List (Option Nat)) :
    let t := Telling.ofStory story seed provider limit
    (∀ otherwise, (story.Enclosed ∨ ∀ v, otherwise .break v = Run.setRegister .break v) →
      let m := (Lexical.exits otherwise).machine limit []
      (t.withMachine m).run calls = ((t.run calls).1, (t.run calls).2.withMachine m))
      ∧ ∀ f r, .error (.fault f) ∈ (t.run calls).1 → f.cause = .unknownRegister r →
        r = .break ∧ ¬ story.Enclosed := by
  intro t
  have hp := Document.parse_placed h
  refine ⟨fun otherwise ho => ?_, fun f r hf hc => ⟨?_, fun he => ?_⟩⟩
  · rcases ho with he | ho
    · exact (Lexical.run_placed he (fun _ _ => nofun) seed provider limit calls).1
    · refine (Lexical.run_placed hp (fun r v hr => ?_) seed provider limit calls).1
      cases (hr : r = .break)
      exact ho v
  · exact (Lexical.run_placed hp (fun _ _ _ => rfl) seed provider limit calls).2 f r hf hc
  · exact (Lexical.run_placed he (fun _ _ _ => rfl) seed provider limit calls).2 f r hf hc

/-- A function that leaves a loop is handed out of it and called there. -/
def handedOut : String :=
  "WTCD 1.3\ndeclare r = \x7b declare f = while true \x7b break $ \x7b break 5 \x7d \x7d "
    ++ "yield f::[] \x7d\nsection s then exit\n"

/-- Whether the first answer is that there is no loop to be left. -/
def failsOutside : List (Except StepError Step) → Bool
  | .error (.fault ⟨.unknownRegister .break, _, _⟩) :: _ => true
  | _ => false

theorem handedOut_fails : ∃ story, Document.parse {} handedOut = .ok story ∧
    ∃ f, .error (.fault f) ∈ ((Telling.ofStory story "seed").run [none]).1
      ∧ f.cause = .unknownRegister .break := by
  have h : (Document.parse {} handedOut).toOption.any (fun story =>
      failsOutside ((Telling.ofStory story "seed").run [none]).1) = true := by
    rw [Document.parse_eq_ofChars]
    decide +kernel
  rcases hs : Document.parse {} handedOut with e | story <;> rw [hs] at h
  · cases h
  · refine ⟨story, rfl, ?_⟩
    rw [Except.toOption, Option.any_some, failsOutside.eq_def] at h
    split at h
    · rename_i location trail _ hr
      rw [hr]
      exact ⟨_, .head _, rfl⟩
    · cases h

theorem registers_enclosing_handedOut : ∃ story, Document.parse {} handedOut = .ok story
    ∧ ¬ story.Enclosed ∧ ∀ calls,
      let t := Telling.ofStory story "seed"
      let m := (Lexical.exits fun r v =>
        if r = .break then Run.setRegister r v else throw .exhausted)
        |>.machine Telling.defaultLimit []
      (t.withMachine m).run calls = ((t.run calls).1, (t.run calls).2.withMachine m) := by
  obtain ⟨story, h, f, hf, hc⟩ := handedOut_fails
  refine ⟨story, h, ?_, fun calls => ?_⟩
  · exact ((registers_enclosing h "seed" {} _ [none]).2 f _ hf hc).2
  · exact (registers_enclosing h "seed" {} _ calls).1 _ (.inr fun v => if_pos rfl)

/-- The register of a `break` that was read can be missing when it is set. -/
theorem break_unresolved : ¬ ∀ (source : String) (story : Story Unit),
    Document.parse {} source = .ok story → ∀ (calls : List (Option Nat)) (f : Fault) (r : Register),
      .error (.fault f) ∈ ((Telling.ofStory story "seed").run calls).1 →
        f.cause ≠ .unknownRegister r := by
  intro h
  obtain ⟨story, hp, f, hf, hc⟩ := handedOut_fails
  exact h handedOut story hp [none] f .break hf hc

end Tale
