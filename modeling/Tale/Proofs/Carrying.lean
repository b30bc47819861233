import Tale.Proofs.Exits

/-!
# Signals that carry their values

A block, a function or a loop is left by two things that travel apart: a value, which goes into the
innermost register of the kind, and a signal, which goes up through whatever is being evaluated,
functions of the library and applications included, until a frame of the kind catches it. They
always meet again. An evaluator whose signals carry the value along, and whose frames take it from
there and never look into their register, tells every story just like the usual one
(`signals_carried`). So what was left comes to the very value it was left with, and the only signal
that can get out of a story is `continue`.
-/

namespace Tale

namespace Carrying

/-- A scope that stands on top of all others while a signal goes up. -/
def carrier (r : Register) (v : Value) : Scope where
  register := some (r, v)

/-- Sends a signal if there is a frame for it, and sets no register. -/
def leave (r : Register) (v : Value) : Run Unit := fun w =>
  if some r ∈ kinds w.scopes then
    .error (.signal (.leave r)) { w with scopes := carrier r v :: w.scopes }
  else Run.fail (.unknownRegister r) none w

/-- A frame finds its own scope beneath the carrier. A signal for another register goes on with
its carrier; one for its own brings the value. -/
def frame {α : Type} (r : Register) (scope : Scope) (finish : α → Scope → Value) (body : Run α) :
    Run Value := fun w =>
  match body { w with scopes := scope :: w.scopes } with
  | .ok a w => .ok (finish a (w.scopes.headD {})) { w with scopes := w.scopes.tail }
  | .error (.signal (.leave r')) w =>
    let ss := w.scopes.tail.tail
    if r' = r then .ok ((w.scopes.headD {}).held r) { w with scopes := ss }
    else .error (.signal (.leave r')) { w with scopes := w.scopes.headD {} :: ss }
  | .error e w => .error e { w with scopes := w.scopes.tail }

def exits : Exits where
  leave _ := leave
  set _ := Run.setRegister
  frame := frame

/-- Any code will do, and no fault is that of a signal. While a signal goes up, the worlds differ
in whether its value is in a register or in the carrier. -/
def scheme : Scheme where
  rule :=
    { expr _ _ := True
      register _ _ := True
      targets _ := True
      part _ _ := trivial
      block _ _ _ := ⟨fun _ _ => trivial, fun _ _ => trivial⟩
      loop _ _ _ := trivial
      function _ _ _ := trivial
      goto _ := trivial }
  causes cause := ∀ s, cause ≠ .uncaught s
  ordinary h s hc := by
    rw [hc] at h
    exact h
  unknown _ _ := nofun
  left r v w := ∃ u ss, World.setRegister r u ss = some w.scopes
    ∧ v = { w with scopes := carrier r u :: ss }

variable {fs : List (Option Register)} {r : Register} {v : Value}

theorem leave_links (hv : v.Meets scheme.rule.norm) :
    (scheme.regime fs).Links (fun _ => True) (leave r v) (Run.leave r v) := by
  intro w hw
  have hk : kinds w.scopes = fs := hw.frame
  have hr : (World.setRegister r v w.scopes).isSome = true ↔ some r ∈ kinds w.scopes :=
    setRegister_isSome
  rw [leave_apply, leave]
  rcases hs : World.setRegister r v w.scopes with _ | ss <;> rw [hs] at hr
  · rw [if_neg fun h => nomatch hr.mpr h]
    exact .error (.refl w) ⟨fun _ => nofun, hw⟩ fun _ => nofun
  · have hm := hr.mp rfl
    rw [if_pos hm]
    exact .left (.refl w) ⟨hk ▸ hm, hw.setRegister hv hs⟩ ⟨v, w.scopes, hs, rfl⟩

/-- The innermost register of the kind of a frame is that of its scope, and what was put there is
what the carrier brings. -/
theorem setRegister_head {s : Scope} {ss tt : List Scope} (hs : s.register.map (·.1) = some r)
    (h : World.setRegister r v (s :: ss) = some tt) :
    (tt.headD {}).held r = v ∧ tt.tail = ss := by
  have hr : s.hasRegister r = true := Scope.hasRegister_iff.mpr hs
  rw [World.setRegister, if_pos hr] at h
  cases h
  exact ⟨if_pos rfl, rfl⟩

/-- Another register is further out. -/
theorem setRegister_tail {r' : Register} {s : Scope} {ss tt : List Scope}
    (hs : s.register.map (·.1) = some r) (hr : r' ≠ r)
    (h : World.setRegister r' v (s :: ss) = some tt) :
    World.setRegister r' v ss = some tt.tail := by
  have hn : ¬ s.hasRegister r' = true := by
    intro hc
    rw [Scope.hasRegister_iff, Scope.outline, hs, Option.some.injEq] at hc
    exact hr hc.symm
  rw [World.setRegister, if_neg hn] at h
  obtain ⟨uu, hu, rfl⟩ := Option.map_eq_some_iff.mp h
  exact hu

theorem frame_links {α : Type} {scope : Scope} {finish : α → Scope → Value} {V : α → Prop}
    {x y : Run α} (hs : scope.register = some (r, .null))
    (hf : ∀ a s, V a → (∀ r, (s.held r).Meets scheme.rule.norm) →
      (finish a s).Meets scheme.rule.norm)
    (h : (scheme.regime (some r :: fs)).Links V x y) :
    (scheme.regime fs).Links (·.Meets scheme.rule.norm) (frame r scope finish x)
      (Run.frame r scope finish y) := by
  intro w hw
  have hxy := h _ (hw.push hs)
  rw [Run.frame_apply, frame]
  generalize x { w with scopes := scope :: w.scopes } = o,
    y { w with scopes := scope :: w.scopes } = o' at hxy
  cases hxy with
  | ok grows value => exact .ok grows ⟨hf _ _ value.1 value.2.held, value.2.pop⟩
  | @error e w' grows stop notLeft =>
    rcases e with f | (r' | _) | c | _
    · exact .error grows ⟨stop.1, stop.2.pop⟩ notLeft
    · exact absurd rfl (notLeft r')
    · exact .error grows ⟨trivial, stop.2.pop⟩ notLeft
    · exact .error grows ⟨trivial, stop.2.pop⟩ notLeft
    · exact .error grows ⟨trivial, stop.2.pop⟩ notLeft
  | @left r' _ w' grows stop related =>
    obtain ⟨u, ss, hu, rfl⟩ := related
    have hk : kinds ss = some r :: fs := (kinds_setRegister hu).symm.trans stop.2.frame
    rcases ss with _ | ⟨s, ss⟩
    · cases hk
    · rw [kinds, List.map_cons, List.cons.injEq] at hk
      simp only [List.headD_cons, List.tail_cons]
      by_cases hr : r' = r
      · subst hr
        obtain ⟨hh, ht⟩ := setRegister_head hk.1 hu
        have hc : (carrier r' u).held r' = u := if_pos rfl
        rw [if_pos rfl, if_pos rfl, hc, hh, ← ht]
        exact .ok grows ⟨hh ▸ stop.2.held r', stop.2.pop⟩
      · rw [if_neg hr, if_neg hr]
        have hl : some r' ∈ fs := by
          rcases List.mem_cons.mp stop.1 with h | h
          · exact absurd (Option.some.inj h) hr
          · exact h
        exact .left grows ⟨hl, stop.2.pop⟩ ⟨u, ss, setRegister_tail hk.1 hr hu, rfl⟩

theorem exits_respects : exits.Respects scheme where
  leave _ _ _ _ hv := leave_links hv
  set _ _ _ _ hv := setRegister_links (.inr fun _ => nofun) hv
  frame _ _ _ _ _ _ _ hs hf h := frame_links hs hf h

end Carrying

end Tale
