import Tale.Proofs.Courses

/-!
# Evaluators that leave blocks, functions and loops in other ways

A block, a call or a loop is left by setting its register and sending a signal, which its frame
catches. `Exits` is how an evaluator does so; the rest of it is the same. Told of the registers
that a tree can see, such an evaluator can put a value where it has to go without looking for it,
or let the signal carry it.

If its ways out and its frames respect a regime for each stack of frames, so does the evaluator
(`Exits.machine_links`), for all code that follows the rule these ways rely on.
-/

namespace Tale

variable {α : Type}

/-- The registers of scopes, innermost first. -/
def kinds (ss : List Scope) : List (Option Register) :=
  ss.map fun s => s.register.map (·.1)

/-- The registers of the blocks and loops entered since the innermost call, and that of the
call. -/
def sinceCall : List (Option Register) → List Register
  | some .return :: _ => [.return]
  | some r :: fs => r :: sinceCall fs
  | _ => []

/-! ## Frames -/

/-- Evaluates in a scope that can be left for its register. What was put into the register counts
then; `finish` says what counts if it was not left. -/
def Run.frame (r : Register) (scope : Scope) (finish : α → Scope → Value) (body : Run α) :
    Run Value := do
  let (result, scope) ← Run.inScope scope body
  match result with
  | .ok a => return finish a scope
  | .error (.signal (.leave r')) =>
    if r' = r then return scope.held r else throw (.signal (.leave r'))
  | .error e => throw e

/-- Leaves what an innermost register belongs to. -/
def Run.leave (r : Register) (v : Value) : Run Unit := do
  Run.setRegister r v
  throw (.signal (.leave r))

theorem Run.frame_apply (r : Register) (scope : Scope) (finish : α → Scope → Value) (body : Run α)
    (w : World) : Run.frame r scope finish body w =
      match body { w with scopes := scope :: w.scopes } with
      | .ok a w => .ok (finish a (w.scopes.headD {})) { w with scopes := w.scopes.tail }
      | .error (.signal (.leave r')) w =>
        if r' = r then .ok ((w.scopes.headD {}).held r) { w with scopes := w.scopes.tail }
        else .error (.signal (.leave r')) { w with scopes := w.scopes.tail }
      | .error e w => .error e { w with scopes := w.scopes.tail } := by
  simp only [Run.frame, Run.inScope, Bind.bind, EStateM.bind]
  rcases body { w with scopes := scope :: w.scopes } with ⟨a, w'⟩ | ⟨f | (r' | _) | e | _, w'⟩
  · rfl
  · rfl
  · simp only []
    split <;> rfl
  · rfl
  · rfl
  · rfl

namespace Evaluation

theorem leaving_eq (r : Register) (body : Run Unit) :
    leaving r body = Run.frame r (.holding r) (fun _ s => s.held r) body := by
  refine congrArg (Run.inScope (.holding r) body >>= ·) (funext fun p => ?_)
  rcases p with ⟨(f | (r' | _) | e | _) | v, s⟩ <;> rfl

/-- The scope that a call opens. -/
def callScope (captured : List (String × Address)) : Scope :=
  captured.foldl (fun s (name, a) => s.declare name a) (.holding .return)

/-- What a call comes to, unless it was left. -/
def resultOf (v : Value) (s : Scope) : Value :=
  if (s.held .return).isNull then v else s.held .return

theorem callClosure_eq (m : Machine) (code : FunctionExpr Nat) (captured : List (String × Address))
    (args : List Value) : callClosure m code captured args
      = Run.frame .return (callScope captured) resultOf (body m code args) := by
  refine congrArg (Run.inScope (callScope captured) (body m code args) >>= ·) (funext fun p => ?_)
  rcases p with ⟨(f | (r | _) | e | _) | v, s⟩
  case error.signal.leave => cases r <;> rfl
  all_goals rfl

theorem callScope_register : ∀ captured : List (String × Address),
    (callScope captured).register = some (.return, .null) := by
  have h : ∀ (captured : List (String × Address)) (s : Scope),
      (captured.foldl (fun s (name, a) => s.declare name a) s).register = s.register := by
    intro captured
    induction captured with
    | nil => exact fun _ => rfl
    | cons p captured ih => exact fun s => ih _
  exact fun captured => h captured _

end Evaluation

/-! ## Evaluators -/

/-- Ways to leave something and to set its register, where the registers `rs` can be seen, and
frames that can be left. -/
structure Exits where
  leave (rs : List Register) (r : Register) (v : Value) : Run Unit
  set (rs : List Register) (r : Register) (v : Value) : Run Unit
  frame {α : Type} (r : Register) (scope : Scope) (finish : α → Scope → Value) (body : Run α) :
    Run Value

namespace Exits

section Evaluator

variable (X : Exits) (m : List Register → Machine) (rs : List Register)

def statement (s : Statement Nat) : Run Unit :=
  match s.shape with
  | .leave r e => do X.leave rs r (← (m rs).eval e)
  | .set r e => do X.set rs r (← (m rs).eval e)
  | _ => Evaluation.statement (m rs) s

def statements : List (Statement Nat) → Run Unit
  | [] => pure ()
  | s :: ss => do
    statement X m rs s
    statements ss

def expression (e : Expr Nat) : Run Value :=
  match e.shape with
  | .block ss =>
    X.frame .yield (.holding .yield) (fun _ s => s.held .yield) (statements X m (.yield :: rs) ss)
  | .loop before condition after =>
    X.frame .break (.holding .break) (fun _ s => s.held .break)
      (Evaluation.rounds (m (.break :: rs)) e.location before condition after (m rs).turns false)
  | _ => Evaluation.expression (m rs) e

def call (f : Function) (args : List Value) : Run Value :=
  let (before, callee, after) := f.flatten
  let args := before ++ args ++ after
  match callee with
  | .closure code captured =>
    X.frame .return (Evaluation.callScope captured) Evaluation.resultOf
      (Evaluation.body (m [.return]) code args)
  | .native n => Evaluation.callNative (m rs) n args

end Evaluator

/-- The machine of a limit, where the registers `rs` can be seen. -/
def machine (X : Exits) : (n : Nat) → (rs : List Register) → Machine
  | 0, _ => Tale.machine 0
  | n + 1, rs =>
    { turns := n + 1
      resolve := Run.resolve
      eval := expression X (machine X n) rs
      call := call X (machine X n) rs }

end Exits

/-! ## Code that follows a rule -/

def StatementShape.parts {ι : Type} : StatementShape ι → List (Expr ι)
  | .declare ds => ds.flatMap fun d => d.initial.toList
  | .expression e => [e]
  | .leave _ e => [e]
  | .set _ e => [e]
  | .continue => []

def StatementShape.register? {ι : Type} : StatementShape ι → Option Register
  | .leave r _ => some r
  | .set r _ => some r
  | _ => none

/-- What is evaluated in a call of a function. -/
def FunctionExpr.parts {ι : Type} (f : FunctionExpr ι) : List (Expr ι) :=
  (f.parameters.flatMap fun p => p.fallback.toList) ++ [f.body]

/-- What expressions follow, which registers they use where some registers can be seen, and where
their gotos lead. -/
structure Rule where
  expr : List Register → Expr Nat → Prop
  register : List Register → Register → Prop
  targets : List String → Prop
  part {rs : List Register} {e e' : Expr Nat} (h : expr rs e) (hm : e' ∈ e.shape.parts) : expr rs e'
  block {rs : List Register} {ss : List (Statement Nat)} {location : Option Location}
    (h : expr rs ⟨.block ss, location⟩) (s : Statement Nat) (hs : s ∈ ss) :
    (∀ e ∈ s.shape.parts, expr (.yield :: rs) e)
      ∧ ∀ r ∈ s.shape.register?, register (.yield :: rs) r
  loop {rs : List Register} {b a : Option (Expr Nat)} {c : Expr Nat} {location : Option Location}
    (h : expr rs ⟨.loop b c a, location⟩) (e : Expr Nat) (he : e ∈ b.toList ++ c :: a.toList) :
    expr (.break :: rs) e
  function {rs : List Register} {f : FunctionExpr Nat} {location : Option Location}
    (h : expr rs ⟨.function f, location⟩) (e : Expr Nat) (he : e ∈ f.parts) : expr [.return] e
  goto {rs : List Register} {names : List String} {location : Option Location}
    (h : expr rs ⟨.goto names, location⟩) : targets names

namespace Rule

variable (rule : Rule)

def Statement (rs : List Register) (s : Statement Nat) : Prop :=
  (∀ e ∈ s.shape.parts, rule.expr rs e) ∧ ∀ r ∈ s.shape.register?, rule.register rs r

def norm : Norm where
  code f _ := ∀ e ∈ f.parts, rule.expr [.return] e
  targets := rule.targets

end Rule

/-- A rule for code, the causes that a fault can have in spite of it, and how far two worlds can
differ when something was left. -/
structure Scheme where
  rule : Rule
  causes : Fault.Cause → Prop
  ordinary {cause : Fault.Cause} (h : cause.Ordinary) : causes cause
  unknown (name : String) : causes (.unknownVariable name)
  left : Register → World → World → Prop

/-- The regime within a stack of frames. Only what there is a frame of can be left. -/
def Scheme.regime (K : Scheme) (fs : List (Option Register)) : Regime where
  norm := K.rule.norm
  frame ss := kinds ss = fs
  typed := False
  causes := K.causes
  ordinary := K.ordinary
  leaves r := some r ∈ fs
  left := K.left

/-- Each way out does what setting the register and sending the signal does, and each frame what
the usual frame does, as far as the scheme tells. -/
structure Exits.Respects (X : Exits) (K : Scheme) : Prop where
  leave (fs : List (Option Register)) (r : Register) (v : Value)
    (hr : K.rule.register (sinceCall fs) r) (hv : v.Meets K.rule.norm) :
    (K.regime fs).Links (fun _ => True) (X.leave (sinceCall fs) r v) (Run.leave r v)
  set (fs : List (Option Register)) (r : Register) (v : Value)
    (hr : K.rule.register (sinceCall fs) r) (hv : v.Meets K.rule.norm) :
    (K.regime fs).Links (fun _ => True) (X.set (sinceCall fs) r v) (Run.setRegister r v)
  frame {α : Type} (fs : List (Option Register)) (r : Register) (scope : Scope)
    (finish : α → Scope → Value) (V : α → Prop) (x y : Run α)
    (hs : scope.register = some (r, .null))
    (hf : ∀ a s, V a → (∀ r, (s.held r).Meets K.rule.norm) → (finish a s).Meets K.rule.norm)
    (h : (K.regime (some r :: fs)).Links V x y) :
    (K.regime fs).Links (·.Meets K.rule.norm) (X.frame r scope finish x)
      (Run.frame r scope finish y)

/-! ## Scopes that can be left -/

section Scopes

variable {K : Scheme} {fs : List (Option Register)} {k : Option Register} {w : World}
  {r : Register} {v : Value}

theorem kinds_setRegister {ss ss' : List Scope} (h : World.setRegister r v ss = some ss') :
    kinds ss' = kinds ss := by
  have ho := congrArg (List.map Outline.register) (outline_setRegister h)
  simpa [kinds, Scope.outline, Function.comp_def] using ho

/-- A register is found if and only if there is a frame of its kind. -/
theorem setRegister_isSome : ∀ {ss : List Scope},
    (World.setRegister r v ss).isSome = true ↔ some r ∈ kinds ss
  | [] => by simp [World.setRegister, kinds]
  | s :: ss => by
    have ih := @setRegister_isSome ss
    have hs : s.hasRegister r = true ↔ some r = s.register.map (·.1) := by
      rw [Scope.hasRegister_iff, Scope.outline, eq_comm]
    rw [kinds, List.map_cons, List.mem_cons, ← hs, ← kinds, World.setRegister]
    by_cases hr : s.hasRegister r = true
    · rw [if_pos hr]
      exact iff_of_true rfl (.inl hr)
    · rw [if_neg hr, Option.isSome_map, ih]
      exact (or_iff_right hr).symm

theorem mem_setRegister : ∀ {ss ss' : List Scope}, World.setRegister r v ss = some ss' →
    ∀ s ∈ ss', s ∈ ss ∨ s.register = some (r, v)
  | [], _, h => by cases h
  | s :: ss, ss', h => by
    rw [World.setRegister] at h
    split at h
    · cases h
      intro t ht
      rcases List.mem_cons.mp ht with rfl | ht
      · exact .inr rfl
      · exact .inl (.tail _ ht)
    · obtain ⟨tt, htt, rfl⟩ := Option.map_eq_some_iff.mp h
      intro t ht
      rcases List.mem_cons.mp ht with rfl | ht
      · exact .inl (.head _)
      · exact (mem_setRegister htt t ht).imp (.tail _) id

namespace Regime.Fit

theorem setRegister {ss : List Scope} (h : (K.regime fs).Fit w) (hv : v.Meets K.rule.norm)
    (hs : World.setRegister r v w.scopes = some ss) :
    (K.regime fs).Fit { w with scopes := ss } := by
  refine ⟨(kinds_setRegister hs).trans h.frame, nofun, h.cells, fun s hm r' v' hr => ?_, h.pinned⟩
  rcases mem_setRegister hs s hm with hm | hm
  · exact h.registers s hm r' v' hr
  · rw [hm] at hr
    cases hr
    exact hv

theorem push {s : Scope} (h : (K.regime fs).Fit w) (hs : s.register = some (r, .null)) :
    (K.regime (some r :: fs)).Fit { w with scopes := s :: w.scopes } := by
  refine ⟨?_, nofun, h.cells, fun t hm r' v' hr => ?_, h.pinned⟩
  · have hk : kinds w.scopes = fs := h.frame
    rw [← hk]
    simp only [Scheme.regime, kinds, List.map_cons, hs, Option.map_some]
  · rcases List.mem_cons.mp hm with rfl | hm
    · rw [hs] at hr
      cases hr
      trivial
    · exact h.registers t hm r' v' hr

theorem pop (h : (K.regime (k :: fs)).Fit w) :
    (K.regime fs).Fit { w with scopes := w.scopes.tail } := by
  refine ⟨?_, nofun, h.cells, fun s hm => h.registers s (List.mem_of_mem_tail hm), h.pinned⟩
  have hk : kinds w.scopes = k :: fs := h.frame
  simp only [Scheme.regime, kinds, List.map_tail]
  rw [← kinds, hk, List.tail_cons]

end Regime.Fit

theorem setRegister_links (hc : some r ∈ fs ∨ K.causes (.unknownRegister r))
    (hv : v.Meets K.rule.norm) :
    (K.regime fs).Links (fun _ => True) (Run.setRegister r v) (Run.setRegister r v) := by
  refine Linked.get_bind fun w hw => ?_
  rcases hs : World.setRegister r v w.scopes with _ | ss
  · refine Linked.throw (fun _ => nofun) fun w' hw' => ⟨hc.resolve_left fun hr => ?_, hw' ▸ hw⟩
    have hk : kinds w.scopes = fs := hw.frame
    rw [← hk, ← @setRegister_isSome r v, hs] at hr
    cases hr
  · refine Linked.modify (fun w' hw' => ?_) fun w' => .refl w'
    subst hw'
    exact ⟨trivial, hw.setRegister hv hs⟩

theorem leave_apply : Run.leave r v w =
    match World.setRegister r v w.scopes with
    | some scopes => .error (.signal (.leave r)) { w with scopes }
    | none => Run.fail (.unknownRegister r) none w := by
  have hw : (get : Run World) w = .ok w w := rfl
  simp only [Run.leave, Run.setRegister, Bind.bind, EStateM.bind, hw]
  cases World.setRegister r v w.scopes <;> rfl

/-- What is left in the usual way is left alike if nothing can tell it apart. -/
theorem leave_links (hl : ∀ w, K.left r w w) (hc : some r ∈ fs ∨ K.causes (.unknownRegister r))
    (hv : v.Meets K.rule.norm) :
    (K.regime fs).Links (fun _ => True) (Run.leave r v) (Run.leave r v) := by
  intro w hw
  have hk : kinds w.scopes = fs := hw.frame
  have hr : (World.setRegister r v w.scopes).isSome = true ↔ some r ∈ fs :=
    hk ▸ setRegister_isSome
  rw [leave_apply]
  rcases hs : World.setRegister r v w.scopes with _ | ss <;> rw [hs] at hr
  · have hc : K.causes (.unknownRegister r) := hc.resolve_left fun h => nomatch hr.mpr h
    exact .error (.refl w) ⟨hc, hw⟩ fun _ => nofun
  · exact .left (.refl w) ⟨hr.mp rfl, hw.setRegister hv hs⟩ (hl _)

/-- The usual frames, where two worlds never differ. -/
theorem frame_links {α : Type} {scope : Scope} {finish : α → Scope → Value} {V : α → Prop}
    {x y : Run α} (hl : ∀ r v w, K.left r v w ↔ v = w) (hs : scope.register = some (r, .null))
    (hf : ∀ a s, V a → (∀ r, (s.held r).Meets K.rule.norm) → (finish a s).Meets K.rule.norm)
    (h : (K.regime (some r :: fs)).Links V x y) :
    (K.regime fs).Links (·.Meets K.rule.norm) (Run.frame r scope finish x)
      (Run.frame r scope finish y) := by
  intro w hw
  have hxy := h _ (hw.push hs)
  rw [Run.frame_apply, Run.frame_apply]
  generalize x { w with scopes := scope :: w.scopes } = o,
    y { w with scopes := scope :: w.scopes } = o' at hxy
  cases hxy with
  | ok grows value => exact .ok grows ⟨hf _ _ value.1 value.2.held, value.2.pop⟩
  | @error e w' grows stop notLeft =>
    rcases e with f | (r' | _) | c | _
    · exact .error grows ⟨stop.1, stop.2.pop⟩ notLeft
    · exact absurd rfl (notLeft r')
    · exact .error grows ⟨trivial, stop.2.pop⟩ notLeft
    · exact .error grows ⟨trivial, stop.2.pop⟩ notLeft
    · exact .error grows ⟨trivial, stop.2.pop⟩ notLeft
  | @left r' _ w' grows stop related =>
    obtain rfl := (hl _ _ _).mp related
    simp only []
    split
    · exact .ok grows ⟨stop.2.held r, stop.2.pop⟩
    · rename_i hr
      refine .left grows ⟨(List.mem_cons.mp stop.1).resolve_left fun h => ?_, stop.2.pop⟩
        ((hl _ _ _).mpr rfl)
      exact hr (Option.some.inj h)

end Scopes

/-! ## The evaluators compared -/

section Links

variable {X : Exits} {K : Scheme} (hX : X.Respects K) {fs : List (Option Register)}
  {M : List Register → Machine} {m m' : Machine}

theorem kinds_declare (w : World) (name : String) (bound : TypeBound) (v : Value) :
    kinds (w.declare name bound v).scopes = kinds w.scopes := by
  rw [World.declare]
  rcases w.scopes with _ | ⟨s, ss⟩ <;> rfl

theorem Regime.Fit.declare {w : World} {name : String} {bound : TypeBound} {v : Value}
    (h : (K.regime fs).Fit w) (hv : v.Meets K.rule.norm) :
    (K.regime fs).Fit (w.declare name bound v) := by
  refine ⟨(kinds_declare w name bound v).trans h.frame, False.elim, fun a x hx => ?_,
    fun s hs => ?_, h.pinned⟩
  · simp only [World.declare, Array.getElem?_push] at hx
    split at hx
    · cases hx
      exact hv
    · exact h.cells a x hx
  · rcases hw : w.scopes with _ | ⟨t, ts⟩ <;> simp only [World.declare, hw] at hs
    · cases hs
    · rcases List.mem_cons.mp hs with rfl | hs
      · exact h.registers t (hw ▸ .head _)
      · exact h.registers s (hw ▸ .tail _ hs)

theorem declare_links {name : String} {bound : TypeBound} {v : Value}
    (hv : v.Meets K.rule.norm) : (K.regime fs).Links (fun _ => True)
      (modify (·.declare name bound v)) (modify (·.declare name bound v)) :=
  Linked.modify (fun _ hw => ⟨trivial, hw.declare hv⟩) fun w => w.onward_declare name bound v

theorem declaration_links {location : Option Location} {d : Declaration Nat}
    (hd : ∀ e ∈ d.initial.toList, (K.regime fs).Evals m m' e) :
    (K.regime fs).Links (fun _ => True) (Evaluation.declare m location d)
      (Evaluation.declare m' location d) := by
  have declared : ∀ v, v.Meets K.rule.norm → (K.regime fs).Links (fun _ => True)
      (do
        if !d.bound.accepts v.type then
          Run.fail (.declared d.name (d.bound.getD []) v) location
        modify (·.declare d.name d.bound v))
      (do
        if !d.bound.accepts v.type then
          Run.fail (.declared d.name (d.bound.getD []) v) location
        modify (·.declare d.name d.bound v)) := fun v hv =>
    Linked.guard (fun _ => nofun) (fun _ hw => ⟨K.ordinary trivial, hw⟩) fun _ => declare_links hv
  simp only [Evaluation.declare]
  rcases hi : d.initial with _ | e
  · exact .bind Evaluation.initialValue_links declared
  · exact .bind (hd e (hi ▸ .head _)) declared

theorem declareAll_links {location : Option Location} : ∀ (ds : List (Declaration Nat)),
    (∀ e ∈ ds.flatMap fun d => d.initial.toList, (K.regime fs).Evals m m' e) →
      (K.regime fs).Links (fun _ => True) (Evaluation.declareAll m location ds)
        (Evaluation.declareAll m' location ds)
  | [], _ => .pure trivial
  | d :: ds, h => by
    simp only [List.flatMap_cons, List.mem_append] at h
    exact .bind (declaration_links fun e he => h e (.inl he)) fun _ _ =>
      declareAll_links ds fun e he => h e (.inr he)

/-- In each place that can be left, the machine evaluates like the usual one whatever follows the
rule there, and calls like it. -/
structure Exits.Agrees (K : Scheme) (M : List Register → Machine) (m : Machine) : Prop where
  calls (fs : List (Option Register)) : (K.regime fs).Calls (M (sinceCall fs)) m
  evals (fs : List (Option Register)) (e : Expr Nat) (he : K.rule.expr (sinceCall fs) e) :
    (K.regime fs).Evals (M (sinceCall fs)) m e
  finds (fs : List (Option Register)) (name : String) :
    (K.regime fs).Finds (M (sinceCall fs)) m name

variable (hm : Exits.Agrees K M m)

include hX hm in
theorem statement_links {s : Statement Nat} (hs : K.rule.Statement (sinceCall fs) s) :
    (K.regime fs).Links (fun _ => True) (X.statement M (sinceCall fs) s)
      (Evaluation.statement m s) := by
  have hp : ∀ e ∈ s.shape.parts, (K.regime fs).Evals (M (sinceCall fs)) m e :=
    fun e he => hm.evals fs e (hs.1 e he)
  obtain ⟨shape, location⟩ := s
  cases shape with
  | declare ds => exact declareAll_links ds hp
  | expression e => exact .bind (hp e (.head _)) fun _ _ => .pure trivial
  | leave r e => exact .bind (hp e (.head _)) fun v hv => hX.leave fs r v (hs.2 r rfl) hv
  | set r e => exact .bind (hp e (.head _)) fun v hv => hX.set fs r v (hs.2 r rfl) hv
  | «continue» => exact .throw (fun _ => nofun) trivial

include hX hm in
theorem statements_links : ∀ (ss : List (Statement Nat)),
    (∀ s ∈ ss, K.rule.Statement (sinceCall fs) s) →
      (K.regime fs).Links (fun _ => True) (X.statements M (sinceCall fs) ss)
        (Evaluation.statements m ss)
  | [], _ => .pure trivial
  | s :: ss, h => by
    simp only [List.mem_cons, forall_eq_or_imp] at h
    exact .bind (statement_links hX hm h.1) fun _ _ => statements_links ss h.2

/-! ### Calls -/

theorem declareParameters_links {args : List Value} (ha : ∀ v ∈ args, v.Meets K.rule.norm) :
    ∀ (ps : List (Parameter Nat)) (i : Nat),
      (∀ e ∈ ps.flatMap fun p => p.fallback.toList, (K.regime fs).Evals m m' e) →
        (K.regime fs).Links (fun _ => True) (Evaluation.declareParameters m args i ps)
          (Evaluation.declareParameters m' args i ps)
  | [], _, _ => .pure trivial
  | p :: ps, i, h => by
    simp only [List.flatMap_cons, List.mem_append] at h
    refine .bind (Evaluation.parameterValue_links (meets_getD ha i) fun e he => h e (.inl he))
      fun v hv => ?_
    refine Linked.guard (fun _ => nofun) (fun _ hw => ⟨trivial, hw⟩) fun _ => ?_
    exact Regime.Links.bind (declare_links hv) fun _ _ =>
      declareParameters_links ha ps (i + 1) fun e he => h e (.inr he)

theorem declareRest_links {args : List Value} (ha : ∀ v ∈ args, v.Meets K.rule.norm)
    {code : FunctionExpr Nat} : (K.regime fs).Links (fun _ => True)
      (Evaluation.declareRest args code) (Evaluation.declareRest args code) := by
  unfold Evaluation.declareRest
  split
  · exact declare_links (Value.meets_list.mpr fun v hv => ha v (List.mem_of_mem_drop hv))
  · exact .pure trivial

theorem body_links {code : FunctionExpr Nat} {args : List Value}
    (ha : ∀ v ∈ args, v.Meets K.rule.norm)
    (hc : ∀ e ∈ code.parts, (K.regime fs).Evals m m' e) :
    (K.regime fs).Links (·.Meets K.rule.norm) (Evaluation.body m code args)
      (Evaluation.body m' code args) := by
  refine .bind (declareParameters_links ha code.parameters 0 fun e he => ?_) fun _ _ =>
    .bind (declareRest_links ha) fun _ _ => hc code.body ?_
  · exact hc e (List.mem_append_left _ he)
  · exact List.mem_append_right _ (.head _)

include hX hm in
theorem call_links {f : Function} {args : List Value} (hf : f.Meets K.rule.norm)
    (ha : ∀ v ∈ args, v.Meets K.rule.norm) :
    (K.regime fs).Links (·.Meets K.rule.norm) (X.call M (sinceCall fs) f args)
      (Evaluation.call m f args) := by
  have hs := hf.callee ha
  simp only [Exits.call, Evaluation.call]
  generalize f.flatten = flat at hs ⊢
  obtain ⟨before, callee, after⟩ := flat
  obtain ⟨hs, hargs⟩ := hs
  cases callee with
  | closure code captured =>
    simp only [Evaluation.callClosure_eq]
    refine hX.frame fs .return _ _ (·.Meets K.rule.norm) _ _
      (Evaluation.callScope_register captured) (fun v s hv hs => ?_)
      (body_links hargs fun e he => hm.evals (some .return :: fs) e (hs e he))
    rw [Evaluation.resultOf]
    split
    · exact hv
    · exact hs .return
  | native f => exact Evaluation.callNative_links (hm.calls fs) hargs

/-! ### Expressions -/

include hX hm in
theorem expression_links {e : Expr Nat} (he : K.rule.expr (sinceCall fs) e) :
    (K.regime fs).Links (·.Meets K.rule.norm) (X.expression M (sinceCall fs) e)
      (Evaluation.expression m e) := by
  obtain ⟨shape, location⟩ := e
  cases shape with
  | block ss =>
    simp only [Exits.expression, Evaluation.expression, Evaluation.leaving_eq]
    have h : (K.regime (some .yield :: fs)).Links (fun _ => True)
        (X.statements M (.yield :: sinceCall fs) ss) (Evaluation.statements m ss) :=
      statements_links hX hm ss (K.rule.block he)
    exact hX.frame fs .yield (.holding .yield) _ (fun _ => True) _ _ rfl
      (fun _ s _ hs => hs .yield) h
  | loop b c a =>
    have h := K.rule.loop he
    simp only [Exits.expression, Evaluation.expression, Evaluation.leaving_eq, (hm.calls fs).turns]
    have hp : ∀ e ∈ b.toList ++ c :: a.toList,
        (K.regime (some .break :: fs)).Evals (M (.break :: sinceCall fs)) m e :=
      fun e he => hm.evals (some .break :: fs) e (h e he)
    refine hX.frame fs .break (.holding .break) _ (fun _ => True) _ _ rfl
      (fun _ s _ hs => hs .break)
      (Evaluation.rounds_links (hp c ?_) (fun e he => hp e ?_) (fun e he => hp e ?_) _ _)
    · exact List.mem_append_right _ (.head _)
    · exact List.mem_append_left _ he
    · exact List.mem_append_right _ (.tail _ he)
  | _ =>
    refine Evaluation.expression_links (hm.calls fs) (fun e' h => hm.evals fs e' (K.rule.part he h))
      (fun x _ => hm.finds fs x) (fun f _ hs _ => ?_) (fun names hs => ?_) rfl
    · cases hs <;> exact K.rule.function he
    · cases hs <;> exact K.rule.goto he

theorem resolve_links {name : String} :
    (K.regime fs).Links (fun _ => True) (Run.resolve name) (Run.resolve name) := by
  refine .get_bind fun w _ => ?_
  split
  · exact .pure trivial
  · exact .throw (fun _ => nofun) (K.unknown name)

include hX in
theorem Exits.machine_agrees : ∀ n, Exits.Agrees K (X.machine n) (Tale.machine n)
  | 0 =>
    { calls _ := ⟨rfl, fun _ _ _ _ => .throw (fun _ => nofun) trivial⟩
      evals _ _ _ := .throw (fun _ => nofun) trivial
      finds _ _ := resolve_links }
  | n + 1 =>
    { calls _ := ⟨rfl, fun _ _ hf ha => call_links hX (machine_agrees n) hf ha⟩
      evals _ _ he := expression_links hX (machine_agrees n) he
      finds _ _ := resolve_links }

end Links

/-! ## Stories -/

section Stories

variable {X : Exits} {K : Scheme}

def Rule.Story (rule : Rule) (story : Story Nat) : Prop :=
  (∀ s ∈ story.init, rule.Statement [] s)
    ∧ ∀ x ∈ story.sections, (∀ e ∈ x.executes.toList, rule.expr [] e) ∧ rule.expr [] x.next

/-- Outside of all that can be left there are the scopes of the story and of the library. -/
def outside : List (Option Register) :=
  [none, none]

theorem not_leaves_outside (r : Register) : ¬ (K.regime outside).leaves r := by
  intro h
  rcases List.mem_cons.mp h with h | h
  · cases h
  · cases List.mem_singleton.mp h

/-- Where nothing can be left, what two computations have in common holds of the second alone. -/
theorem links_right {V : α → Prop} {x y : Run α} (h : (K.regime outside).Links V x y) :
    (K.regime outside).Links V y y := by
  intro w hw
  have hxy := h w hw
  generalize x w = o, y w = o' at hxy
  cases hxy with
  | ok grows value => exact .ok grows value
  | error grows stop notLeft => exact .error grows stop notLeft
  | left grows stop related => exact absurd stop.1 (not_leaves_outside _)

theorem initial_fit (random : Random) (provider : Provider) :
    (K.regime outside).Fit (World.initial random provider) := by
  refine ⟨rfl, nofun, fun a x hx => ?_, fun s hs r v hr => ?_, fun _ => nofun⟩
  · simp only [World.initial, List.getElem?_toArray, List.getElem?_map,
      Option.map_eq_some_iff] at hx
    obtain ⟨f, -, rfl⟩ := hx
    trivial
  · rcases List.mem_cons.mp hs with rfl | hs
    · cases hr
    · cases List.mem_singleton.mp hs
      cases hr

variable {M : List Register → Machine} {m : Machine}

/-- Where nothing can be left, the usual ways out do as well as any. -/
theorem initialStatement_links (hX : X.Respects K) (hm : Exits.Agrees K M m) {s : Statement Nat}
    (hs : K.rule.Statement [] s) : (K.regime outside).Links (fun _ => True)
      (Evaluation.statement (M []) s) (Evaluation.statement m s) := by
  have hp : ∀ e ∈ s.shape.parts, (K.regime outside).Evals (M []) m e :=
    fun e he => hm.evals outside e (hs.1 e he)
  obtain ⟨shape, location⟩ := s
  cases shape with
  | declare ds => exact declareAll_links ds hp
  | expression e => exact .bind (hp e (.head _)) fun _ _ => .pure trivial
  | leave r e =>
    exact .bind (hp e (.head _)) fun v hv => links_right (hX.leave outside r v (hs.2 r rfl) hv)
  | set r e =>
    exact .bind (hp e (.head _)) fun v hv => links_right (hX.set outside r v (hs.2 r rfl) hv)
  | «continue» => exact .throw (fun _ => nofun) trivial

theorem initial_links (hX : X.Respects K) (hm : Exits.Agrees K M m) :
    ∀ (ss : List (Statement Nat)), (∀ s ∈ ss, K.rule.Statement [] s) →
      (K.regime outside).Links (fun _ => True) (Evaluation.statements (M []) ss)
        (Evaluation.statements m ss)
  | [], _ => .pure trivial
  | s :: ss, h => by
    simp only [List.mem_cons, forall_eq_or_imp] at h
    exact .bind (initialStatement_links hX hm h.1) fun _ _ => initial_links hX hm ss h.2

/-- A story that follows the rule is told alike with all ways out that respect the scheme. -/
theorem Exits.run_alike (hX : X.Respects K) {story : Story Unit} (h : K.rule.Story story.labelled)
    (hk : ∀ names, K.rule.targets names → ∀ name ∈ names, story.labelled.section? name = none →
      K.causes (.unknownSection name)) (seed : String) (provider : Provider) (limit : Nat)
    (calls : List (Option Nat)) :
    let t := Telling.ofStory story seed provider limit
    let m := X.machine limit []
    (t.withMachine m).run calls = ((t.run calls).1, (t.run calls).2.withMachine m)
      ∧ ∀ a ∈ (t.run calls).1, (K.regime outside).Known a := by
  intro t m
  have hm := Exits.machine_agrees hX limit
  have hs : (K.regime outside).Serves m (Tale.machine limit) fun x =>
      (∀ e ∈ x.executes.toList, K.rule.expr [] e) ∧ K.rule.expr [] x.next :=
    { calls := hm.calls outside
      enters x hx :=
        { executes e he := hm.evals outside e (hx.1 e he)
          next := hm.evals outside x.next hx.2
          names k _ p _ := hm.finds outside p.variableName }
      even r _ _ hr _ := absurd hr (not_leaves_outside r) }
  refine Regime.run_alike hs calls ⟨⟨rfl, initial_fit _ _, fun x hx => ?_, ⟨h.2, hk⟩⟩,
    fun _ => ?_, fun _ => nofun⟩
  · exact h.2 x (List.mem_of_mem_head? (Option.mem_toList.mp hx))
  · exact initial_links hX hm story.labelled.init h.1

end Stories

end Tale
