import Tale.Proofs.Natives

/-!
# Evaluation keeps worlds fit

If two machines agree on the parts of an expression, one step of its evaluation is the same with
both and keeps whatever they keep; so do calls. By induction on the limit, all evaluations and
calls keep the outline of the world, the types of its cells, and that in code of a document no
name is unknown (`machine_agree`).
-/

namespace Tale

section Within

variable {Γ : List String} {e e' : Expr Nat}

theorem optionWithin.mem {d : Option (Expr Nat)} (hd : optionWithin Γ d) (h : e ∈ d.toList) :
    e.Within Γ := by
  rw [Option.mem_toList] at h
  subst h
  exact optionWithin_some.mp hd

theorem elementsWithin.mem : ∀ {es : List (Element Nat)}, elementsWithin Γ es →
    e ∈ es.map Element.expr → e.Within Γ
  | .item _ :: _, hs, h => by
    have hs := elementsWithin_item.mp hs
    rcases List.mem_cons.mp h with rfl | h
    · exact hs.1
    · exact elementsWithin.mem hs.2 h
  | .spread _ _ :: _, hs, h => by
    have hs := elementsWithin_spread.mp hs
    rcases List.mem_cons.mp h with rfl | h
    · exact hs.1
    · exact elementsWithin.mem hs.2 h

theorem casesWithin.mem : ∀ {cs : List (SwitchCase Nat)}, casesWithin Γ cs →
    e ∈ cs.flatMap SwitchCase.exprs → e.Within Γ
  | c :: cs, hs, h => by
    have hs := casesWithin_cons.mp hs
    simp only [List.flatMap_cons, SwitchCase.exprs, List.cons_append, List.nil_append,
      List.mem_cons] at h
    rcases h with rfl | rfl | h
    · exact hs.1
    · exact hs.2.1
    · exact casesWithin.mem hs.2.2 h

theorem Expr.Within.part (he : e.Within Γ) (h : e' ∈ e.shape.parts) : e'.Within Γ := by
  obtain ⟨shape, location⟩ := e
  cases shape <;> simp only [Shape.parts, List.mem_cons, List.not_mem_nil, or_false,
    List.mem_append] at h
  case binary op l r =>
    have hw := Expr.within_binary.mp he
    rcases h with rfl | rfl
    · exact hw.1
    · exact hw.2
  case unary op e =>
    subst h
    exact Expr.within_unary.mp he
  case conditional c y n =>
    have hw := Expr.within_conditional.mp he
    rcases h with rfl | rfl | rfl
    · exact hw.1
    · exact hw.2.1
    · exact hw.2.2
  case selection e =>
    subst h
    exact Expr.within_selection.mp he
  case choice t a =>
    have hw := Expr.within_choice.mp he
    rcases h with rfl | rfl
    · exact hw.1
    · exact hw.2
  case list es => exact elementsWithin.mem (Expr.within_list.mp he) h
  case switch e cs d =>
    have hw := Expr.within_switch.mp he
    rcases h with rfl | h | h
    · exact hw.1
    · exact casesWithin.mem hw.2.1 h
    · exact optionWithin.mem hw.2.2 h
  case cond c y n =>
    have hw := Expr.within_cond.mp he
    rcases h with rfl | rfl | h
    · exact hw.1
    · exact hw.2.1
    · exact optionWithin.mem hw.2.2 h

theorem Expr.Within.lookup (he : e.Within Γ) {name : String} (h : name ∈ e.shape.lookups) :
    name ∈ Γ := by
  obtain ⟨shape, location⟩ := e
  rw [Shape.lookups.eq_def] at h
  split at h
  · rename_i x hs
    cases hs
    rw [List.mem_singleton.mp h]
    exact Expr.within_reference.mp he
  · rename_i f hs
    cases hs
    exact (Expr.within_function.mp he).1 h
  · rename_i hs
    cases hs
    rw [List.mem_singleton.mp h]
    exact Expr.within_reference.mp (Expr.within_binary.mp he).1
  · cases h

end Within

namespace Evaluation

variable {α : Type} {c : Care} {os : List Outline} {m m' : Machine}

theorem evals_of_agreeAt {seen : List String} (hm : m.AgreeAt c os seen m') {e : Expr Nat}
    (he : c.read → e.Within seen) : (c.regime os).Evals m m' e :=
  keeps_value_iff.mp (hm.eval e he)

theorem evals_of_agree (hm : m.Agree c m') {e : Expr Nat} (he : c.read → e.Within (reach os)) :
    (c.regime os).Evals m m' e :=
  evals_of_agreeAt (hm.at os) he

theorem finds_of_agree (hm : m.Agree c m') {name : String} (hn : c.read → name ∈ reach os) :
    (c.regime os).Finds m m' name :=
  keeps_iff.mp (hm.resolve os name hn)

theorem evals_of_option {seen : List String} (hm : m.AgreeAt c os seen m')
    {d : Option (Expr Nat)} (hd : c.read → optionWithin seen d) :
    ∀ e ∈ d.toList, (c.regime os).Evals m m' e :=
  fun _ he => evals_of_agreeAt hm fun hr => (hd hr).mem he

/-! ## Statements -/

section Statements

variable {r : Option Register} {xs further : List String} {location : Option Location}

theorem initialValue_keeps {bound : TypeBound} :
    Keeps c os c.Admits (initialValue bound location) (initialValue bound location) :=
  keeps_value_iff.mpr initialValue_links

variable (hm : m.AgreeIn c os r further m')

include hm in
theorem eval_inFit {e : Expr Nat} (he : c.read → e.Within (xs ++ further)) :
    Agree (World.FitIn c os r xs) (m.eval e) (m'.eval e)
      (fun v w => c.Admits v ∧ w.FitIn c os r xs) (Stop.FitIn c os r) := by
  refine Keeps.inFit fun ns hn => (hm ns).eval e fun hr => ?_
  rw [hn]
  exact he hr

omit hm in
theorem checkedDeclare_extends {d : Declaration Nat} {v : Value} (hv : c.Admits v) :
    Extends c os r xs (d.name :: xs)
      (do
        if !d.bound.accepts v.type then
          Run.fail (.declared d.name (d.bound.getD []) v) location
        modify (·.declare d.name d.bound v))
      (do
        if !d.bound.accepts v.type then
          Run.fail (.declared d.name (d.bound.getD []) v) location
        modify (·.declare d.name d.bound v)) := by
  refine Agree.guard (fun w hw => ⟨fun _ _ => nofun, xs, hw⟩) fun ht => ?_
  exact Extends.declare (fun _ => by simpa using ht) hv

include hm in
theorem declare_extends {d : Declaration Nat}
    (hd : c.read → optionWithin (xs ++ further) d.initial) :
    Extends c os r xs (d.name :: xs) (declare m location d) (declare m' location d) := by
  simp only [declare]
  split
  · refine Agree.bind (eval_inFit hm fun hr => ?_) fun v =>
      Agree.of_and fun hv => checkedDeclare_extends hv
    rw [‹d.initial = _›] at hd
    exact optionWithin_some.mp (hd hr)
  · exact Agree.bind (Keeps.inFit fun _ _ => initialValue_keeps) fun v =>
      Agree.of_and fun hv => checkedDeclare_extends hv

include hm in
theorem declareAll_extends : ∀ (ds : List (Declaration Nat)) {xs : List String},
    (c.read → declarationsWithin (xs ++ further) ds) →
      Extends c os r xs ((ds.map (·.name)).reverse ++ xs) (declareAll m location ds)
        (declareAll m' location ds)
  | [], xs, _ => Agree.pure fun _ hw => hw
  | d :: ds, xs, hd => by
    have hd' := fun hr => declarationsWithin_cons.mp (hd hr)
    rw [List.map_cons, List.reverse_cons, List.append_assoc]
    exact Agree.bind (declare_extends hm fun hr => (hd' hr).1) fun _ =>
      declareAll_extends ds fun hr => (hd' hr).2

include hm in
theorem statement_extends {s : Statement Nat}
    (hs : c.read → s.shape.Within (xs ++ further)) :
    Extends c os r xs (s.shape.names.reverse ++ xs) (statement m s) (statement m' s) := by
  obtain ⟨shape, location⟩ := s
  cases shape with
  | declare ds => exact declareAll_extends hm ds hs
  | expression e =>
    exact Agree.bind (eval_inFit hm hs) fun _ => Agree.pure fun _ hw => hw.2
  | leave r' e =>
    refine Agree.bind (eval_inFit hm hs) fun v => Agree.of_and fun hv =>
      Agree.bind (Keeps.inFit fun _ _ => Keeps.setRegister hv) fun _ => Agree.throw fun w hw => ?_
    exact ⟨trivial, xs, hw.2⟩
  | set r' e =>
    exact Agree.bind (eval_inFit hm hs) fun v => Agree.of_and fun hv =>
      (Keeps.inFit fun _ _ => Keeps.setRegister hv).conseq (fun _ h => h) (fun _ _ h => h.2)
        fun _ _ h => h
  | «continue» => exact Agree.throw fun w hw => ⟨trivial, xs, hw⟩

include hm in
theorem statements_extends : ∀ (ss : List (Statement Nat)) {xs : List String},
    (c.read → statementsWithin (xs ++ further) ss) →
      Extends c os r xs ((ss.flatMap (·.shape.names)).reverse ++ xs) (statements m ss)
        (statements m' ss)
  | [], xs, _ => Agree.pure fun _ hw => hw
  | s :: ss, xs, hs => by
    have hs' := fun hr => statementsWithin_cons.mp (hs hr)
    rw [List.flatMap_cons, List.reverse_append, List.append_assoc]
    refine Agree.bind (statement_extends hm fun hr => (hs' hr).1) fun _ =>
      statements_extends ss fun hr => (hs' hr).2.mono ?_
    simp [List.subset_def]

theorem leaving_keeps {r : Register} {x y : Run Unit}
    (h : Agree (World.FitIn c os (some r) []) x y (fun _ w => ∃ zs, w.FitIn c os (some r) zs)
      (Stop.FitIn c os (some r))) : Keeps c os c.Admits (leaving r x) (leaving r y) := by
  refine .bind (Keeps.inScope (s := .holding r) (V := fun _ => True) ?_ ?_) fun p hp => ?_
  · rintro _ _ ⟨⟩ _
    trivial
  · exact h.conseq (fun _ h => h) (fun _ _ h => ⟨trivial, h⟩) fun _ _ h => h
  · obtain ⟨result, scope⟩ := p
    simp only []
    split
    · exact .pure (hp.2.2 r)
    · split
      · exact .pure (hp.2.2 r)
      · exact .throw trivial
    · exact .throw (hp.2.1 _ rfl)

end Statements

/-! ## Calls -/

section Calls

variable (hm : m.Agree c m') {code : FunctionExpr Nat} {args : List Value}
  (ha : ∀ v ∈ args, c.Admits v) {xs : List String}

theorem admits_getD (ha : ∀ v ∈ args, c.Admits v) (i : Nat) : c.Admits (args.getD i .null) :=
  Value.meets_iff.mp (meets_getD (fun v hv => Value.meets_iff.mpr (ha v hv)) i)

theorem parameterValue_keeps {seen : List String} (hm : m.AgreeAt c os seen m')
    {p : Parameter Nat} {i : Nat} {arg : Value} (hv : c.Admits arg)
    (hp : c.read → optionWithin seen p.fallback) :
    Keeps c os c.Admits (parameterValue m p i arg) (parameterValue m' p i arg) :=
  keeps_value_iff.mpr (parameterValue_links (Value.meets_iff.mpr hv) (evals_of_option hm hp))

include hm ha in
/-- Defaults are evaluated with only what the function keeps, and parameters before them, in
reach. -/
theorem declareParameters_extends : ∀ (ps : List (Parameter Nat)) (i : Nat) {xs : List String},
    (c.read → parametersWithin xs ps) →
      Extends c os (some .return) xs ((ps.map (·.name)).reverse ++ xs)
        (declareParameters m args i ps) (declareParameters m' args i ps)
  | [], _, _, _ => Agree.pure fun _ hw => hw
  | p :: ps, i, xs, h => by
    have h' := fun hr => parametersWithin_cons.mp (h hr)
    rw [List.map_cons, List.reverse_cons, List.append_assoc]
    refine Agree.bind
      (Keeps.inFit fun ns hn => parameterValue_keeps (hm.at _) (admits_getD ha i) ?_)
      fun v => Agree.of_and fun hv => ?_
    · intro hr
      rw [reach, hn, beyond, if_pos rfl, List.append_nil]
      exact (h' hr).1
    · refine Agree.guard (fun w hw => ⟨trivial, xs, hw⟩) fun _ => Agree.bind
        (Extends.declare (fun _ => ?_) hv) fun _ =>
          declareParameters_extends ps (i + 1) fun hr => (h' hr).2.mono (List.subset_cons_self _ _)
      simp [TypeBound.accepts]

include ha in
theorem declareRest_extends :
    Extends c os (some .return) xs (code.restName.toList.reverse ++ xs) (declareRest args code)
      (declareRest args code) := by
  unfold declareRest
  split
  · rename_i name hn
    rw [hn]
    refine Extends.declare (fun _ => by simp [TypeBound.accepts, Value.type]) fun hr => ?_
    exact Value.sound_list.mpr fun v hv => ha v (List.mem_of_mem_drop hv) hr
  · rename_i hn
    rw [hn]
    exact Agree.pure fun _ hw => hw

/-- The names a function is within are there when its body is evaluated. -/
theorem names_subset (hx : code.captures ⊆ xs) (further : List String) :
    code.names ++ code.captures
      ⊆ code.restName.toList.reverse ++ ((code.parameters.map (·.name)).reverse ++ xs)
        ++ further := by
  simp only [FunctionExpr.names, List.subset_def, List.mem_append, List.mem_reverse] at hx ⊢
  grind

include hm ha in
theorem body_agree (hc : c.read → code.Captured) (hx : c.read → code.captures ⊆ xs) :
    Agree (World.FitIn c os (some .return) xs) (body m code args) (body m' code args)
      (fun v w => c.Admits v ∧ ∃ zs, w.FitIn c os (some .return) zs)
      (Stop.FitIn c os (some .return)) := by
  refine Agree.bind (declareParameters_extends hm ha code.parameters 0 fun hr =>
    (hc hr).within.1.mono (hx hr)) fun _ => Agree.bind (declareRest_extends ha) fun _ =>
      (eval_inFit (hm.inside os _) fun hr => ?_).conseq (fun _ h => h)
        (fun _ _ h => ⟨h.1, _, h.2⟩) fun _ _ h => h
  exact (hc hr).within.2.mono (names_subset (hx hr) _)

theorem declareCaptured_eq : ∀ (captured : List (String × Address)) (s : Scope),
    captured.foldl (fun s (name, a) => s.declare name a) s
      = { s with names := captured.reverse ++ s.names }
  | [], s => by simp
  | (name, a) :: captured, s => by
    rw [List.foldl_cons, declareCaptured_eq captured]
    simp [Scope.declare]

/-- Runs the body of a function in the scope of a call. -/
def calling (captured : List (String × Address)) (x : Run Value) : Run Value := do
  let scope := captured.foldl (fun s (name, a) => s.declare name a) (.holding .return)
  let (result, scope) ← Run.inScope scope x
  let returned := scope.held .return
  match result with
  | .ok v => return if returned.isNull then v else returned
  | .error (.signal (.leave .return)) => return returned
  | .error e => throw e

/-- The scope of a call has a register for `return`, so nothing further out is in reach. -/
theorem calling_keeps {captured : List (String × Address)} {x y : Run Value}
    (h : Agree (World.FitIn c os (some .return) (captured.map (·.1)).reverse) x y
      (fun v w => c.Admits v ∧ ∃ zs, w.FitIn c os (some .return) zs)
      (Stop.FitIn c os (some .return))) :
    Keeps c os c.Admits (calling captured x) (calling captured y) := by
  simp only [calling, declareCaptured_eq]
  refine .bind (Keeps.inScope (V := c.Admits) ?_ ?_) fun p hp => ?_
  · rintro _ _ ⟨⟩ _
    trivial
  · simpa [Scope.outline, Scope.holding] using h
  · obtain ⟨result, scope⟩ := p
    simp only []
    split
    · split
      · exact .pure (hp.1 _ rfl)
      · exact .pure (hp.2.2 .return)
    · exact .pure (hp.2.2 .return)
    · exact .throw (hp.2.1 _ rfl)

include hm ha in
theorem callClosure_keeps {captured : List (String × Address)}
    (hf : c.read → (Function.closure code captured).Sound) :
    Keeps c os c.Admits (callClosure m code captured args)
      (callClosure m' code captured args) := by
  refine calling_keeps (body_agree hm ha (fun hr => (hf hr).1) fun hr => ?_)
  rw [← (hf hr).2]
  exact fun _ hx => List.mem_reverse.mpr hx

/-- Calls a function where closures are called in some way. -/
def callWith (closure : FunctionExpr Nat → List (String × Address) → List Value → Run Value)
    (m : Machine) (f : Function) (args : List Value) : Run Value :=
  let (before, callee, after) := f.flatten
  let args := before ++ args ++ after
  match callee with
  | .closure code captured => closure code captured args
  | .native n => callNative m n args

include ha in
theorem callWith_keeps
    {closure closure' : FunctionExpr Nat → List (String × Address) → List Value → Run Value}
    (hm : (c.regime os).Calls m m')
    (hc : ∀ code captured args, (c.read → (Function.closure code captured).Sound) →
      (∀ v ∈ args, c.Admits v) →
        Keeps c os c.Admits (closure code captured args) (closure' code captured args))
    {f : Function} (hf : c.read → f.Sound) :
    Keeps c os c.Admits (callWith closure m f args) (callWith closure' m' f args) := by
  have ha : ∀ v ∈ args, v.Meets c.norm := fun v hv => Value.meets_iff.mpr (ha v hv)
  have hs := (Function.meets_iff.mpr hf).callee ha
  simp only [callWith]
  generalize f.flatten = flat at hs ⊢
  obtain ⟨before, callee, after⟩ := flat
  obtain ⟨hs, hargs⟩ := hs
  cases callee with
  | closure code captured =>
    exact hc code captured _ hs fun v hv => Value.meets_iff.mp (hargs v hv)
  | native f => exact keeps_value_iff.mpr (callNative_links hm hargs)

include hm ha in
theorem call_keeps {f : Function} (hf : c.read → f.Sound) :
    Keeps c os c.Admits (call m f args) (call m' f args) :=
  callWith_keeps ha hm.calls (fun _ _ _ hf ha => callClosure_keeps hm ha hf) hf

end Calls

/-! ## All evaluations -/

/-- One step of an evaluation in one place, where the machines agree in the blocks and loops that
are opened there as well. -/
theorem expression_keepsAt {seen : List String} (hm : m.AgreeAt c os seen m')
    (hy : m.AgreeIn c os (some .yield) seen m') (hb : m.AgreeIn c os (some .break) seen m')
    {e : Expr Nat} (he : c.read → e.Within seen) :
    Keeps c os c.Admits (expression m e) (expression m' e) := by
  obtain ⟨shape, location⟩ := e
  cases shape with
  | block ss =>
    refine leaving_keeps ((statements_extends hy ss fun hr => ?_).conseq (fun _ h => h)
      (fun _ _ h => ⟨_, h⟩) fun _ _ h => h)
    exact Expr.within_block.mp (he hr)
  | loop b a d =>
    have h := fun hr => Expr.within_loop.mp (he hr)
    simp only [expression, hm.turns]
    refine leaving_keeps ((Keeps.inFit (V := fun _ => True) fun ns hn => ?_).conseq
      (fun _ h => h) (fun _ _ h => ⟨_, h.2⟩) fun _ _ h => h)
    have hns := hb ns
    rw [hn, List.nil_append] at hns
    exact keeps_iff.mpr (rounds_links (evals_of_agreeAt hns fun hr => (h hr).2.1)
      (evals_of_option hns fun hr => (h hr).1) (evals_of_option hns fun hr => (h hr).2.2) _ _)
  | _ =>
    refine keeps_value_iff.mpr (expression_links hm.calls (fun e' he' => ?_) (fun x hx => ?_)
      (fun f captured hs hc hr => ?_) (fun _ _ => trivial) rfl)
    · exact evals_of_agreeAt hm fun hr => (he hr).part he'
    · exact keeps_iff.mp (hm.resolve x fun hr => (he hr).lookup hx)
    · cases hs <;> exact ⟨(Expr.within_function.mp (he hr)).2, hc⟩

theorem expression_keeps (hm : m.Agree c m') {e : Expr Nat} (he : c.read → e.Within (reach os)) :
    Keeps c os c.Admits (expression m e) (expression m' e) :=
  expression_keepsAt (hm.at os) (hm.inside os (some .yield)) (hm.inside os (some .break)) he

end Evaluation

/-- Machines of one limit agree if they look names in reach up alike. -/
theorem machine_agree {c : Care} {resolve resolve' : String → Run Address}
    (h : ∀ os name, (c.read → name ∈ reach os) →
      Keeps c os (fun _ => True) (resolve name) (resolve' name)) :
    ∀ n, (machine n resolve).Agree c (machine n resolve')
  | 0 => ⟨rfl, h, fun _ _ _ => .throw trivial, fun _ _ _ _ _ => .throw trivial⟩
  | n + 1 =>
    ⟨rfl, h, fun _ _ he => Evaluation.expression_keeps (machine_agree h n) he,
      fun _ _ _ hf ha => Evaluation.call_keeps (machine_agree h n) ha hf⟩

theorem resolve_keeps {c : Care} {os : List Outline} {name : String}
    (h : c.read → name ∈ reach os) :
    Keeps c os (fun _ => True) (Run.resolve name) (Run.resolve name) := by
  refine .get_bind fun w hw => ?_
  split
  · exact .pure trivial
  · rename_i hn
    refine .throw fun hr => ?_
    rw [← hw.outlines] at h
    obtain ⟨a, -, ha⟩ := address?_of_mem_reach (h hr)
    exact absurd (hn.symm.trans ha) nofun

theorem machine_agree_refl (c : Care) (n : Nat) : (machine n).Agree c (machine n) :=
  machine_agree (fun _ _ => resolve_keeps) n

end Tale
