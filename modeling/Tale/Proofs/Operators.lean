import Tale.Proofs.Library

/-!
# What expressions do to a world

One step of the evaluation of an expression is the same with two machines that evaluate its parts
alike (`expression_links`). Blocks and loops are left out: they open scopes, so their parts are
evaluated elsewhere.
-/

namespace Tale

variable {ι : Type}

def Element.expr : Element ι → Expr ι
  | .item e => e
  | .spread e _ => e

def SwitchCase.exprs (c : SwitchCase ι) : List (Expr ι) :=
  [c.pattern, c.result]

namespace Shape

/-- The expressions that are evaluated in the same place as the whole. -/
def parts : Shape ι → List (Expr ι)
  | .binary _ l r => [l, r]
  | .unary _ e => [e]
  | .conditional c y n => [c, y, n]
  | .selection e => [e]
  | .choice t a => [t, a]
  | .list es => es.map Element.expr
  | .switch e cs d => e :: (cs.flatMap SwitchCase.exprs ++ d.toList)
  | .cond c y n => c :: y :: n.toList
  | _ => []

/-- The names that are looked up in the place of the whole. -/
def lookups : Shape ι → List String
  | .reference name => [name]
  | .function f => f.captures
  | .binary _ ⟨.reference name, _⟩ _ => [name]
  | _ => []

/-- Whether the parts are evaluated in a scope of their own. -/
def opens : Shape ι → Bool
  | .block _ => true
  | .loop .. => true
  | _ => false

end Shape

namespace Evaluation

variable {R : Regime} {m m' : Machine}

/-! ## Operators -/

section Values

variable {op : BinaryOp} {location : Option Location} {l r : Value}

theorem numbers_links {f : Float → Float → Value} (hf : ∀ x y, (f x y).Meets R.norm) :
    R.Links R.Admits (numbers op location f l r) (numbers op location f l r) := by
  unfold numbers
  split
  · exact .pure (hf _ _)
  · exact .fail trivial

theorem add_links : R.Links R.Admits (add op location l r) (add op location l r) := by
  unfold add
  split
  · exact .pure trivial
  · exact .pure trivial
  · exact .fail trivial

theorem element_links {missing : Float → List Value → Run Value} (hl : R.Admits l)
    (hf : ∀ x vs, R.Links R.Admits (missing x vs) (missing x vs)) :
    R.Links R.Admits (element op location missing l r) (element op location missing l r) := by
  unfold element
  split
  · split
    · split
      · split
        · exact .pure (Value.meets_list.mp hl _ (List.mem_of_getElem? ‹_›))
        · exact hf _ _
      · exact hf _ _
      · exact .fail trivial
    · exact .fail trivial
  · exact .fail trivial

theorem elementAt_links (hl : R.Admits l) :
    R.Links R.Admits (elementAt op location l r) (elementAt op location l r) :=
  element_links hl fun _ _ => .fail trivial

theorem elementOrNull_links (hl : R.Admits l) :
    R.Links R.Admits (elementOrNull op location l r) (elementOrNull op location l r) :=
  element_links hl fun _ _ => .pure trivial

theorem applyAhead_links {side : Side} (hl : R.Admits l) (hr : R.Admits r) :
    R.Links R.Admits (applyAhead op location side l r) (applyAhead op location side l r) := by
  unfold applyAhead
  split
  · split
    · exact .pure hl
    · exact .pure ⟨valuesMeet_iff.mpr (Value.meets_list.mp hr), hl⟩
    · exact .fail trivial
  · exact .fail trivial

theorem notNull_links {v : Value} (hv : R.Admits v) :
    R.Links R.Admits (notNull location v) (notNull location v) := by
  unfold notNull
  split
  · exact .fail trivial
  · exact .pure hv

end Values

section Invocations

variable {op : BinaryOp} {location : Option Location} (hm : R.Calls m m')

theorem adapt_links {V : Value → Prop} {x y : Run Value} {f : Stop → Stop} (h : R.Links V x y)
    (hs : ∀ s, f (.signal s) = .signal s)
    (hf : ∀ e, R.Stops e → (∀ r, e ≠ .signal (.leave r)) →
      R.Stops (f e) ∧ ∀ r, f e ≠ .signal (.leave r)) :
    R.Links V (Run.adapt f x) (Run.adapt f y) := by
  intro w hw
  have hxy := h w hw
  rw [Run.adapt, Run.adapt]
  generalize x w = o, y w = o' at hxy
  cases hxy with
  | ok grows value => exact .ok grows value
  | error grows stop notLeft =>
    obtain ⟨he, hn⟩ := hf _ stop.1 notLeft
    exact .error grows ⟨he, stop.2⟩ hn
  | left grows stop related =>
    simp only [hs]
    exact .left grows stop related

include hm in
theorem invoke_links {f : Function} {args : List Value} (hf : f.Meets R.norm)
    (ha : ∀ v ∈ args, R.Admits v) :
    R.Links R.Admits (invoke m op location f args) (invoke m' op location f args) := by
  refine adapt_links (hm.call f args hf ha) (fun _ => rfl) fun e he hn => ?_
  rcases e with x | s | r | _
  · exact ⟨he, fun _ => nofun⟩
  · exact ⟨he, hn⟩
  · exact ⟨R.ordinary trivial, fun _ => nofun⟩
  · exact ⟨he, hn⟩

variable {l r : Value} (hl : R.Admits l) (hr : R.Admits r)

include hm hl hr in
theorem invokeRegular_links :
    R.Links R.Admits (invokeRegular m op location l r) (invokeRegular m' op location l r) := by
  simp only [invokeRegular]
  split
  · split
    · exact invoke_links hm hl (Value.meets_list.mp hr)
    · exact .fail trivial
  · exact .fail trivial

include hm hl hr in
theorem invokePipeline_links :
    R.Links R.Admits (invokePipeline m op location l r) (invokePipeline m' op location l r) := by
  simp only [invokePipeline]
  split
  · refine invoke_links hm hr fun v hv => ?_
    rw [List.mem_singleton.mp hv]
    exact hl
  · exact .fail trivial

include hm hl hr in
theorem invokeReverse_links :
    R.Links R.Admits (invokeReverse m op location l r) (invokeReverse m' op location l r) := by
  simp only [invokeReverse]
  split
  · split
    · exact invoke_links hm hr (Value.meets_list.mp hl)
    · exact .fail trivial
  · exact .fail trivial

end Invocations

section Operands

variable {op : BinaryOp} {location : Option Location} {left right : Expr Nat}
  (hl : R.Evals m m' left) (hr : R.Evals m m' right)

include hl hr in
theorem strict_links {f g : Value → Value → Run Value}
    (hf : ∀ l r, R.Admits l → R.Admits r → R.Links R.Admits (f l r) (g l r)) :
    R.Links R.Admits (strict m left right f) (strict m' left right g) :=
  .bind hl fun l hlv => .bind hr fun r hrv => hf l r hlv hrv

include hl hr in
theorem unlessNull_links {f g : Value → Value → Run Value}
    (hf : ∀ l r, R.Admits l → R.Admits r → R.Links R.Admits (f l r) (g l r)) :
    R.Links R.Admits (unlessNull m left right f) (unlessNull m' left right g) := by
  refine .bind hl fun l hlv => ?_
  split
  · exact .pure trivial
  · exact .bind hr fun r hrv => hf l r hlv hrv

include hl hr in
theorem logical_links {settled : Bool} :
    R.Links R.Admits (logical m op location left right settled)
      (logical m' op location left right settled) := by
  refine .bind hl fun l _ => ?_
  split
  · split
    · exact .pure trivial
    · refine .bind hr fun r _ => ?_
      split
      · exact .pure trivial
      · exact .fail trivial
  · exact .fail trivial

include hl hr in
theorem orElse_links {check : Value → Run Value}
    (hc : ∀ v, R.Admits v → R.Links R.Admits (check v) (check v)) :
    R.Links R.Admits (orElse m left right check) (orElse m' left right check) := by
  refine .bind hl fun l hlv => ?_
  split
  · exact .bind hr hc
  · exact .pure hlv

end Operands

/-! ### Assignments -/

section Assignments

variable {op : BinaryOp} {location : Option Location} {left right : Expr Nat}
  (ht : ∀ name, left.shape = .reference name → R.Finds m m' name) (hr : R.Evals m m' right)

include ht in
theorem target_links :
    R.Links (fun _ => True) (target m op location left) (target m' op location left) := by
  obtain ⟨shape, place⟩ := left
  simp only [target]
  split
  · exact .bind (ht _ rfl) fun a _ => .pure trivial
  · exact .fail trivial

theorem store_links {name : String} {a : Address} {v : Value} (hv : R.Admits v) :
    R.Links R.Admits (store location name a v) (store location name a v) := by
  refine Linked.get_bind fun w hw => Linked.guard (fun _ => nofun) (fun w' hw' => ?_) fun hb => ?_
  · subst hw'
    exact ⟨R.ordinary trivial, hw⟩
  · refine Linked.bind (Q := fun _ w => R.Fit w) (Linked.modify (fun w' hw' => ?_) fun w' =>
      w'.onward_write a v) fun _ => Regime.Links.pure hv
    subst hw'
    refine hw.write (fun _ x hx => ?_) hv
    simpa [hx] using hb

/-- A world in which a cell is known to take values of a type. -/
def Takes (R : Regime) (a : Address) (t : ValueType) (w : World) : Prop :=
  (R.typed → w.Takes a t) ∧ R.Fit w

theorem write_linked {a : Address} {t : ValueType} {v : Value} (ht : v.type = t)
    (hv : R.Admits v) : Linked R.left (Takes R a t) (do modify (·.write a v); return v)
      (do modify (·.write a v); return v) (fun u w => R.Admits u ∧ R.Fit w)
      fun e w => R.Stops e ∧ R.Fit w := by
  refine Linked.bind (Q := fun _ w => R.Fit w) (Linked.modify (fun w hw => ?_) fun w =>
    w.onward_write a v) fun _ => Regime.Links.pure hv
  refine hw.2.write (fun hc x hx => ?_) hv
  obtain ⟨x', hx', ha⟩ := hw.1 hc
  rw [hx] at hx'
  cases hx'
  exact ht ▸ ha

theorem read_linked (a : Address) : Linked R.left R.Fit (Run.read a) (Run.read a)
    (fun v w => (v ≠ .null → R.typed → w.Takes a v.type) ∧ R.Fit w)
    fun e w => R.Stops e ∧ R.Fit w :=
  fun w hw => .ok (.refl w) ⟨fun hn ht => (hw.typed ht).takes hn, hw⟩

include hr in
/-- The cell still takes what it took before the right operand was evaluated. -/
theorem rightOperand_linked {a : Address} {t : ValueType} :
    Linked R.left (Takes R a t) (m.eval right) (m'.eval right)
      (fun r w => R.Admits r ∧ Takes R a t w) fun e w => R.Stops e ∧ R.Fit w :=
  (Linked.stable (fun _ _ hg h ht => (h ht).grows hg.1) hr).conseq (fun _ h => h)
    (fun _ _ h => ⟨h.2.1, h.1, h.2.2⟩) fun _ _ h => h

include ht hr in
theorem assign_links :
    R.Links R.Admits (assign m op location left right) (assign m' op location left right) :=
  .bind (target_links ht) fun _ _ => .bind hr fun _ hv => store_links hv

/-- The value a cell had before the right operand was evaluated tells what can be put into it
after. -/
theorem update_linked {a : Address} {current : Value} {f g : Value → Run Value}
    (hn : current ≠ .null)
    (hr : R.Evals m m' right) (hf : ∀ r, Linked R.left (Takes R a current.type) (f r) (g r)
      (fun v w => R.Admits v ∧ R.Fit w) fun e w => R.Stops e ∧ R.Fit w) :
    Linked R.left (fun w => (current ≠ .null → R.typed → w.Takes a current.type) ∧ R.Fit w)
      (m.eval right >>= f) (m'.eval right >>= g) (fun v w => R.Admits v ∧ R.Fit w)
      fun e w => R.Stops e ∧ R.Fit w :=
  Linked.bind ((rightOperand_linked hr).conseq (fun _ h => ⟨h.1 hn, h.2⟩) (fun _ _ h => h)
    fun _ _ h => h) fun r => Linked.of_and fun _ => hf r

theorem misfit_linked {P : World → Prop} {cause : Fault.Cause} (hp : ∀ w, P w → R.Fit w)
    (h : cause.Ordinary) :
    Linked R.left P (Run.fail cause location) (Run.fail cause location)
      (fun v w => R.Admits v ∧ R.Fit w) fun e w => R.Stops e ∧ R.Fit w :=
  Linked.throw (fun _ => nofun) fun w hw => ⟨R.ordinary h, hp w hw⟩

include ht hr in
theorem addTo_links :
    R.Links R.Admits (addTo m op location left right) (addTo m' op location left right) := by
  refine .bind (target_links ht) fun p _ => Linked.bind (read_linked p.2) fun v => ?_
  split
  · refine update_linked nofun hr fun r => ?_
    split
    · exact write_linked rfl trivial
    · exact misfit_linked (fun _ h => h.2) trivial
  · refine update_linked nofun hr fun r => ?_
    split
    · exact write_linked rfl trivial
    · exact misfit_linked (fun _ h => h.2) trivial
  · exact misfit_linked (fun _ h => h.2) trivial

include ht hr in
theorem update_links {f : Float → Float → Float} :
    R.Links R.Admits (update m op location left right f) (update m' op location left right f) := by
  refine .bind (target_links ht) fun p _ => Linked.bind (read_linked p.2) fun v => ?_
  split
  · refine update_linked nofun hr fun r => ?_
    split
    · exact write_linked rfl trivial
    · exact misfit_linked (fun _ h => h.2) trivial
  · exact misfit_linked (fun _ h => h.2) trivial

end Assignments

section Operators

variable {op : BinaryOp} {location : Option Location} {left right : Expr Nat}

theorem binary_links (hm : R.Calls m m')
    (ht : ∀ name, left.shape = .reference name → R.Finds m m' name) (hl : R.Evals m m' left)
    (hr : R.Evals m m' right) :
    R.Links R.Admits (binary m op location left right) (binary m' op location left right) := by
  have boolean {b : Bool} : R.Links R.Admits (pure (.boolean b)) (pure (.boolean b)) :=
    .pure trivial
  cases op with
  | assign => exact assign_links ht hr
  | addAssign => exact addTo_links ht hr
  | subAssign => exact update_links ht hr
  | mulAssign => exact update_links ht hr
  | divAssign => exact update_links ht hr
  | intDivAssign => exact update_links ht hr
  | remAssign => exact update_links ht hr
  | pipeline => exact strict_links hl hr fun _ _ => invokePipeline_links hm
  | reverseInvoke => exact strict_links hl hr fun _ _ => invokeReverse_links hm
  | or => exact logical_links hl hr
  | nullishStrict => exact orElse_links hl hr fun _ => notNull_links
  | nullish => exact orElse_links hl hr fun _ => .pure
  | and => exact logical_links hl hr
  | eq => exact strict_links hl hr fun _ _ _ _ => boolean
  | notEq => exact strict_links hl hr fun _ _ _ _ => boolean
  | lt => exact strict_links hl hr fun _ _ _ _ => numbers_links fun _ _ => trivial
  | ltEq => exact strict_links hl hr fun _ _ _ _ => numbers_links fun _ _ => trivial
  | gt => exact strict_links hl hr fun _ _ _ _ => numbers_links fun _ _ => trivial
  | gtEq => exact strict_links hl hr fun _ _ _ _ => numbers_links fun _ _ => trivial
  | add => exact strict_links hl hr fun _ _ _ _ => add_links
  | sub => exact strict_links hl hr fun _ _ _ _ => numbers_links fun _ _ => trivial
  | mul => exact strict_links hl hr fun _ _ _ _ => numbers_links fun _ _ => trivial
  | div => exact strict_links hl hr fun _ _ _ _ => numbers_links fun _ _ => trivial
  | intDiv => exact strict_links hl hr fun _ _ _ _ => numbers_links fun _ _ => trivial
  | rem => exact strict_links hl hr fun _ _ _ _ => numbers_links fun _ _ => trivial
  | pow => exact strict_links hl hr fun _ _ _ _ => numbers_links fun _ _ => trivial
  | index => exact strict_links hl hr fun _ _ hl _ => elementAt_links hl
  | indexOrNull => exact strict_links hl hr fun _ _ hl _ => elementOrNull_links hl
  | nullableIndex => exact unlessNull_links hl hr fun _ _ hl _ => elementAt_links hl
  | nullableIndexOrNull => exact unlessNull_links hl hr fun _ _ hl _ => elementOrNull_links hl
  | invoke => exact strict_links hl hr fun _ _ => invokeRegular_links hm
  | nullableInvoke => exact unlessNull_links hl hr fun _ _ => invokeRegular_links hm
  | partialLeft => exact strict_links hl hr fun _ _ => applyAhead_links
  | partialRight => exact strict_links hl hr fun _ _ => applyAhead_links

theorem unary_links {op : UnaryOp} (hl : R.Evals m m' left) :
    R.Links R.Admits (unary m op location left) (unary m' op location left) := by
  refine .bind hl fun v _ => ?_
  split
  · exact .pure trivial
  · exact .pure trivial
  · exact .fail trivial

end Operators

/-! ## Other expressions -/

section Expressions

variable {location : Option Location} {e e' : Expr Nat}

theorem initialValue_links {bound : TypeBound} :
    R.Links R.Admits (initialValue bound location) (initialValue bound location) := by
  unfold initialValue
  split
  · exact .pure trivial
  · exact .pure trivial
  · exact .pure trivial
  · exact .pure trivial
  · exact .pure (Value.meets_list.mpr nofun)
  · exact .fail trivial
  · split
    · exact .pure trivial
    · exact .fail trivial

theorem branch_links {otherwise : Value → Run Value} {x x' y y' : Run Value}
    (he : R.Evals m m' e) (ho : ∀ v, R.Links R.Admits (otherwise v) (otherwise v))
    (hx : R.Links R.Admits x x') (hy : R.Links R.Admits y y') :
    R.Links R.Admits (branch m e otherwise x y) (branch m' e otherwise x' y') := by
  refine .bind he fun v _ => ?_
  split
  · exact hx
  · exact hy
  · exact ho _

theorem choicesOf_links : ∀ (vs : List Value) (n : Nat), (∀ v ∈ vs, R.Admits v) →
    R.Links (choicesMeet R.norm) (choicesOf location n vs) (choicesOf location n vs)
  | [], _, _ => .pure trivial
  | v :: vs, n, h => by
    simp only [List.mem_cons, forall_eq_or_imp] at h
    rw [choicesOf.eq_def]
    cases v with
    | null => exact choicesOf_links vs n h.2
    | choice x =>
      exact .bind (choicesOf_links vs (n + 1) h.2) fun cs hcs => .pure ⟨h.1, hcs⟩
    | _ => exact .fail trivial

theorem selection_links (he : R.Evals m m' e) :
    R.Links R.Admits (selection m location e) (selection m' location e) := by
  refine .bind he fun v hv => ?_
  split
  · exact .bind (choicesOf_links _ 0 (Value.meets_list.mp hv)) fun cs hcs => .pure hcs
  · exact .fail trivial

theorem choice_links (he : R.Evals m m' e) (he' : R.Evals m m' e') :
    R.Links R.Admits (choice m location e e') (choice m' location e e') := by
  refine .bind he fun v _ => ?_
  split
  · refine .bind he' fun a ha => ?_
    split
    · exact .pure ha
    · exact .pure ha
    · exact .pure trivial
    · exact .fail trivial
  · exact .fail trivial

theorem capture_links : ∀ (names : List String), (∀ name ∈ names, R.Finds m m' name) →
    R.Links (fun l => l.map (·.1) = names) (capture m names) (capture m' names)
  | [], _ => .pure rfl
  | name :: names, h => by
    simp only [List.mem_cons, forall_eq_or_imp] at h
    refine .bind h.1 fun a _ => .bind (capture_links names h.2) fun l hl => .pure ?_
    rw [List.map_cons, hl]

theorem elements_links : ∀ (es : List (Element Nat)),
    (∀ e ∈ es.map Element.expr, R.Evals m m' e) →
      R.Links (fun vs => ∀ v ∈ vs, R.Admits v) (elements m es) (elements m' es)
  | [], _ => .pure nofun
  | .item e :: es, h => by
    simp only [List.map_cons, List.mem_cons, forall_eq_or_imp] at h
    refine .bind h.1 fun v hv => .bind (elements_links es h.2) fun vs hvs => .pure ?_
    simp only [List.mem_cons, forall_eq_or_imp]
    exact ⟨hv, hvs⟩
  | .spread e place :: es, h => by
    simp only [List.map_cons, List.mem_cons, forall_eq_or_imp] at h
    refine .bind h.1 fun v hv => ?_
    split
    · refine .bind (elements_links es h.2) fun vs hvs => .pure fun u hu => ?_
      rcases List.mem_append.mp hu with hu | hu
      · exact Value.meets_list.mp hv u hu
      · exact hvs u hu
    · exact .fail trivial

theorem cases_links {subject : Value} {fallback : Option (Expr Nat)}
    (hf : ∀ e ∈ fallback.toList, R.Evals m m' e) : ∀ (cs : List (SwitchCase Nat)),
      (∀ e ∈ cs.flatMap SwitchCase.exprs, R.Evals m m' e) →
        R.Links R.Admits (cases m location subject fallback cs)
          (cases m' location subject fallback cs)
  | [], _ => by
    simp only [cases]
    split
    · exact hf _ (.head _)
    · exact .fail trivial
  | c :: cs, h => by
    simp only [List.flatMap_cons, SwitchCase.exprs, List.cons_append, List.nil_append,
      List.mem_cons, forall_eq_or_imp] at h
    refine .bind h.1 fun v _ => ?_
    split
    · split
      · exact h.2.1
      · exact cases_links hf cs h.2.2
    · exact .fail trivial

/-! ### Loops -/

theorem partOfLoop_links {part : Option (Expr Nat)} (h : ∀ e ∈ part.toList, R.Evals m m' e) :
    R.Links (fun _ => True) (partOfLoop m part) (partOfLoop m' part) := by
  rcases part with _ | e
  · exact .pure trivial
  · intro w hw
    have he := h e (.head _) w hw
    simp only [partOfLoop]
    generalize m.eval e w = o, m'.eval e w = o' at he
    cases he with
    | ok grows value => exact .ok grows ⟨trivial, value.2⟩
    | @error e _ grows stop notLeft =>
      rcases e with x | (r | _) | r | _
      · exact .error grows stop notLeft
      · exact .error grows stop notLeft
      · exact .ok grows ⟨trivial, stop.2⟩
      · exact .error grows stop notLeft
      · exact .error grows stop notLeft
    | left grows stop related => exact .left grows stop related

theorem rounds_links {before after : Option (Expr Nat)} (he : R.Evals m m' e)
    (hb : ∀ e ∈ before.toList, R.Evals m m' e) (ha : ∀ e ∈ after.toList, R.Evals m m' e) :
    ∀ (n : Nat) (continued : Bool),
      R.Links (fun _ => True) (rounds m location before e after n continued)
        (rounds m' location before e after n continued)
  | 0, _ => .throw (fun _ => nofun) trivial
  | n + 1, continued => by
    have round : R.Links (fun _ => True) (rounds m location before e after (n + 1) true)
        (rounds m' location before e after (n + 1) true) := by
      refine .bind he fun v _ => ?_
      split
      · exact .bind (partOfLoop_links ha) fun continued _ => rounds_links he hb ha n continued
      · exact .pure trivial
      · exact .fail trivial
    cases continued with
    | true => exact round
    | false => exact .bind (partOfLoop_links hb) fun _ _ => round

end Expressions

/-! ## Calls -/

theorem parameterValue_links {p : Parameter Nat} {i : Nat} {arg : Value} (hv : R.Admits arg)
    (hp : ∀ e ∈ p.fallback.toList, R.Evals m m' e) :
    R.Links R.Admits (parameterValue m p i arg) (parameterValue m' p i arg) := by
  obtain ⟨name, bound, fallback, place⟩ := p
  unfold parameterValue
  cases arg with
  | null =>
    rcases fallback with _ | e
    · simp only []
      split
      · exact .pure trivial
      · exact .throw (fun _ => nofun) trivial
    · exact hp e (.head _)
  | _ => exact .pure hv

theorem callNative_links (hm : R.Calls m m') {f : Native} {args : List Value}
    (ha : ∀ v ∈ args, R.Admits v) :
    R.Links R.Admits (callNative m f args) (callNative m' f args) := by
  refine .bind (Native.run_links hm f ha) fun r hr => ?_
  split
  · exact .pure (hr _ rfl)
  · exact .throw (fun _ => nofun) trivial

/-! ## All of these -/

theorem expression_links (hm : R.Calls m m') {e : Expr Nat}
    (hp : ∀ e' ∈ e.shape.parts, R.Evals m m' e') (hn : ∀ x ∈ e.shape.lookups, R.Finds m m' x)
    (hf : ∀ f captured, e.shape = .function f → captured.map (·.1) = f.captures →
      R.norm.code f captured)
    (hg : ∀ names, e.shape = .goto names → R.norm.targets names) (ho : e.shape.opens = false) :
    R.Links R.Admits (expression m e) (expression m' e) := by
  obtain ⟨shape, location⟩ := e
  cases shape with
  | number x => exact .pure trivial
  | boolean b => exact .pure trivial
  | string s => exact .pure trivial
  | null => exact .pure trivial
  | binary op l r =>
    refine binary_links hm (fun name hl => hn name ?_) (hp l (.head _)) (hp r (.tail _ (.head _)))
    obtain ⟨shape, place⟩ := l
    cases hl
    exact .head _
  | unary op e => exact unary_links (hp e (.head _))
  | conditional a y n =>
    simp only [Shape.parts, List.mem_cons, List.not_mem_nil, or_false, forall_eq_or_imp,
      forall_eq] at hp
    exact branch_links hp.1 (fun _ => .fail trivial) hp.2.1 hp.2.2
  | goto names => exact .pure (hg names rfl)
  | exit => exact .pure trivial
  | selection e => exact selection_links (hp e (.head _))
  | choice t a => exact choice_links (hp t (.head _)) (hp a (.tail _ (.head _)))
  | block ss => cases ho
  | reference name => exact .bind (hn name (.head _)) fun a _ => .read a
  | function f => exact .bind (capture_links f.captures hn) fun l hl => .pure (hf f l rfl hl)
  | list es => exact .bind (elements_links es hp) fun vs hvs => .pure (Value.meets_list.mpr hvs)
  | switch e cs d =>
    simp only [Shape.parts, List.mem_cons, List.mem_append, forall_eq_or_imp] at hp
    exact .bind hp.1 fun v _ => cases_links (fun e he => hp.2 e (.inr he)) cs
      fun e he => hp.2 e (.inl he)
  | loop b c a => cases ho
  | cond c y n =>
    simp only [Shape.parts, List.mem_cons, forall_eq_or_imp] at hp
    refine branch_links hp.1 (fun _ => .fail trivial) hp.2.1 ?_
    rcases n with _ | n
    · exact .pure trivial
    · exact hp.2.2 n (.head _)
  | tag name =>
    refine .pure (Value.meets_list.mpr fun v hv => ?_)
    rw [List.mem_singleton.mp hv]
    trivial

end Evaluation

end Tale
