import Tale.Evaluation
import Tale.Proofs.LibraryTwins

/-!
# Evaluations side by side

A tree and the same tree moved to other places are evaluated alike, and akin functions called
alike, by the machine of any limit (`machine_drives`). In one step of an evaluation each part is
evaluated by the machine, so the step is alike if its parts are; calls that are refused become
faults where an expression makes them, so evaluations are never refused.
-/

namespace Tale.Evaluation

variable {K : Kin} {m : Machine}

/-! ## Operators -/

section Values

variable {op : BinaryOp} {location : Option Location} {l l' r r' : Value} (hl : l.Akin K l')
  (hr : r.Akin K r')

include hl hr in
theorem operands_twins (op : BinaryOp) (location : Option Location) :
    K.Runs Unrefused (Value.Akin K) (Run.fail (.operands op l r) location : Run Value)
      (Run.fail (.operands op l' r') (K.place location)) :=
  .fail ⟨rfl, congrArg₂ (_ ++ · ++ _ ++ · ++ _) hl.describe hr.describe, rfl, rfl⟩

include hl hr in
theorem numbers_twins {f : Float → Float → Value} (hf : ∀ x y, (f x y).Akin K (f x y)) :
    K.Runs Unrefused (Value.Akin K) (numbers op location f l r)
      (numbers op (K.place location) f l' r') := by
  have misfit := operands_twins hl hr op location
  cases hl with
  | number x =>
    cases hr with
    | number y => exact .pure (hf x y)
    | _ => exact misfit
  | _ => exact misfit

include hl hr in
theorem add_twins :
    K.Runs Unrefused (Value.Akin K) (add op location l r) (add op (K.place location) l' r') := by
  have misfit := operands_twins hl hr op location
  cases hl with
  | number x =>
    cases hr with
    | number y => exact .pure (.number _)
    | _ => exact misfit
  | string s =>
    cases hr with
    | string t => exact .pure (.string _)
    | _ => exact misfit
  | _ => exact misfit

include hl hr in
theorem element_twins {missing missing' : Float → List Value → Run Value}
    (hm : ∀ x vs vs', List.Forall₂ (Value.Akin K) vs vs' →
      K.Runs Unrefused (Value.Akin K) (missing x vs) (missing' x vs')) :
    K.Runs Unrefused (Value.Akin K) (element op location missing l r)
      (element op (K.place location) missing' l' r') := by
  have noIndex : K.Runs Unrefused (Value.Akin K) (Run.fail (.index op r) location : Run Value)
      (Run.fail (.index op r') (K.place location)) :=
    .fail ⟨rfl, congrArg (_ ++ ·) hr.describe, rfl, rfl⟩
  have hd := hl.describe
  cases hl with
  | @list vs vs' hvs =>
    have hvs := valuesAkin_iff.mp hvs
    cases hr with
    | number x =>
      simp only [element]
      rcases Decimal.whole? x with _ | i | i
      · exact noIndex
      · have hi := forall₂_getElem? hvs i
        simp only []
        generalize vs[i]? = o, vs'[i]? = o' at hi
        cases hi with
        | none => exact hm x _ _ hvs
        | some hv => exact .pure hv
      · exact hm x _ _ hvs
    | _ => exact noIndex
  | _ => exact .fail ⟨rfl, congrArg (_ ++ ·) hd, rfl, rfl⟩

include hl hr in
theorem elementAt_twins : K.Runs Unrefused (Value.Akin K) (elementAt op location l r)
    (elementAt op (K.place location) l' r') :=
  element_twins hl hr fun _ _ _ hvs =>
    .fail ⟨rfl, congrArg (_ ++ ·) (Value.akin_list hvs).describe, rfl, rfl⟩

include hl hr in
theorem elementOrNull_twins : K.Runs Unrefused (Value.Akin K) (elementOrNull op location l r)
    (elementOrNull op (K.place location) l' r') :=
  element_twins hl hr fun _ _ _ _ => .pure .null

include hl hr in
theorem applyAhead_twins {side : Side} : K.Runs Unrefused (Value.Akin K)
    (applyAhead op location side l r) (applyAhead op (K.place location) side l' r') := by
  have hd := hl.describe
  have hd' := hr.describe
  cases hl with
  | function hf =>
    cases hr with
    | list hvs =>
      cases hvs with
      | nil => exact .pure (.function hf)
      | cons hv hvs => exact .pure (.function (.applied _ (.cons hv hvs) hf))
    | _ => exact .fail ⟨rfl, congrArg (_ ++ ·) hd', rfl, rfl⟩
  | _ => exact .fail ⟨rfl, congrArg (_ ++ ·) hd, rfl, rfl⟩

include hl in
theorem notNull_twins :
    K.Runs Unrefused (Value.Akin K) (notNull location l) (notNull (K.place location) l') := by
  have hv := hl
  cases hl with
  | null => exact .fail ⟨rfl, rfl, rfl, rfl⟩
  | _ => exact .pure hv

end Values

/-! ### Invocations -/

section Invocations

variable {op : BinaryOp} {location : Option Location} (hm : K.Drives m)

include hm in
theorem invoke_twins {f f' : Function} (hf : f.Akin K f') {args args' : List Value}
    (ha : List.Forall₂ (Value.Akin K) args args') :
    K.Runs Unrefused (Value.Akin K) (invoke m op location f args)
      (invoke m op (K.place location) f' args') := by
  refine .adapt (fun e e' he => ?_) (hm.call hf ha)
  cases he with
  | fault h => exact .fault (h.passing rfl location)
  | signal s => exact .signal s
  | refused _ text => exact .fault ⟨⟨rfl, text, rfl, rfl⟩, rfl, .nil⟩
  | exhausted => exact .exhausted

variable {l l' r r' : Value} (hl : l.Akin K l') (hr : r.Akin K r')

include hm hl hr in
theorem invokeRegular_twins : K.Runs Unrefused (Value.Akin K) (invokeRegular m op location l r)
    (invokeRegular m op (K.place location) l' r') := by
  have hd := hl.describe
  have hd' := hr.describe
  cases hl with
  | function hf =>
    cases hr with
    | list hvs => exact invoke_twins hm hf (valuesAkin_iff.mp hvs)
    | _ => exact .fail ⟨rfl, congrArg (_ ++ ·) hd', rfl, rfl⟩
  | _ => exact .fail ⟨rfl, congrArg (_ ++ ·) hd, rfl, rfl⟩

include hm hl hr in
theorem invokePipeline_twins : K.Runs Unrefused (Value.Akin K) (invokePipeline m op location l r)
    (invokePipeline m op (K.place location) l' r') := by
  have hd' := hr.describe
  cases hr with
  | function hf => exact invoke_twins hm hf (.cons hl .nil)
  | _ => exact .fail ⟨rfl, congrArg (_ ++ ·) hd', rfl, rfl⟩

include hm hl hr in
theorem invokeReverse_twins : K.Runs Unrefused (Value.Akin K) (invokeReverse m op location l r)
    (invokeReverse m op (K.place location) l' r') := by
  have hd := hl.describe
  have hd' := hr.describe
  cases hl with
  | list hvs =>
    cases hr with
    | function hf => exact invoke_twins hm hf (valuesAkin_iff.mp hvs)
    | _ => exact .fail ⟨rfl, congrArg (_ ++ ·) hd', rfl, rfl⟩
  | _ => exact .fail ⟨rfl, congrArg (_ ++ ·) hd, rfl, rfl⟩

end Invocations

/-! ### Operands -/

section Operands

variable {op : BinaryOp} {location : Option Location} {left right : Expr Nat} (hm : K.Drives m)
  (hl : ∀ x ∈ left.references, K.Named x) (hr : ∀ x ∈ right.references, K.Named x)

include hm hl hr in
theorem strict_twins {f g : Value → Value → Run Value}
    (hf : ∀ {l l' r r'}, l.Akin K l' → r.Akin K r' →
      K.Runs Unrefused (Value.Akin K) (f l r) (g l' r')) :
    K.Runs Unrefused (Value.Akin K) (strict m left right f)
      (strict m (left.relocate K.place) (right.relocate K.place) g) :=
  .bind (hm.eval left hl) fun _ _ hl => .bind (hm.eval right hr) fun _ _ hr => hf hl hr

include hm hl hr in
theorem unlessNull_twins {f g : Value → Value → Run Value}
    (hf : ∀ {l l' r r'}, l.Akin K l' → r.Akin K r' →
      K.Runs Unrefused (Value.Akin K) (f l r) (g l' r')) :
    K.Runs Unrefused (Value.Akin K) (unlessNull m left right f)
      (unlessNull m (left.relocate K.place) (right.relocate K.place) g) := by
  refine .bind (hm.eval left hl) fun l l' hv => ?_
  have rest := Twins.bind (hm.eval right hr) fun _ _ hr => hf hv hr
  cases hv with
  | null => exact .pure .null
  | _ => exact rest

include hm hl hr in
theorem logical_twins {settled : Bool} :
    K.Runs Unrefused (Value.Akin K) (logical m op location left right settled)
      (logical m op (K.place location) (left.relocate K.place) (right.relocate K.place)
        settled) := by
  refine .bind (hm.eval left hl) fun l l' hv => ?_
  have hd := hv.describe
  cases hv with
  | boolean b =>
    simp only []
    split
    · exact .pure (.boolean b)
    · refine .bind (hm.eval right hr) fun r r' hv => ?_
      have hd := hv.describe
      cases hv with
      | boolean b => exact .pure (.boolean b)
      | _ => exact .fail ⟨rfl, congrArg (_ ++ ·) hd, rfl, rfl⟩
  | _ => exact .fail ⟨rfl, congrArg (_ ++ ·) hd, rfl, rfl⟩

include hm hl hr in
theorem orElse_twins {check check' : Value → Run Value}
    (hc : ∀ {v v'}, v.Akin K v' → K.Runs Unrefused (Value.Akin K) (check v) (check' v')) :
    K.Runs Unrefused (Value.Akin K) (orElse m left right check)
      (orElse m (left.relocate K.place) (right.relocate K.place) check') := by
  refine .bind (hm.eval left hl) fun l l' hv => ?_
  have hv' := hv
  cases hv with
  | null => exact .bind (hm.eval right hr) fun _ _ => hc
  | _ => exact .pure hv'

/-! ### Assignments -/

include hm hl in
theorem target_twins : K.Runs Unrefused (fun p p' => p' = p ∧ K.Open p.2)
    (target m op location left) (target m op (K.place location) (left.relocate K.place)) := by
  obtain ⟨shape, place⟩ := left
  rw [Expr.relocate]
  cases shape with
  | reference name =>
    refine .bind (hm.resolve name) fun a a' ha => .pure ⟨?_, ha.2 (hl name (.head _))⟩
    rw [ha.1]
  | _ => exact .fail ⟨rfl, rfl, rfl, rfl⟩

theorem store_twins {name : String} {a : Address} {v v' : Value} (hv : v.Akin K v') :
    K.Runs Unrefused (Value.Akin K) (store location name a v)
      (store (K.place location) name a v') := by
  refine .get_bind fun w w' hw => ?_
  simp only [hw.bound a, hv.type]
  split
  · refine .bind (V := fun _ _ => False) (.fail ⟨rfl, ?_, rfl, rfl⟩) nofun
    exact congrArg (_ ++ · ++ _ ++ _ ++ _ ++ _ ++ _ ++ _) hv.describe
  · exact .bind (.write a hv) fun _ _ _ => .pure hv

include hm hl hr in
theorem assign_twins : K.Runs Unrefused (Value.Akin K) (assign m op location left right)
    (assign m op (K.place location) (left.relocate K.place) (right.relocate K.place)) := by
  refine .bind (target_twins hm hl) ?_
  rintro ⟨name, a⟩ _ ⟨rfl, -⟩
  exact .bind (hm.eval right hr) fun _ _ => store_twins

include hm hl hr in
theorem addTo_twins : K.Runs Unrefused (Value.Akin K) (addTo m op location left right)
    (addTo m op (K.place location) (left.relocate K.place) (right.relocate K.place)) := by
  refine .bind (target_twins hm hl) ?_
  rintro ⟨name, a⟩ _ ⟨rfl, ho⟩
  refine .bind (.read a) fun v v' hv => ?_
  have ht := (hv.akin ho).type
  cases hv.akin ho with
  | number x =>
    refine .bind (hm.eval right hr) fun r r' hv => ?_
    have hd := hv.describe
    cases hv with
    | number y =>
      exact .bind (.write a (.number _)) fun _ _ _ => .pure (.number _)
    | _ => exact .fail ⟨rfl, congrArg (_ ++ ·) hd, rfl, rfl⟩
  | string s =>
    refine .bind (hm.eval right hr) fun r r' hv => ?_
    have hd := hv.describe
    cases hv with
    | string t =>
      exact .bind (.write a (.string _)) fun _ _ _ => .pure (.string _)
    | _ => exact .fail ⟨rfl, congrArg (_ ++ ·) hd, rfl, rfl⟩
  | _ => exact .fail ⟨rfl, rfl, rfl, rfl⟩

include hm hl hr in
theorem update_twins {f : Float → Float → Float} :
    K.Runs Unrefused (Value.Akin K) (update m op location left right f)
      (update m op (K.place location) (left.relocate K.place) (right.relocate K.place) f) := by
  refine .bind (target_twins hm hl) ?_
  rintro ⟨name, a⟩ _ ⟨rfl, ho⟩
  refine .bind (.read a) fun v v' hv => ?_
  cases hv.akin ho with
  | number x =>
    refine .bind (hm.eval right hr) fun r r' hv => ?_
    have hd := hv.describe
    cases hv with
    | number y =>
      exact .bind (.write a (.number _)) fun _ _ _ => .pure (.number _)
    | _ => exact .fail ⟨rfl, congrArg (_ ++ ·) hd, rfl, rfl⟩
  | _ => exact .fail ⟨rfl, rfl, rfl, rfl⟩

end Operands

section Operators

variable {op : BinaryOp} {location : Option Location} {left right : Expr Nat} (hm : K.Drives m)
  (hl : ∀ x ∈ left.references, K.Named x)

include hm hl in
theorem binary_twins (hr : ∀ x ∈ right.references, K.Named x) :
    K.Runs Unrefused (Value.Akin K) (binary m op location left right)
      (binary m op (K.place location) (left.relocate K.place) (right.relocate K.place)) := by
  have number {f : Float → Float → Float} (x y : Float) :
      (Value.number (f x y)).Akin K (.number (f x y)) := .number _
  have boolean {f : Float → Float → Bool} (x y : Float) :
      (Value.boolean (f x y)).Akin K (.boolean (f x y)) := .boolean _
  cases op with
  | assign => exact assign_twins hm hl hr
  | addAssign => exact addTo_twins hm hl hr
  | subAssign => exact update_twins hm hl hr
  | mulAssign => exact update_twins hm hl hr
  | divAssign => exact update_twins hm hl hr
  | intDivAssign => exact update_twins hm hl hr
  | remAssign => exact update_twins hm hl hr
  | pipeline => exact strict_twins hm hl hr (invokePipeline_twins hm)
  | reverseInvoke => exact strict_twins hm hl hr (invokeReverse_twins hm)
  | or => exact logical_twins hm hl hr
  | nullishStrict => exact orElse_twins hm hl hr notNull_twins
  | nullish => exact orElse_twins hm hl hr .pure
  | and => exact logical_twins hm hl hr
  | eq =>
    refine strict_twins hm hl hr fun hl hr => ?_
    rw [hl.same hr]
    exact .pure (.boolean _)
  | notEq =>
    refine strict_twins hm hl hr fun hl hr => ?_
    rw [hl.same hr]
    exact .pure (.boolean _)
  | lt => exact strict_twins hm hl hr fun hl hr => numbers_twins hl hr boolean
  | ltEq => exact strict_twins hm hl hr fun hl hr => numbers_twins hl hr boolean
  | gt => exact strict_twins hm hl hr fun hl hr => numbers_twins hl hr boolean
  | gtEq => exact strict_twins hm hl hr fun hl hr => numbers_twins hl hr boolean
  | add => exact strict_twins hm hl hr add_twins
  | sub => exact strict_twins hm hl hr fun hl hr => numbers_twins hl hr number
  | mul => exact strict_twins hm hl hr fun hl hr => numbers_twins hl hr number
  | div => exact strict_twins hm hl hr fun hl hr => numbers_twins hl hr number
  | intDiv => exact strict_twins hm hl hr fun hl hr => numbers_twins hl hr number
  | rem => exact strict_twins hm hl hr fun hl hr => numbers_twins hl hr number
  | pow => exact strict_twins hm hl hr fun hl hr => numbers_twins hl hr number
  | index => exact strict_twins hm hl hr elementAt_twins
  | indexOrNull => exact strict_twins hm hl hr elementOrNull_twins
  | nullableIndex => exact unlessNull_twins hm hl hr elementAt_twins
  | nullableIndexOrNull => exact unlessNull_twins hm hl hr elementOrNull_twins
  | invoke => exact strict_twins hm hl hr (invokeRegular_twins hm)
  | nullableInvoke => exact unlessNull_twins hm hl hr (invokeRegular_twins hm)
  | partialLeft => exact strict_twins hm hl hr fun hl hr => applyAhead_twins hl hr
  | partialRight => exact strict_twins hm hl hr fun hl hr => applyAhead_twins hl hr

include hm hl in
theorem unary_twins {op : UnaryOp} : K.Runs Unrefused (Value.Akin K) (unary m op location left)
    (unary m op (K.place location) (left.relocate K.place)) := by
  refine .bind (hm.eval left hl) fun v v' hv => ?_
  have misfit : K.Runs Unrefused (Value.Akin K) (Run.fail (.operand op v) location : Run Value)
      (Run.fail (.operand op v') (K.place location)) :=
    .fail ⟨rfl, congrArg (_ ++ ·) hv.describe, rfl, rfl⟩
  cases op with
  | negate =>
    cases hv with
    | number x => exact .pure (.number _)
    | _ => exact misfit
  | not =>
    cases hv with
    | boolean b => exact .pure (.boolean _)
    | _ => exact misfit

end Operators

/-! ## Other expressions -/

section Expressions

variable {location : Option Location} (hm : K.Drives m)

theorem initialValue_twins {bound : TypeBound} : K.Runs Unrefused (Value.Akin K)
    (initialValue bound location) (initialValue bound (K.place location)) := by
  simp only [initialValue]
  split
  · exact .pure .null
  · exact .pure (.boolean _)
  · exact .pure (.number _)
  · exact .pure (.string _)
  · exact .pure (.list .nil)
  · exact .fail ⟨rfl, rfl, rfl, rfl⟩
  · split
    · exact .pure .null
    · exact .fail ⟨rfl, rfl, rfl, rfl⟩

include hm in
theorem branch_twins {condition : Expr Nat} (hc : ∀ x ∈ condition.references, K.Named x)
    {otherwise otherwise' : Value → Run Value} {x x' y y' : Run Value}
    (ho : ∀ v v', v.Akin K v' → K.Runs Unrefused (Value.Akin K) (otherwise v) (otherwise' v'))
    (hx : K.Runs Unrefused (Value.Akin K) x x') (hy : K.Runs Unrefused (Value.Akin K) y y') :
    K.Runs Unrefused (Value.Akin K) (branch m condition otherwise x y)
      (branch m (condition.relocate K.place) otherwise' x' y') := by
  refine .bind (hm.eval condition hc) fun v v' hv => ?_
  have rest := ho v v' hv
  cases hv with
  | boolean b =>
    cases b with
    | true => exact hx
    | false => exact hy
  | _ => exact rest

theorem choicesOf_twins {vs vs' : List Value} (h : List.Forall₂ (Value.Akin K) vs vs') (n : Nat) :
    K.Runs Unrefused (ChoicesAkin K) (choicesOf location n vs)
      (choicesOf (K.place location) n vs') := by
  induction h generalizing n with
  | nil => exact .pure .nil
  | cons hv _ ih =>
    have hd := hv.describe
    rw [choicesOf.eq_def, choicesOf.eq_def]
    cases hv with
    | null => exact ih n
    | choice hc => exact .bind (ih (n + 1)) fun _ _ hcs => .pure (.cons hc hcs)
    | _ => exact .fail ⟨rfl, congrArg (_ ++ ·) hd, rfl, rfl⟩

include hm in
theorem selection_twins {e : Expr Nat} (he : ∀ x ∈ e.references, K.Named x) :
    K.Runs Unrefused (Value.Akin K) (selection m location e)
      (selection m (K.place location) (e.relocate K.place)) := by
  refine .bind (hm.eval e he) fun v v' hv => ?_
  have hd := hv.describe
  cases hv with
  | list hvs =>
    exact .bind (choicesOf_twins (valuesAkin_iff.mp hvs) 0) fun _ _ hcs =>
      .pure (.action (.selection hcs))
  | _ => exact .fail ⟨rfl, congrArg (_ ++ ·) hd, rfl, rfl⟩

include hm in
theorem choice_twins {t a : Expr Nat} (ht : ∀ x ∈ t.references, K.Named x)
    (ha : ∀ x ∈ a.references, K.Named x) :
    K.Runs Unrefused (Value.Akin K) (choice m location t a)
      (choice m (K.place location) (t.relocate K.place) (a.relocate K.place)) := by
  refine .bind (hm.eval t ht) fun v v' hv => ?_
  have hd := hv.describe
  cases hv with
  | string s =>
    refine .bind (hm.eval a ha) fun v v' hv => ?_
    have hd := hv.describe
    cases hv with
    | function hf => exact .pure (.choice (.enabled s (.call hf location)))
    | action ha => exact .pure (.choice (.enabled s (.act ha)))
    | null => exact .pure (.choice (.disabled s))
    | _ => exact .fail ⟨rfl, congrArg (_ ++ ·) hd, rfl, rfl⟩
  | _ => exact .fail ⟨rfl, congrArg (_ ++ ·) hd, rfl, rfl⟩

include hm in
/-- Functions of both tellings keep the same cells. -/
theorem capture_twins : ∀ names : List String,
    K.Runs Unrefused (fun l l' => l' = l ∧ K.Leads l) (capture m names) (capture m names)
  | [] => .pure ⟨rfl, .nil⟩
  | name :: names => by
    refine .bind (hm.resolve name) ?_
    rintro a _ ⟨rfl, ha⟩
    refine .bind (capture_twins names) ?_
    rintro l _ ⟨rfl, hl⟩
    exact .pure ⟨rfl, hl.cons ha⟩

include hm in
theorem elements_twins : ∀ es : List (Element Nat), (∀ x ∈ referencesInElements es, K.Named x) →
    K.Runs Unrefused (List.Forall₂ (Value.Akin K)) (elements m es)
      (elements m (relocateElements K.place es))
  | [], _ => .pure .nil
  | .item e :: es, h => by
    rw [referencesInElements, List.forall_mem_append] at h
    exact .bind (hm.eval e h.1) fun _ _ hv => .bind (elements_twins es h.2) fun _ _ hvs =>
      .pure (.cons hv hvs)
  | .spread e place :: es, h => by
    rw [referencesInElements, List.forall_mem_append] at h
    refine .bind (hm.eval e h.1) fun v v' hv => ?_
    have hd := hv.describe
    cases hv with
    | list hvs =>
      exact .bind (elements_twins es h.2) fun _ _ hus =>
        .pure (List.rel_append (valuesAkin_iff.mp hvs) hus)
    | _ => exact .fail ⟨rfl, congrArg (_ ++ ·) hd, rfl, rfl⟩

include hm in
theorem cases_twins {subject subject' : Value} (hs : subject.Akin K subject')
    {fallback : Option (Expr Nat)} (hf : ∀ x ∈ referencesInOption fallback, K.Named x) :
    ∀ cs : List (SwitchCase Nat), (∀ x ∈ referencesInCases cs, K.Named x) →
      K.Runs Unrefused (Value.Akin K) (cases m location subject fallback cs)
        (cases m (K.place location) subject' (relocateOption K.place fallback)
          (relocateCases K.place cs))
  | [], _ => by
    rcases fallback with _ | e
    · exact .fail ⟨rfl, rfl, rfl, rfl⟩
    · exact hm.eval e hf
  | ⟨p, r⟩ :: cs, h => by
    rw [referencesInCases, List.forall_mem_append, List.forall_mem_append] at h
    have rest := cases_twins hs hf cs h.2.2
    refine .bind (hm.eval p h.1) fun v v' hv => ?_
    have hd := hv.describe
    cases hv with
    | list hvs =>
      simp only [Library.Lists.any_twins hs (valuesAkin_iff.mp hvs)]
      split
      · exact hm.eval r h.2.1
      · exact rest
    | _ =>
      obtain ⟨shape, place⟩ := p
      exact .fail ⟨rfl, congrArg (_ ++ ·) hd, rfl, rfl⟩

/-! ### Loops -/

include hm in
theorem partOfLoop_twins {part : Option (Expr Nat)}
    (h : ∀ x ∈ referencesInOption part, K.Named x) :
    K.Runs Unrefused Eq (partOfLoop m part) (partOfLoop m (relocateOption K.place part)) := by
  rcases part with _ | e
  · exact .pure rfl
  · intro w w' hw
    have he := hm.eval e h hw
    simp only [relocateOption, partOfLoop]
    generalize m.eval e w = o, m.eval (e.relocate K.place) w' = o' at he
    cases he with
    | ok _ state => exact .ok rfl state
    | error stop state =>
      cases stop with
      | fault h => exact .error (.fault h) state
      | signal s =>
        cases s with
        | leave r => exact .error (.signal _) state
        | «continue» => exact .ok rfl state
      | refused h _ => exact h.elim
      | exhausted => exact .error .exhausted state

include hm in
theorem rounds_twins {before after : Option (Expr Nat)} {condition : Expr Nat}
    (hb : ∀ x ∈ referencesInOption before, K.Named x) (hc : ∀ x ∈ condition.references, K.Named x)
    (ha : ∀ x ∈ referencesInOption after, K.Named x) : ∀ (n : Nat) (continued : Bool),
      K.Runs Unrefused (fun _ _ => True) (rounds m location before condition after n continued)
        (rounds m (K.place location) (relocateOption K.place before) (condition.relocate K.place)
          (relocateOption K.place after) n continued)
  | 0, _ => .throw .exhausted
  | n + 1, continued => by
    have round : K.Runs Unrefused (fun _ _ => True)
        (rounds m location before condition after (n + 1) true)
        (rounds m (K.place location) (relocateOption K.place before) (condition.relocate K.place)
          (relocateOption K.place after) (n + 1) true) := by
      refine .bind (hm.eval condition hc) fun v v' hv => ?_
      have hd := hv.describe
      cases hv with
      | boolean b =>
        cases b with
        | true =>
          refine .bind (partOfLoop_twins hm ha) ?_
          rintro continued _ rfl
          exact rounds_twins hb hc ha n continued
        | false => exact .pure trivial
      | _ => exact .fail ⟨rfl, congrArg (_ ++ ·) hd, rfl, rfl⟩
    cases continued with
    | true => exact round
    | false => exact .bind (partOfLoop_twins hm hb) fun _ _ _ => round

end Expressions

/-! ## Statements -/

section Statements

variable {location : Option Location} (hm : K.Drives m)

include hm in
theorem declare_twins {name : String} {bound : TypeBound} {initial : Option (Expr Nat)}
    {place : Option Location} (h : ∀ x ∈ referencesInOption initial, K.Named x) :
    K.Runs Unrefused (fun _ _ => True) (declare m location ⟨name, bound, initial, place⟩)
      (declare m (K.place location)
        ⟨name, bound, relocateOption K.place initial, K.place place⟩) := by
  have rest {v v' : Value} (hv : v.Akin K v') : K.Runs Unrefused (fun _ _ => True)
      (do
        if !bound.accepts v.type then Run.fail (.declared name (bound.getD []) v) location
        modify (·.declare name bound v))
      (do
        if !bound.accepts v'.type then
          Run.fail (.declared name (bound.getD []) v') (K.place location)
        modify (·.declare name bound v')) := by
    rw [hv.type]
    split
    · refine .bind (V := fun _ _ => False) (.fail ⟨rfl, ?_, rfl, rfl⟩) nofun
      exact congrArg (_ ++ ·) hv.describe
    · exact .declare name bound hv
  rcases initial with _ | e
  · exact .bind initialValue_twins fun _ _ => rest
  · exact .bind (hm.eval e h) fun _ _ => rest

include hm in
theorem declareAll_twins : ∀ ds : List (Declaration Nat),
    (∀ x ∈ referencesInDeclarations ds, K.Named x) →
      K.Runs Unrefused (fun _ _ => True) (declareAll m location ds)
        (declareAll m (K.place location) (relocateDeclarations K.place ds))
  | [], _ => .pure trivial
  | ⟨name, bound, initial, place⟩ :: ds, h => by
    rw [referencesInDeclarations, List.forall_mem_append] at h
    exact .bind (declare_twins hm h.1) fun _ _ _ => declareAll_twins ds h.2

include hm in
theorem statement_twins {shape : StatementShape Nat} (h : ∀ x ∈ shape.references, K.Named x) :
    K.Runs Unrefused (fun _ _ => True) (statement m ⟨shape, location⟩)
      (statement m ⟨shape.relocate K.place, K.place location⟩) := by
  cases shape with
  | declare ds => exact declareAll_twins hm ds h
  | expression e => exact .bind (hm.eval e h) fun _ _ _ => .pure trivial
  | leave r e =>
    exact .bind (hm.eval e h) fun _ _ hv => .bind (.setRegister r hv) fun _ _ _ =>
      .throw (.signal _)
  | set r e => exact .bind (hm.eval e h) fun _ _ hv => .setRegister r hv
  | «continue» => exact .throw (.signal _)

include hm in
theorem statements_twins : ∀ ss : List (Statement Nat),
    (∀ x ∈ referencesInStatements ss, K.Named x) →
      K.Runs Unrefused (fun _ _ => True) (statements m ss)
        (statements m (relocateStatements K.place ss))
  | [], _ => .pure trivial
  | ⟨shape, location⟩ :: ss, h => by
    rw [referencesInStatements, List.forall_mem_append] at h
    exact .bind (statement_twins hm h.1) fun _ _ _ => statements_twins ss h.2

theorem holding_twins (r : Register) : K.Scopes (.holding r) (.holding r) :=
  ⟨rfl, .nil, .some ⟨rfl, .null⟩⟩

theorem leaving_twins {r : Register} {x y : Run Unit}
    (h : K.Runs Unrefused (fun _ _ => True) x y) :
    K.Runs Unrefused (Value.Akin K) (leaving r x) (leaving r y) := by
  refine .bind (.inScope (holding_twins r) h) ?_
  rintro ⟨result, scope⟩ ⟨result', scope'⟩ ⟨hr, hs⟩
  simp only at hr hs
  cases hr with
  | ok _ => exact .pure (hs.held r)
  | error stop =>
    cases stop with
    | fault h => exact .throw (.fault h)
    | signal s =>
      cases s with
      | leave r' =>
        simp only []
        split
        · exact .pure (hs.held r)
        · exact .throw (.signal _)
      | «continue» => exact .throw (.signal _)
    | refused h _ => exact h.elim
    | exhausted => exact .throw .exhausted

end Statements

theorem expression_twins (hm : K.Drives m) {e : Expr Nat} (h : ∀ x ∈ e.references, K.Named x) :
    K.Runs Unrefused (Value.Akin K) (expression m e) (expression m (e.relocate K.place)) := by
  obtain ⟨shape, location⟩ := e
  rw [Expr.references] at h
  rw [Expr.relocate]
  cases shape with
  | number x => exact .pure (.number x)
  | boolean b => exact .pure (.boolean b)
  | string s => exact .pure (.string s)
  | null => exact .pure .null
  | binary op l r =>
    rw [Shape.references, List.forall_mem_append] at h
    exact binary_twins hm h.1 h.2
  | unary op e => exact unary_twins hm h
  | conditional c y n =>
    rw [Shape.references, List.forall_mem_append, List.forall_mem_append] at h
    refine branch_twins hm h.1 (fun v v' hv => ?_) (hm.eval y h.2.1) (hm.eval n h.2.2)
    exact .fail ⟨rfl, congrArg (_ ++ ·) hv.describe, rfl, rfl⟩
  | goto names => exact .pure (.action (.goto names))
  | exit => exact .pure (.action .exit)
  | selection e => exact selection_twins hm h
  | choice t a =>
    rw [Shape.references, List.forall_mem_append] at h
    exact choice_twins hm h.1 h.2
  | block ss => exact leaving_twins (statements_twins hm ss h)
  | reference name =>
    refine .bind (hm.resolve name) ?_
    rintro _ a ⟨rfl, ha⟩
    exact .mono (.read a) (fun _ _ => id) fun _ _ hv => hv.akin (ha (h name (.head _)))
  | function f =>
    obtain ⟨label, ps, rest, captures, body⟩ := f
    refine .bind (capture_twins hm captures) ?_
    rintro _ l ⟨rfl, hl⟩
    exact .pure (.function (.closure _ l h hl))
  | list es => exact .bind (elements_twins hm es h) fun _ _ hvs => .pure (Value.akin_list hvs)
  | switch e cs d =>
    rw [Shape.references, List.forall_mem_append, List.forall_mem_append] at h
    exact .bind (hm.eval e h.1) fun _ _ hv => cases_twins hm hv h.2.2 cs h.2.1
  | loop b c a =>
    rw [Shape.references, List.forall_mem_append, List.forall_mem_append] at h
    exact leaving_twins (rounds_twins hm h.1 h.2.1 h.2.2 m.turns false)
  | cond c y n =>
    rw [Shape.references, List.forall_mem_append, List.forall_mem_append] at h
    refine branch_twins hm h.1 (fun v v' hv => ?_) (hm.eval y h.2.1) ?_
    · exact .fail ⟨rfl, congrArg (_ ++ ·) hv.describe, rfl, rfl⟩
    · rcases n with _ | n
      · exact .pure .null
      · exact hm.eval n h.2.2
  | tag name => exact .pure (.list (.cons (.string name) .nil))

/-! ## Calls -/

section Calls

variable (hm : K.Drives m) {args args' : List Value}
  (ha : List.Forall₂ (Value.Akin K) args args')

/-- Evaluations are not refused, whatever calls may be refused for. -/
theorem unrefused {α : Type} {R : CallError → Prop} {V : α → α → Prop} {x y : Run α}
    (h : K.Runs Unrefused V x y) : K.Runs R V x y :=
  .widen (fun _ => False.elim) h

section Body

variable {R : CallError → Prop} (ho : ∀ i, R (.omitted i)) (hw : ∀ i ts v, R (.argument i ts v))

include hm ho in
theorem parameterValue_twins {name : String} {bound : TypeBound} {fallback : Option (Expr Nat)}
    {place : Option Location} (h : ∀ x ∈ referencesInOption fallback, K.Named x) {i : Nat}
    {arg arg' : Value} (hv : arg.Akin K arg') :
    K.Runs R (Value.Akin K) (parameterValue m ⟨name, bound, fallback, place⟩ i arg)
      (parameterValue m ⟨name, bound, relocateOption K.place fallback, K.place place⟩ i arg') := by
  have hv' := hv
  cases hv with
  | null =>
    rcases fallback with _ | e
    · simp only [parameterValue, relocateOption]
      split
      · exact .pure .null
      · exact .throw (.refused (ho i) rfl)
    · exact unrefused (hm.eval e h)
  | _ => exact .pure hv'

include hm ha ho hw in
theorem declareParameters_twins : ∀ (ps : List (Parameter Nat)) (i : Nat),
    (∀ x ∈ referencesInParameters ps, K.Named x) →
      K.Runs R (fun _ _ => True) (declareParameters m args i ps)
        (declareParameters m args' i (relocateParameters K.place ps))
  | [], _, _ => .pure trivial
  | ⟨name, bound, fallback, place⟩ :: ps, i, h => by
    rw [referencesInParameters, List.forall_mem_append] at h
    refine .bind (parameterValue_twins hm ho h.1 (akin_getD ha i)) fun v v' hv => ?_
    simp only [hv.type]
    split
    · refine .bind (V := fun _ _ => False) (.throw (.refused (hw _ _ _) ?_)) nofun
      exact congrArg (_ ++ ·) hv.describe
    · exact .bind (.declare name _ hv) fun _ _ _ => declareParameters_twins ps (i + 1) h.2

include ha in
theorem declareRest_twins (code : FunctionExpr Nat) :
    K.Runs R (fun _ _ => True) (declareRest args code)
      (declareRest args' (code.relocate K.place)) := by
  obtain ⟨label, ps, rest, captures, body⟩ := code
  have hn : (relocateParameters K.place ps).length = ps.length := by
    simpa using congrArg List.length (relocateParameters_names K.place ps)
  rcases rest with _ | name
  · exact .pure trivial
  · simp only [declareRest, FunctionExpr.relocate, hn]
    exact .declare name _ (Value.akin_list (List.forall₂_drop _ ha))

include hm ha ho hw in
theorem body_twins {code : FunctionExpr Nat} (h : ∀ x ∈ code.references, K.Named x) :
    K.Runs R (Value.Akin K) (body m code args) (body m (code.relocate K.place) args') := by
  have hrest := declareRest_twins (R := R) ha code
  obtain ⟨label, ps, rest, captures, body⟩ := code
  rw [FunctionExpr.references, List.forall_mem_append] at h
  exact .bind (declareParameters_twins hm ha ho hw ps 0 h.1) fun _ _ _ =>
    .bind hrest fun _ _ _ => unrefused (hm.eval body h.2)

end Body

theorem captured_twins : ∀ (captured : List (String × Address)) {s : Scope}, K.Leads captured →
    K.Scopes s s → K.Scopes (captured.foldl (fun s (name, a) => s.declare name a) s)
      (captured.foldl (fun s (name, a) => s.declare name a) s)
  | [], _, _, hs => hs
  | (name, a) :: captured, _, hc, hs =>
    captured_twins captured (fun p hp => hc p (.tail _ hp))
      ⟨rfl, hs.leads.cons (hc (name, a) (.head _)), hs.register⟩

include hm ha in
/-- The scope of a call has a register for `return`. -/
theorem callClosure_twins {code : FunctionExpr Nat} {captured : List (String × Address)}
    (named : ∀ x ∈ code.references, K.Named x) (leads : K.Leads captured) :
    K.Runs (Callee.closure code captured).Refuses (Value.Akin K) (callClosure m code captured args)
      (callClosure m (code.relocate K.place) captured args') := by
  refine .bind (.inScope (captured_twins captured leads (holding_twins .return))
    (body_twins hm ha (fun _ => trivial) (fun _ _ _ => trivial) named)) ?_
  rintro ⟨result, scope⟩ ⟨result', scope'⟩ ⟨hr, hs⟩
  have hv := hs.held .return
  simp only at hr hs
  cases hr with
  | ok h =>
    simp only [hv.isNull]
    split
    · exact .pure h
    · exact .pure hv
  | error stop =>
    cases stop with
    | fault h => exact .throw (.fault h)
    | signal s =>
      rcases s with (_ | _ | _) | _
      · exact .throw (.signal _)
      · exact .pure hv
      · exact .throw (.signal _)
      · exact .throw (.signal _)
    | refused h text => exact .throw (.refused h text)
    | exhausted => exact .throw .exhausted

include hm ha in
theorem callNative_twins {f : Native} (hf : f.draws = true → K.chance) :
    K.Runs (Callee.native f).Refuses (Value.Akin K) (callNative m f args)
      (callNative m f args') := by
  refine .bind (unrefused (Native.run_twins ha hm f hf)) fun r r' hr => ?_
  cases hr with
  | ok h => exact .pure h
  | error h => exact .throw (.refused rfl (congrArg (_ ++ ·) h))

include hm ha in
theorem call_twins {f f' : Function} (hf : f.Akin K f') :
    K.Runs f.Refuses (Value.Akin K) (call m f args) (call m f' args') := by
  obtain ⟨hb, hc, hs⟩ := hf.flatten
  simp only [call, Function.Refuses]
  generalize f.flatten = flat, f'.flatten = flat' at hb hc hs ⊢
  obtain ⟨before, callee, after⟩ := flat
  obtain ⟨before', callee', after'⟩ := flat'
  have hargs := List.rel_append (List.rel_append hb ha) hs
  cases hc with
  | closure code captured named leads => exact callClosure_twins hm hargs named leads
  | native f hf => exact callNative_twins hm hargs hf

end Calls

end Tale.Evaluation

namespace Tale

/-- Machines of every limit make alike of what is akin. -/
theorem machine_drives (K : Kin) : ∀ n, K.Drives (machine n)
  | 0 => ⟨.resolve, fun _ _ => .throw .exhausted, fun _ _ _ _ => .throw .exhausted⟩
  | n + 1 =>
    ⟨.resolve, fun _ h => Evaluation.expression_twins (machine_drives K n) h,
      fun hf _ _ ha => Evaluation.call_twins (machine_drives K n) ha hf⟩

end Tale
