import Tale.Library.Call
import Tale.Proofs.Twins

/-!
# The library on akin arguments

Akin arguments are taken or refused alike, since what a function of the library reads of them is
the same: a refusal differs in the values it speaks of, but not in its words. Functions that draw
take part only where both tellings draw alike.
-/

namespace Tale

variable {α β : Type} {K : Kin}

/-! ## Results -/

/-- Results that are alike: refusals say the same. -/
def Results (V : α → α → Prop) (x y : Except Refusal α) : Prop :=
  Concur (fun r r' => r'.text = r.text) V x y

namespace Results

variable {V : α → α → Prop} {U : β → β → Prop} {x y : Except Refusal α}

theorem pure {a a' : α} (h : V a a') : Results V (pure a) (pure a') :=
  .ok h

theorem refuse {r r' : Refusal} (h : r'.text = r.text) : Results V (throw r) (throw r') :=
  .error h

theorem throw {r : Refusal} : Results V (throw r) (throw r) :=
  refuse rfl

theorem refl : Results Eq x x := by
  rcases x with r | a
  · exact .error rfl
  · exact .ok rfl

theorem bind {f g : α → Except Refusal β} (h : Results V x y)
    (hf : ∀ a a', V a a' → Results U (f a) (g a')) : Results U (x >>= f) (y >>= g) := by
  cases h with
  | ok h => exact hf _ _ h
  | error h => exact .error h

/-- A part whose result is the same. -/
theorem step {f g : α → Except Refusal β} (h : Results Eq x y)
    (hf : ∀ a, Results U (f a) (g a)) : Results U (x >>= f) (y >>= g) := by
  refine h.bind fun a a' ha => ?_
  subst ha
  exact hf a

theorem guard {p : Prop} [Decidable p] {r : Refusal} {f g : PUnit → Except Refusal β}
    (h : Results U (f ⟨⟩) (g ⟨⟩)) :
    Results U (if p then MonadExcept.throw r >>= f else f ⟨⟩)
      (if p then MonadExcept.throw r >>= g else g ⟨⟩) := by
  split
  · exact throw
  · exact h

theorem mapM {W : β → β → Prop} {f g : β → Except Refusal α}
    (hf : ∀ b b', W b b' → Results V (f b) (g b')) : ∀ {bs bs' : List β}, List.Forall₂ W bs bs' →
      Results (List.Forall₂ V) (bs.mapM f) (bs'.mapM g)
  | _, _, .nil => .pure .nil
  | _, _, .cons h hs => by
    rw [List.mapM_cons, List.mapM_cons]
    exact (hf _ _ h).bind fun _ _ ha => (mapM hf hs).bind fun _ _ has => .pure (.cons ha has)

/-- The results are the same if each of them is. -/
theorem mapMSame {W : β → β → Prop} {f g : β → Except Refusal α}
    (hf : ∀ b b', W b b' → Results Eq (f b) (g b')) {bs bs' : List β} (h : List.Forall₂ W bs bs') :
    Results Eq (bs.mapM f) (bs'.mapM g) := by
  have := mapM hf h
  rwa [List.forall₂_eq_eq_eq] at this

end Results

theorem forall₂_zipIdx {W : β → β → Prop} {bs bs' : List β} (h : List.Forall₂ W bs bs') (n : Nat) :
    List.Forall₂ (fun p p' => W p.1 p'.1 ∧ p'.2 = p.2) (bs.zipIdx n) (bs'.zipIdx n) := by
  induction h generalizing n with
  | nil => exact .nil
  | cons h _ ih => exact .cons ⟨h, rfl⟩ (ih (n + 1))

theorem forall₂_set {W : β → β → Prop} {bs bs' : List β} (h : List.Forall₂ W bs bs') {b b' : β}
    (hb : W b b') (i : Nat) : List.Forall₂ W (bs.set i b) (bs'.set i b') := by
  induction h generalizing i with
  | nil => exact .nil
  | cons h hs ih =>
    cases i with
    | zero => exact .cons hb hs
    | succ i => exact .cons h (ih i)

theorem forall₂_getElem? {W : β → β → Prop} {bs bs' : List β} (h : List.Forall₂ W bs bs')
    (i : Nat) : Option.Rel W bs[i]? bs'[i]? := by
  induction h generalizing i with
  | nil => exact .none
  | cons h _ ih =>
    cases i with
    | zero => exact .some h
    | succ i => exact ih i

theorem forall₂_replicate {W : β → β → Prop} {b b' : β} (hb : W b b') :
    ∀ n : Nat, List.Forall₂ W (List.replicate n b) (List.replicate n b')
  | 0 => .nil
  | n + 1 => .cons hb (forall₂_replicate hb n)

/-! ## Arguments -/

theorem Value.akin_list {vs vs' : List Value} (h : List.Forall₂ (Value.Akin K) vs vs') :
    (Value.list vs).Akin K (.list vs') :=
  .list (valuesAkin_iff.mpr h)

section Arguments

variable {args args' : List Value} (h : List.Forall₂ (Value.Akin K) args args')

include h in
theorem akin_getD (i : Nat) : (args.getD i .null).Akin K (args'.getD i .null) := by
  induction h generalizing i with
  | nil => exact .null
  | cons hv _ ih =>
    cases i with
    | zero => exact hv
    | succ i => exact ih i

namespace Arguments

include h in
theorem count_twins {least : Nat} {most : Option Nat} :
    Results Eq (count args least most) (count args' least most) := by
  rw [count, count, h.length_eq]
  exact .refl

section Take

variable {type : ValueType} {extract : Value → Option α} {i : Nat} {fallback : Option α}

theorem take_missing (ha : args.getD i .null = .null) (a : α) :
    take type extract args i (some a) = .ok a := by
  simp only [take, ha]

theorem take_given (hg : args.getD i .null = .null → fallback = none) :
    take type extract args i fallback
      = (extract (args.getD i .null)).elim (.error (.argument i type (args.getD i .null))) .ok := by
  simp only [take]
  split
  · cases hg ‹_›
  · cases extract (args.getD i .null) <;> rfl

include h in
theorem take_twins {V : α → α → Prop}
    (he : ∀ v v' : Value, v.Akin K v' → Option.Rel V (extract v) (extract v'))
    (hf : ∀ a ∈ fallback, V a a) :
    Results V (take type extract args i fallback) (take type extract args' i fallback) := by
  have hv := akin_getD h i
  have absent := hv.eq_null_iff
  by_cases hg : args.getD i .null = .null → fallback = none
  · rw [take_given hg, take_given (hg ∘ absent.mp)]
    have hx := he _ _ hv
    generalize extract (args.getD i .null) = o, extract (args'.getD i .null) = o' at hx
    cases hx with
    | none => exact .refuse (congrArg (_ ++ ·) hv.describe)
    | some ha => exact .ok ha
  · obtain ⟨ha, hn⟩ := Classical.not_imp.mp hg
    obtain ⟨a, rfl⟩ := Option.ne_none_iff_exists'.mp hn
    rw [take_missing ha, take_missing (absent.mpr ha)]
    exact .ok (hf a rfl)

end Take

include h in
theorem number_twins {i : Nat} {fallback : Option Float} :
    Results Eq (number args i fallback) (number args' i fallback) := by
  refine take_twins h (fun v v' hv => ?_) fun _ _ => rfl
  cases hv with
  | number x => exact .some rfl
  | _ => exact .none

include h in
theorem boolean_twins {i : Nat} : Results Eq (boolean args i) (boolean args' i) := by
  refine take_twins h (fun v v' hv => ?_) nofun
  cases hv with
  | boolean b => exact .some rfl
  | _ => exact .none

include h in
theorem string_twins {i : Nat} {fallback : Option String} :
    Results Eq (string args i fallback) (string args' i fallback) := by
  refine take_twins h (fun v v' hv => ?_) fun _ _ => rfl
  cases hv with
  | string s => exact .some rfl
  | _ => exact .none

include h in
theorem list_twins {i : Nat} :
    Results (List.Forall₂ (Value.Akin K)) (list args i) (list args' i) := by
  refine take_twins h (fun v v' hv => ?_) nofun
  cases hv with
  | list h => exact .some (valuesAkin_iff.mp h)
  | _ => exact .none

include h in
/-- A list that may be left out. -/
theorem listOrEmpty_twins {i : Nat} :
    Results (List.Forall₂ (Value.Akin K)) (list args i (some [])) (list args' i (some [])) := by
  refine take_twins h (fun v v' hv => ?_) ?_
  · cases hv with
    | list h => exact .some (valuesAkin_iff.mp h)
    | _ => exact .none
  · rintro vs ⟨⟩
    exact .nil

include h in
theorem function_twins {i : Nat} :
    Results (Function.Akin K) (function args i) (function args' i) := by
  refine take_twins h (fun v v' hv => ?_) nofun
  cases hv with
  | function h => exact .some h
  | _ => exact .none

include h in
theorem each_twins {V : α → α → Prop} {take take' : Nat → Except Refusal α}
    (ht : ∀ i, Results V (take i) (take' i)) :
    Results (List.Forall₂ V) (each take args) (each take' args') := by
  rw [each, each, ← h.length_eq]
  exact .mapM (W := Eq) (fun i _ hi => hi ▸ ht i) (List.forall₂_refl _)

include h in
theorem eachSame_twins {take take' : Nat → Except Refusal α}
    (ht : ∀ i, Results Eq (take i) (take' i)) : Results Eq (each take args) (each take' args') := by
  rw [each, each, ← h.length_eq]
  exact .mapMSame (W := Eq) (fun i _ hi => hi ▸ ht i) (List.forall₂_refl _)

end Arguments

end Arguments

/-! ## Functions of their arguments -/

namespace Library

open Arguments

section Plain

variable {args args' : List Value} (h : List.Forall₂ (Value.Akin K) args args')

namespace Contents

theorem row_twins {width i : Nat} {cells cells' : List Value}
    (hc : List.Forall₂ (Value.Akin K) cells cells') :
    Results Eq (row width cells i) (row width cells' i) := by
  rw [row, row, ← hc.length_eq]
  refine .guard (.mapMSame ?_ (forall₂_zipIdx hc 0))
  rintro ⟨v, j⟩ ⟨v', _⟩ ⟨hv, rfl⟩
  have hd := hv.describe
  cases hv with
  | string s => exact .refl
  | _ => exact .refuse (congrArg (_ ++ ·) hd)

theorem rows_twins {cells cells' : List (List Value)}
    (hc : List.Forall₂ (List.Forall₂ (Value.Akin K)) cells cells') :
    Results Eq (rows cells) (rows cells') := by
  have width : (cells'.headD []).length = (cells.headD []).length := by
    cases hc with
    | nil => rfl
    | cons hc _ => exact hc.length_eq.symm
  simp only [rows, width]
  refine .mapMSame ?_ (forall₂_zipIdx hc 0)
  rintro ⟨row, i⟩ ⟨row', _⟩ ⟨hr, rfl⟩
  exact row_twins hr

end Contents

namespace Check

include h in
theorem assert_twins : Results (Value.Akin K) (assert args) (assert args') := by
  refine .step (count_twins h) fun _ => .step (boolean_twins h) fun b => ?_
  split
  · exact .pure .null
  · exact .throw

include h in
theorem timerName_twins : Results Eq (timerName args) (timerName args') :=
  .step (count_twins h) fun _ => string_twins h

end Check

namespace Lists

include h in
theorem length_twins : Results (Value.Akin K) (length args) (length args') := by
  refine .step (count_twins h) fun _ => .bind (list_twins h) fun vs vs' hvs => ?_
  rw [← hvs.length_eq]
  exact .pure (.number _)

include h in
theorem set_twins : Results (Value.Akin K) (set args) (set args') := by
  refine .step (count_twins h) fun _ => .bind (list_twins h) fun vs vs' hvs =>
    .step (number_twins h) fun x => ?_
  rcases Decimal.whole? x with _ | i
  · exact .throw
  · simp only [← hvs.length_eq]
    exact .guard (.guard (.pure (Value.akin_list (forall₂_set hvs (akin_getD h 2) _))))

include h in
theorem createFilled_twins : Results (Value.Akin K) (createFilled args) (createFilled args') := by
  refine .step (count_twins h) fun _ => .step (number_twins h) fun x => ?_
  rcases Decimal.whole? x with _ | n
  · exact .throw
  · exact .guard (.guard (.pure (Value.akin_list (forall₂_replicate (akin_getD h 1) _))))

theorem chunks_twins {k : Nat} {vs vs' : List Value} (hvs : List.Forall₂ (Value.Akin K) vs vs') :
    List.Forall₂ (Value.Akin K) ((chunks k vs).map .list) ((chunks k vs').map .list) := by
  fun_induction chunks k vs generalizing vs' with
  | case1 =>
    cases hvs
    rw [chunks]
    exact .nil
  | case2 v vs ih =>
    cases hvs with
    | cons hv hvs =>
      rw [chunks]
      exact .cons (Value.akin_list (.cons hv (List.forall₂_take k hvs)))
        (ih (List.forall₂_drop k hvs))

include h in
theorem chunk_twins : Results (Value.Akin K) (chunk args) (chunk args') := by
  refine .step (count_twins h) fun _ => .bind (list_twins h) fun vs vs' hvs =>
    .step (number_twins h) fun x => ?_
  rcases Decimal.whole? x with _ | n
  · exact .throw
  · exact .guard (.pure (Value.akin_list (chunks_twins hvs)))

include h in
theorem splice_twins : Results (Value.Akin K) (splice args) (splice args') := by
  refine .step (count_twins h) fun _ => .bind (list_twins h) fun vs vs' hvs =>
    .step (number_twins h) fun _ => .step (number_twins h) fun x =>
      .bind (listOrEmpty_twins h) fun us us' hus => ?_
  rw [← hvs.length_eq]
  refine .step .refl fun start => ?_
  rcases Decimal.whole? x with _ | n
  · exact .throw
  · refine .guard (.guard (.pure (Value.akin_list ?_)))
    exact List.rel_append (List.rel_append (List.forall₂_take _ hvs) hus) (List.forall₂_drop _ hvs)

include h in
theorem slice_twins : Results (Value.Akin K) (slice args) (slice args') := by
  refine .step (count_twins h) fun _ => .bind (list_twins h) fun vs vs' hvs =>
    .step (number_twins h) fun _ => ?_
  rw [← hvs.length_eq]
  refine .step (number_twins h) fun stop => .step .refl fun start => ?_
  rcases Decimal.whole? stop with _ | n
  · exact .throw
  · refine .guard (.guard (.pure (Value.akin_list ?_)))
    exact List.forall₂_drop _ (List.forall₂_take _ hvs)

/-- What is searched for is found at the same index. -/
theorem findIdx?_twins {v v' : Value} (hv : v.Akin K v') {vs vs' : List Value}
    (hvs : List.Forall₂ (Value.Akin K) vs vs') :
    vs'.findIdx? (·.same v') = vs.findIdx? (·.same v) := by
  induction hvs with
  | nil => rfl
  | cons hu _ ih => rw [List.findIdx?_cons, List.findIdx?_cons, hu.same hv, ih]

theorem any_twins {v v' : Value} (hv : v.Akin K v') {vs vs' : List Value}
    (hvs : List.Forall₂ (Value.Akin K) vs vs') : vs'.any (·.same v') = vs.any (·.same v) := by
  induction hvs with
  | nil => rfl
  | cons hu _ ih => rw [List.any_cons, List.any_cons, hu.same hv, ih]

include h in
theorem indexOf_twins : Results (Value.Akin K) (indexOf args) (indexOf args') := by
  refine .step (count_twins h) fun _ => .bind (list_twins h) fun vs vs' hvs => ?_
  rw [findIdx?_twins (akin_getD h 1) hvs]
  split <;> exact .pure (.number _)

include h in
theorem includes_twins : Results (Value.Akin K) (includes args) (includes args') := by
  refine .step (count_twins h) fun _ => .bind (list_twins h) fun vs vs' hvs => ?_
  rw [any_twins (akin_getD h 1) hvs]
  exact .pure (.boolean _)

end Lists

namespace Numbers

include h in
theorem extreme_twins {before : Float → Float → Bool} {start : Float} :
    Results (Value.Akin K) (extreme before start args) (extreme before start args') :=
  .step (count_twins h) fun _ => .step (eachSame_twins h fun _ => number_twins h) fun _ =>
    .pure (.number _)

include h in
theorem floor_twins : Results (Value.Akin K) (floor args) (floor args') :=
  .step (count_twins h) fun _ => .step (number_twins h) fun _ => .pure (.number _)

include h in
theorem ceil_twins : Results (Value.Akin K) (ceil args) (ceil args') :=
  .step (count_twins h) fun _ => .step (number_twins h) fun _ => .pure (.number _)

end Numbers

namespace Texts

include h in
theorem length_twins : Results (Value.Akin K) (length args) (length args') :=
  .step (count_twins h) fun _ => .step (string_twins h) fun _ => .pure (.number _)

include h in
theorem formatFixed_twins : Results (Value.Akin K) (formatFixed args) (formatFixed args') :=
  .step (count_twins h) fun _ => .step (number_twins h) fun _ => .step (number_twins h) fun _ =>
    .step .refl fun _ => .pure (.string _)

include h in
theorem formatPrecision_twins :
    Results (Value.Akin K) (formatPrecision args) (formatPrecision args') :=
  .step (count_twins h) fun _ => .step (number_twins h) fun _ => .step (number_twins h) fun _ =>
    .step .refl fun _ => .pure (.string _)

include h in
theorem split_twins : Results (Value.Akin K) (split args) (split args') := by
  refine .step (count_twins h) fun _ => .step (string_twins h) fun _ =>
    .step (string_twins h) fun _ => .pure (Value.akin_list ?_)
  rw [List.forall₂_map_left_iff, List.forall₂_map_right_iff]
  exact List.forall₂_same.mpr fun _ _ => .string _

include h in
theorem subByLength_twins : Results (Value.Akin K) (subByLength args) (subByLength args') := by
  refine .step (count_twins h) fun _ => .step (string_twins h) fun _ =>
    .step (number_twins h) fun _ => .step (number_twins h) fun x => .step .refl fun _ => ?_
  rcases Decimal.whole? x with _ | n
  · exact .throw
  · exact .guard (.guard (.pure (.string _)))

include h in
theorem subByIndex_twins : Results (Value.Akin K) (subByIndex args) (subByIndex args') := by
  refine .step (count_twins h) fun _ => .step (string_twins h) fun _ =>
    .step (number_twins h) fun _ => .step (number_twins h) fun x => .step .refl fun _ => ?_
  rcases Decimal.whole? x with _ | n
  · exact .throw
  · exact .guard (.guard (.pure (.string _)))

end Texts

namespace Chance

include h in
theorem bell_twins : Results Eq (bell args) (bell args') :=
  .step (count_twins h) fun _ => .step (number_twins h) fun _ => .step (number_twins h) fun _ =>
    .step (number_twins h) fun _ => .step (number_twins h) fun _ => .refl

end Chance

namespace Drawing

include h in
theorem alignment_twins : Results Eq (alignment args) (alignment args') :=
  .step (string_twins h) fun _ => .step (string_twins h) fun _ => .refl

end Drawing

end Plain

end Library

/-! ## Machines -/

/-- The reasons for which a callee refuses a call. -/
def Callee.Refuses : Callee → CallError → Prop
  | .closure .., .omitted _ => True
  | .closure .., .argument .. => True
  | .native f, .native g _ => g = f
  | _, _ => False

/-- A function refuses for a reason of its own, and never for one of a function it calls. -/
def Function.Refuses (f : Function) : CallError → Prop :=
  f.flatten.2.1.Refuses

/-- What a machine makes of akin functions and of a tree moved to other places is alike. Evaluations
are never refused. -/
structure Kin.Drives (K : Kin) (m : Machine) : Prop where
  resolve (name : String) :
    K.Runs Unrefused (fun a a' => a' = a ∧ (K.Named name → K.Open a)) (m.resolve name)
      (m.resolve name)
  eval (e : Expr Nat) (h : ∀ x ∈ e.references, K.Named x) :
    K.Runs Unrefused (Value.Akin K) (m.eval e) (m.eval (e.relocate K.place))
  call {f f' : Function} (hf : f.Akin K f') {args args' : List Value}
    (ha : List.Forall₂ (Value.Akin K) args args') :
    K.Runs f.Refuses (Value.Akin K) (m.call f args) (m.call f' args')

/-! ## Answers -/

/-- Twin computations that may also refuse their arguments. -/
def Kin.Answers (K : Kin) (V : α → α → Prop) (x y : ExceptT Refusal Run α) : Prop :=
  K.Runs Unrefused (Results V) (x : Run (Except Refusal α)) y

namespace Kin.Answers

variable {V : α → α → Prop} {U : β → β → Prop} {x y : ExceptT Refusal Run α}

theorem of_results {r r' : Except Refusal α} (h : Results V r r') :
    K.Answers V (ExceptT.mk (Pure.pure r)) (ExceptT.mk (Pure.pure r')) :=
  Twins.pure h

theorem pure {a a' : α} (h : V a a') : K.Answers V (pure a) (pure a') :=
  Twins.pure (.pure h)

theorem refuse {r r' : Refusal} (h : r'.text = r.text) : K.Answers V (throw r) (throw r') :=
  Twins.pure (.refuse h)

theorem bind {f g : α → ExceptT Refusal Run β} (h : K.Answers V x y)
    (hf : ∀ a a', V a a' → K.Answers U (f a) (g a')) : K.Answers U (x >>= f) (y >>= g) := by
  refine Twins.bind h fun r r' hr => ?_
  cases hr with
  | ok ha => exact hf _ _ ha
  | error hr => exact Twins.pure (.error hr)

/-- A computation that cannot refuse. -/
theorem lift {x y : Run α} (h : K.Runs Unrefused V x y) : K.Answers V (liftM x) (liftM y) :=
  Twins.bind h fun _ _ ha => Twins.pure (.pure ha)

/-- A part that finds the same in worlds that are alike. -/
theorem look {f g : α → ExceptT Refusal Run β} (h : K.Answers Eq x y)
    (hf : ∀ a, K.Answers U (f a) (g a)) : K.Answers U (x >>= f) (y >>= g) := by
  refine h.bind fun a a' ha => ?_
  subst ha
  exact hf a

/-- A part that makes the same of arguments that are akin. -/
theorem step {f g : α → ExceptT Refusal Run β} {r r' : Except Refusal α} (h : Results Eq r r')
    (hf : ∀ a, K.Answers U (f a) (g a)) : K.Answers U (liftM r >>= f) (liftM r' >>= g) :=
  look (of_results h) hf

theorem guard {p : Prop} [Decidable p] {r : Refusal} {f g : PUnit → ExceptT Refusal Run β}
    (h : K.Answers U (f ⟨⟩) (g ⟨⟩)) :
    K.Answers U (if p then MonadExcept.throw r >>= f else f ⟨⟩)
      (if p then MonadExcept.throw r >>= g else g ⟨⟩) := by
  split
  · exact Twins.pure (.refuse rfl)
  · exact h

/-- The last change, after which there is only the answer. -/
theorem last {x y : Run Unit} (h : K.Runs Unrefused (fun _ _ => True) x y) :
    K.Answers (Value.Akin K) (liftM x >>= fun _ => Pure.pure .null)
      (liftM y >>= fun _ => Pure.pure .null) :=
  bind (lift h) fun _ _ _ => pure .null

end Kin.Answers

/-! ## Functions that call others -/

section Calls

variable {m : Machine} (hm : K.Drives m)

include hm in
theorem Library.Check.fails_twins {f f' : Function} (hf : f.Akin K f') :
    K.Runs Unrefused Eq (fails m.call f) (fails m.call f') := by
  intro w w' hw
  have h := hm.call hf .nil hw
  simp only [fails]
  generalize m.call f [] w = o, m.call f' [] w' = o' at h
  cases h with
  | ok _ state => exact .ok rfl state
  | error stop state =>
    cases stop with
    | fault _ => exact .ok rfl state
    | signal s => exact .error (.signal s) state
    | refused _ _ => exact .ok rfl state
    | exhausted => exact .error .exhausted state

variable {args args' : List Value} (ha : List.Forall₂ (Value.Akin K) args args')

include hm ha in
theorem Library.Check.assertError_twins :
    K.Answers (Value.Akin K) (assertError m.call args) (assertError m.call args') := by
  refine .step (Arguments.count_twins ha) fun _ =>
    .bind (.of_results (Arguments.function_twins ha)) fun f f' hf =>
      .bind (.lift (fails_twins hm hf)) ?_
  rintro b _ rfl
  split
  · exact .pure .null
  · exact .refuse rfl

namespace Library.Lists

section Elements

variable {self : Native} {f f' : Function} (hf : f.Akin K f')

include hm hf in
/-- That a call is refused makes the whole list refused, so no refusal of a call gets through. -/
theorem apply_twins {v v' : Value} (hv : v.Akin K v') (i : Nat) :
    K.Answers (Value.Akin K) (apply m.call self f v i) (apply m.call self f' v' i) := by
  intro w w' hw
  have h := hm.call hf (.cons hv (.cons (.number (Nat.toFloat i)) .nil)) hw
  simp only [apply, ExceptT.mk]
  change Paired _ _ _ (m.call f [v, .nat i] w) (m.call f' [v', .nat i] w') at h
  generalize m.call f [v, .nat i] w = o, m.call f' [v', .nat i] w' = o' at h
  cases h with
  | ok value state => exact .ok (.ok value) state
  | error stop state =>
    cases stop with
    | fault h => exact .error (.fault (h.through rfl)) state
    | signal s => exact .error (.signal s) state
    | refused _ text => exact .ok (.error (congrArg (_ ++ ·) text)) state
    | exhausted => exact .error .exhausted state

include hm hf in
theorem test_twins {v v' : Value} (hv : v.Akin K v') (i : Nat) :
    K.Answers Eq (test m.call self f v i) (test m.call self f' v' i) := by
  refine .bind (apply_twins hm hf hv i) fun u u' hu => ?_
  have hd := hu.describe
  cases hu with
  | boolean b => exact .pure rfl
  | _ => exact .refuse (congrArg (_ ++ · ++ _ ++ _) hd)

include hm hf in
theorem mapFrom_twins {vs vs' : List Value} (hvs : List.Forall₂ (Value.Akin K) vs vs') (i : Nat) :
    K.Answers (List.Forall₂ (Value.Akin K)) (mapFrom m.call self f i vs)
      (mapFrom m.call self f' i vs') := by
  induction hvs generalizing i with
  | nil => exact .pure .nil
  | cons hv _ ih =>
    exact .bind (apply_twins hm hf hv i) fun _ _ hu => .bind (ih (i + 1)) fun _ _ hus =>
      .pure (.cons hu hus)

include hm hf in
theorem filterFrom_twins {vs vs' : List Value} (hvs : List.Forall₂ (Value.Akin K) vs vs')
    (i : Nat) : K.Answers (List.Forall₂ (Value.Akin K)) (filterFrom m.call self f i vs)
      (filterFrom m.call self f' i vs') := by
  induction hvs generalizing i with
  | nil => exact .pure .nil
  | cons hv _ ih =>
    refine .bind (test_twins hm hf hv i) fun kept _ hk => .bind (ih (i + 1)) fun _ _ hus => .pure ?_
    subst hk
    split
    · exact .cons hv hus
    · exact hus

include hm hf in
theorem findFrom_twins {vs vs' : List Value} (hvs : List.Forall₂ (Value.Akin K) vs vs') (i : Nat) :
    K.Answers Eq (findFrom m.call self f i vs) (findFrom m.call self f' i vs') := by
  induction hvs generalizing i with
  | nil => exact .pure rfl
  | cons hv _ ih =>
    refine .bind (test_twins hm hf hv i) fun found _ hk => ?_
    subst hk
    split
    · exact .pure rfl
    · exact ih (i + 1)

end Elements

include ha in
theorem listAndFunction_twins :
    Results (fun p p' => List.Forall₂ (Value.Akin K) p.1 p'.1 ∧ p.2.Akin K p'.2)
      (listAndFunction args) (listAndFunction args') :=
  .step (Arguments.count_twins ha) fun _ => .bind (Arguments.list_twins ha) fun _ _ hvs =>
    .bind (Arguments.function_twins ha) fun _ _ hf => .pure ⟨hvs, hf⟩

include hm ha in
theorem forEach_twins : K.Answers (Value.Akin K) (forEach m.call args) (forEach m.call args') :=
  .bind (.of_results (listAndFunction_twins ha)) fun _ _ hp =>
    .bind (mapFrom_twins hm hp.2 hp.1 0) fun _ _ _ => .pure .null

include hm ha in
theorem map_twins : K.Answers (Value.Akin K) (map m.call args) (map m.call args') :=
  .bind (.of_results (listAndFunction_twins ha)) fun _ _ hp =>
    .bind (mapFrom_twins hm hp.2 hp.1 0) fun _ _ hus => .pure (Value.akin_list hus)

include hm ha in
theorem filter_twins : K.Answers (Value.Akin K) (filter m.call args) (filter m.call args') :=
  .bind (.of_results (listAndFunction_twins ha)) fun _ _ hp =>
    .bind (filterFrom_twins hm hp.2 hp.1 0) fun _ _ hus => .pure (Value.akin_list hus)

include hm ha in
theorem findIndex_twins :
    K.Answers (Value.Akin K) (findIndex m.call args) (findIndex m.call args') := by
  refine .bind (.of_results (listAndFunction_twins ha)) fun _ _ hp =>
    .bind (findFrom_twins hm hp.2 hp.1 0) fun found _ hf => ?_
  subst hf
  rcases found with _ | i
  · exact .pure (.number _)
  · exact .pure (.number _)

end Library.Lists

end Calls

/-! ## All functions -/

section Run

open Library

theorem plain_twins {r r' : Except Refusal Value} (h : Results (Value.Akin K) r r') :
    K.Answers (Value.Akin K) (plain r) (plain r') :=
  .of_results h

variable {args args' : List Value} (ha : List.Forall₂ (Value.Akin K) args args')

/-! ### Changes -/

theorem emit_twins (n : Node) : K.Runs Unrefused (fun _ _ => True) (Run.emit n) (Run.emit n) :=
  .modify fun _ _ hw => hw.emit n

theorem draw_twins (hc : K.chance) (sample : Random → Float × Random) :
    K.Runs Unrefused Eq (Run.draw sample) (Run.draw sample) := by
  intro w w' hw
  refine .ok ?_ { hw with random := fun _ => ?_ } <;> rw [hw.random hc]

theorem addTimer_twins (name : String) :
    K.Runs Unrefused (fun _ _ => True) (Check.addTimer name) (Check.addTimer name) :=
  .modify fun _ _ hw => { hw with timers := congrArg (name :: ·) hw.timers }

theorem removeTimer_twins (name : String) :
    K.Runs Unrefused Eq (Check.removeTimer name) (Check.removeTimer name) := by
  intro w w' hw
  refine .ok ?_ { hw with timers := ?_ } <;> simp only [hw.timers]

theorem timerRuns_twins (name : String) :
    K.Runs Unrefused Eq (Check.timerRuns name) (Check.timerRuns name) :=
  .get_bind fun _ _ hw => .pure (by rw [hw.timers])

theorem pin_twins {f f' : Option Function} (hf : Option.Rel (Function.Akin K) f f') :
    K.Runs Unrefused (fun _ _ => True) (Reader.pin f) (Reader.pin f') :=
  .modify fun _ _ hw => { hw with pinned := hf }

theorem describe_twins (text : Option String) :
    K.Runs Unrefused (fun _ _ => True) (Reader.describe text) (Reader.describe text) :=
  .modify fun _ _ hw => { hw with stateText := rfl }

theorem provider_twins : K.Runs Unrefused Eq Drawing.provider Drawing.provider :=
  .get_bind fun _ _ hw => .pure hw.provider.symm

theorem canvasExists_twins (id : String) :
    K.Runs Unrefused Eq (Drawing.canvasExists id) (Drawing.canvasExists id) :=
  .get_bind fun _ _ hw => .pure (by rw [hw.canvases])

theorem addCanvas_twins (id : String) (c : Canvas) :
    K.Runs Unrefused (fun _ _ => True) (Drawing.addCanvas id c) (Drawing.addCanvas id c) :=
  .modify fun _ _ hw => { hw with canvases := congrArg ((id, c) :: ·) hw.canvases }

theorem putCanvas_twins (id : String) (c : Canvas) :
    K.Runs Unrefused (fun _ _ => True) (Drawing.putCanvas id c) (Drawing.putCanvas id c) :=
  .modify fun _ _ hw =>
    { hw with canvases := congrArg (Drawing.replace · id c) hw.canvases }

theorem putOut_twins (p : Provider) (id : String) (c : Canvas) :
    K.Runs Unrefused (fun _ _ => True) (Drawing.putOut p id c) (Drawing.putOut p id c) :=
  .bind (putCanvas_twins id _) fun _ _ _ => emit_twins _

theorem canvas_twins (id : String) : K.Answers Eq (Drawing.canvas id) (Drawing.canvas id) := by
  intro w w' hw
  rw [Drawing.canvas_run, Drawing.canvas_run, hw.canvases]
  cases w.canvases.lookup id with
  | some c => exact .ok (.ok rfl) hw
  | none => exact .ok (.error rfl) hw

/-! ### Functions that change the world -/

namespace Library.Contents

open Arguments

include ha in
theorem paragraph_twins : K.Answers (Value.Akin K) (paragraph args) (paragraph args') :=
  .step (count_twins ha) fun _ => .step (string_twins ha) fun _ => .last (emit_twins _)

include ha in
theorem image_twins : K.Answers (Value.Akin K) (image args) (image args') :=
  .step (count_twins ha) fun _ => .step (string_twins ha) fun _ => .last (emit_twins _)

include ha in
theorem items_twins {tag : String} : K.Answers (Value.Akin K) (items tag args) (items tag args') :=
  .step (eachSame_twins ha fun _ => string_twins ha) fun _ => .last (emit_twins _)

include ha in
theorem header_twins : K.Answers (Value.Akin K) (header args) (header args') :=
  .step (count_twins ha) fun _ => .step (number_twins ha) fun _ => .step .refl fun _ =>
    .step (string_twins ha) fun _ => .last (emit_twins _)

include ha in
theorem table_twins : K.Answers (Value.Akin K) (table args) (table args') :=
  .step (count_twins ha) fun _ => .bind (.of_results (each_twins ha fun _ => list_twins ha))
    fun _ _ hc => .step (rows_twins hc) fun _ => .last (emit_twins _)

include ha in
theorem rule_twins : K.Answers (Value.Akin K) (rule args) (rule args') :=
  .step (count_twins ha) fun _ => .last (emit_twins _)

end Library.Contents

namespace Library.Check

include ha in
theorem timeStart_twins : K.Answers (Value.Akin K) (timeStart args) (timeStart args') :=
  .step (timerName_twins ha) fun name => .look (.lift (timerRuns_twins name)) fun _ =>
    .guard (.last (addTimer_twins name))

include ha in
theorem timeEnd_twins : K.Answers (Value.Akin K) (timeEnd args) (timeEnd args') :=
  .step (timerName_twins ha) fun name => .look (.lift (removeTimer_twins name)) fun _ =>
    .guard (.pure .null)

end Library.Check

namespace Library.Chance

open Arguments

variable (hc : K.chance)

include ha hc in
theorem between_twins : K.Answers (Value.Akin K) (between args) (between args') :=
  .step (count_twins ha) fun _ => .step (number_twins ha) fun _ => .step (number_twins ha) fun _ =>
    .look (.lift (draw_twins hc _)) fun _ => .pure (.number _)

include ha hc in
theorem whole_twins : K.Answers (Value.Akin K) (whole args) (whole args') :=
  .step (count_twins ha) fun _ => .step (number_twins ha) fun _ => .step (number_twins ha) fun _ =>
    .look (.lift (draw_twins hc _)) fun _ => .pure (.number _)

include ha hc in
theorem boolean_twins : K.Answers (Value.Akin K) (boolean args) (boolean args') :=
  .step (count_twins ha) fun _ => .step (number_twins ha) fun _ =>
    .look (.lift (draw_twins hc _)) fun _ => .pure (.boolean _)

include hc in
theorem sample_twins (b : Bell) : K.Runs Unrefused Eq b.sample b.sample := by
  refine .bind (draw_twins hc _) fun u _ hu => .bind (draw_twins hc _) fun v _ hv => .pure ?_
  rw [hu, hv]

include hc in
theorem bellDraw_twins (b : Bell) (n : Nat) : K.Runs Unrefused Eq (b.draw n) (b.draw n) := by
  induction n with
  | zero => exact .throw .exhausted
  | succ n ih =>
    refine .bind (sample_twins hc b) fun x _ hx => ?_
    subst hx
    split
    · exact .pure rfl
    · exact ih

include ha hc in
theorem biased_twins {n : Nat} : K.Answers (Value.Akin K) (biased n args) (biased n args') :=
  .step (bell_twins ha) fun b => .look (.lift (bellDraw_twins hc b n)) fun _ => .pure (.number _)

end Library.Chance

namespace Library.Reader

open Arguments

include ha in
theorem setPinned_twins : K.Answers (Value.Akin K) (setPinned args) (setPinned args') :=
  .step (count_twins ha) fun _ => .bind (.of_results (function_twins ha)) fun _ _ hf =>
    .last (pin_twins (.some hf))

include ha in
theorem setStateText_twins : K.Answers (Value.Akin K) (setStateText args) (setStateText args') :=
  .step (count_twins ha) fun _ => .step (string_twins ha) fun _ => .last (describe_twins _)

include ha in
theorem unset_twins {clear : Run Unit} (hc : K.Runs Unrefused (fun _ _ => True) clear clear) :
    K.Answers (Value.Akin K) (unset clear args) (unset clear args') :=
  .step (count_twins ha) fun _ => .last hc

end Library.Reader

namespace Library.Drawing

open Arguments

include ha in
theorem create_twins : K.Answers (Value.Akin K) (create args) (create args') :=
  .step (count_twins ha) fun _ => .step (string_twins ha) fun id => .step (number_twins ha) fun _ =>
    .step (number_twins ha) fun _ => .look (.lift (canvasExists_twins id)) fun _ => .guard <|
      .step .refl fun _ => .step .refl fun _ => .last (addCanvas_twins id _)

include ha in
theorem output_twins : K.Answers (Value.Akin K) (output args) (output args') :=
  .step (string_twins ha) fun id => .look (.lift provider_twins) fun p =>
    .look (canvas_twins id) fun c => .last (putOut_twins p id c)

theorem queue_twins (id : String) (command : DrawCommand) :
    K.Answers (Value.Akin K) (queue id command) (queue id command) :=
  .look (canvas_twins id) fun _ => .last (putCanvas_twins id _)

include ha in
theorem text_twins {draw : String → Float → Float → String → String → DrawCommand} :
    K.Answers (Value.Akin K) (text draw args) (text draw args') :=
  .step (count_twins ha) fun _ => .step (string_twins ha) fun id => .step (string_twins ha) fun _ =>
    .step (number_twins ha) fun _ => .step (number_twins ha) fun _ =>
      .look (canvas_twins id) fun _ => .step (alignment_twins ha) fun _ => queue_twins id _

include ha in
theorem putImage_twins : K.Answers (Value.Akin K) (putImage args) (putImage args') :=
  .step (count_twins ha) fun _ => .step (string_twins ha) fun id => .step (string_twins ha) fun _ =>
    .step (number_twins ha) fun _ => .step (number_twins ha) fun _ =>
      .step (number_twins ha) fun _ => .step (number_twins ha) fun _ => .step .refl fun _ =>
        queue_twins id _

include ha in
theorem putImagePart_twins : K.Answers (Value.Akin K) (putImagePart args) (putImagePart args') :=
  .step (count_twins ha) fun _ => .step (string_twins ha) fun id => .step (string_twins ha) fun _ =>
    .step (number_twins ha) fun _ => .step (number_twins ha) fun _ =>
      .step (number_twins ha) fun _ => .step (number_twins ha) fun _ =>
        .step (number_twins ha) fun _ => .step (number_twins ha) fun _ =>
          .step (number_twins ha) fun _ => .step (number_twins ha) fun _ => .step .refl fun _ =>
            queue_twins id _

include ha in
theorem setFont_twins : K.Answers (Value.Akin K) (setFont args) (setFont args') :=
  .step (count_twins ha) fun _ => .step (string_twins ha) fun id => .step (number_twins ha) fun _ =>
    .step (string_twins ha) fun _ => queue_twins id _

include ha in
theorem style_twins {draw : String → DrawCommand} :
    K.Answers (Value.Akin K) (style draw args) (style draw args') :=
  .step (count_twins ha) fun _ => .step (string_twins ha) fun id => .step (string_twins ha) fun _ =>
    queue_twins id _

include ha in
theorem fillRect_twins : K.Answers (Value.Akin K) (fillRect args) (fillRect args') :=
  .step (count_twins ha) fun _ => .step (string_twins ha) fun id => .step (number_twins ha) fun _ =>
    .step (number_twins ha) fun _ => .step (number_twins ha) fun _ =>
      .step (number_twins ha) fun _ => queue_twins id _

include ha in
theorem setLineWidth_twins : K.Answers (Value.Akin K) (setLineWidth args) (setLineWidth args') :=
  .step (count_twins ha) fun _ => .step (string_twins ha) fun id => .step (number_twins ha) fun _ =>
    queue_twins id _

include ha in
theorem clear_twins : K.Answers (Value.Akin K) (clear args) (clear args') :=
  .step (string_twins ha) fun id => queue_twins id _

end Library.Drawing

/-! ### Any function -/

include ha in
/-- What a function of the library does to akin arguments is alike, if both tellings draw alike or
it draws nothing. -/
theorem Native.run_twins {m : Machine} (hm : K.Drives m) (f : Native)
    (hf : f.draws = true → K.chance) :
    K.Answers (Value.Akin K) (f.run m args) (f.run m args') := by
  cases f with
  | contentAddParagraph => exact Contents.paragraph_twins ha
  | contentAddImage => exact Contents.image_twins ha
  | contentAddUnorderedList => exact Contents.items_twins ha
  | contentAddOrderedList => exact Contents.items_twins ha
  | contentAddHeader => exact Contents.header_twins ha
  | contentAddTable => exact Contents.table_twins ha
  | contentAddHorizontalRule => exact Contents.rule_twins ha
  | print => exact plain_twins (.pure .null)
  | assert => exact plain_twins (Check.assert_twins ha)
  | assertError => exact Check.assertError_twins hm ha
  | timeStart => exact Check.timeStart_twins ha
  | timeEnd => exact Check.timeEnd_twins ha
  | listSet => exact plain_twins (Lists.set_twins ha)
  | listForEach => exact Lists.forEach_twins hm ha
  | listMap => exact Lists.map_twins hm ha
  | listCreateFilled => exact plain_twins (Lists.createFilled_twins ha)
  | listChunk => exact plain_twins (Lists.chunk_twins ha)
  | listFilter => exact Lists.filter_twins hm ha
  | listSplice => exact plain_twins (Lists.splice_twins ha)
  | listSlice => exact plain_twins (Lists.slice_twins ha)
  | listLength => exact plain_twins (Lists.length_twins ha)
  | listIndexOf => exact plain_twins (Lists.indexOf_twins ha)
  | listIncludes => exact plain_twins (Lists.includes_twins ha)
  | listFindIndex => exact Lists.findIndex_twins hm ha
  | mathMin => exact plain_twins (Numbers.extreme_twins ha)
  | mathMax => exact plain_twins (Numbers.extreme_twins ha)
  | mathFloor => exact plain_twins (Numbers.floor_twins ha)
  | mathCeil => exact plain_twins (Numbers.ceil_twins ha)
  | random => exact Chance.between_twins ha (hf rfl)
  | randomInt => exact Chance.whole_twins ha (hf rfl)
  | randomBoolean => exact Chance.boolean_twins ha (hf rfl)
  | randomBiased => exact Chance.biased_twins ha (hf rfl)
  | readerSetPinned => exact Reader.setPinned_twins ha
  | readerUnsetPinned => exact Reader.unset_twins ha (pin_twins .none)
  | readerSetStateDesc => exact Reader.setStateText_twins ha
  | readerUnsetStateDesc => exact Reader.unset_twins ha (describe_twins none)
  | stringLength => exact plain_twins (Texts.length_twins ha)
  | stringFormatNumberFixed => exact plain_twins (Texts.formatFixed_twins ha)
  | stringFormatNumberPrecision => exact plain_twins (Texts.formatPrecision_twins ha)
  | stringSplit => exact plain_twins (Texts.split_twins ha)
  | stringSubByLength => exact plain_twins (Texts.subByLength_twins ha)
  | stringSubByIndex => exact plain_twins (Texts.subByIndex_twins ha)
  | canvasCreate => exact Drawing.create_twins ha
  | canvasOutput => exact Drawing.output_twins ha
  | canvasClear => exact Drawing.clear_twins ha
  | canvasPutImage => exact Drawing.putImage_twins ha
  | canvasPutImagePart => exact Drawing.putImagePart_twins ha
  | canvasSetFont => exact Drawing.setFont_twins ha
  | canvasSetFillStyle => exact Drawing.style_twins ha
  | canvasFillText => exact Drawing.text_twins ha
  | canvasFillRect => exact Drawing.fillRect_twins ha
  | canvasSetStrokeStyle => exact Drawing.style_twins ha
  | canvasSetLineWidth => exact Drawing.setLineWidth_twins ha
  | canvasStrokeText => exact Drawing.text_twins ha

end Run

end Tale
