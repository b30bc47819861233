import Tale.Proofs.Effects

/-!
# What the library does to a world

A function of the library makes its answer of its arguments, and so brings nothing into a world
that was not in them. Those that call other functions respect whatever the calls respect
(`Native.run_links`).
-/

namespace Tale

variable {α β : Type} {N : Norm}

/-! ## Answers made of arguments -/

theorem Value.eq_list {v : Value} {vs : List Value} (h : v.list? = some vs) : v = .list vs := by
  cases v <;> cases h
  rfl

theorem Value.eq_function {v : Value} {f : Function} (h : v.function? = some f) :
    v = .function f := by
  cases v <;> cases h
  rfl

section Arguments

variable {V : α → Prop} {args : List Value} {i : Nat}

theorem gives_take {type : ValueType} {extract : Value → Option α} {fallback : Option α}
    (hv : ∀ a, extract (args.getD i .null) = some a → V a) (hf : ∀ a, fallback = some a → V a) :
    Gives V (Arguments.take type extract args i fallback) := by
  intro a ha
  simp only [Arguments.take] at ha
  split at ha
  · cases ha
    exact hf a rfl
  · split at ha
    · cases ha
      exact hv a ‹_›
    · cases ha

variable (h : ∀ v ∈ args, v.Meets N)

include h in
theorem meets_getD (i : Nat) : (args.getD i .null).Meets N := by
  rw [List.getD_eq_getElem?_getD]
  rcases hi : args[i]? with _ | v
  · trivial
  · exact h v (List.mem_of_getElem? hi)

include h in
theorem gives_list {fallback : Option (List Value)}
    (hf : ∀ vs, fallback = some vs → ∀ v ∈ vs, v.Meets N) :
    Gives (fun vs => ∀ v ∈ vs, v.Meets N) (Arguments.list args i fallback) := by
  refine gives_take (fun vs hvs => ?_) hf
  rw [← Value.meets_list, ← Value.eq_list hvs]
  exact meets_getD h i

include h in
theorem gives_function : Gives (Function.Meets N) (Arguments.function args i) := by
  refine gives_take (fun f hf => ?_) nofun
  have := meets_getD h i
  rwa [Value.eq_function hf, Value.Meets] at this

end Arguments

namespace Library

variable {args : List Value}

theorem Check.assert_gives : Gives (·.Meets N) (Check.assert args) := by
  refine .bind .any fun _ _ => .bind .any fun b _ => ?_
  split
  · exact .pure trivial
  · exact .throw

namespace Lists

theorem length_gives : Gives (·.Meets N) (length args) :=
  .bind .any fun _ _ => .bind .any fun _ _ => .pure trivial

theorem set_gives (h : ∀ v ∈ args, v.Meets N) : Gives (·.Meets N) (set args) := by
  refine .bind .any fun _ _ => .bind (gives_list h nofun) fun vs hvs => .bind .any fun x _ => ?_
  split
  · exact .throw
  · refine .guard (.guard (.pure (Value.meets_list.mpr fun v hv => ?_)))
    rcases List.mem_or_eq_of_mem_set hv with hv | rfl
    · exact hvs v hv
    · exact meets_getD h 2

theorem createFilled_gives (h : ∀ v ∈ args, v.Meets N) : Gives (·.Meets N) (createFilled args) := by
  refine .bind .any fun _ _ => .bind .any fun x _ => ?_
  split
  · exact .throw
  · refine .guard (.guard (.pure (Value.meets_list.mpr fun v hv => ?_)))
    rw [List.eq_of_mem_replicate hv]
    exact meets_getD h 1

theorem meets_chunks {k : Nat} : ∀ {vs : List Value}, (∀ v ∈ vs, v.Meets N) →
    ∀ us ∈ chunks k vs, ∀ u ∈ us, u.Meets N := by
  intro vs h
  fun_induction chunks k vs with
  | case1 => nofun
  | case2 v vs ih =>
    simp only [List.mem_cons, forall_eq_or_imp] at h ⊢
    exact ⟨⟨h.1, fun u hu => h.2 u (List.mem_of_mem_take hu)⟩,
      ih fun u hu => h.2 u (List.mem_of_mem_drop hu)⟩

theorem chunk_gives (h : ∀ v ∈ args, v.Meets N) : Gives (·.Meets N) (chunk args) := by
  refine .bind .any fun _ _ => .bind (gives_list h nofun) fun vs hvs => .bind .any fun x _ => ?_
  split
  · exact .throw
  · refine .guard (.pure (Value.meets_list.mpr fun v hv => ?_))
    obtain ⟨us, hu, rfl⟩ := List.mem_map.mp hv
    exact Value.meets_list.mpr (meets_chunks hvs us hu)

theorem splice_gives (h : ∀ v ∈ args, v.Meets N) : Gives (·.Meets N) (splice args) := by
  refine .bind .any fun _ _ => .bind (gives_list h nofun) fun vs hvs => .bind .any fun _ _ =>
    .bind .any fun _ _ => .bind (gives_list h ?_) fun us hus => .bind .any fun start _ => ?_
  · rintro vs ⟨⟩
    nofun
  · split
    · exact .throw
    · refine .guard (.guard (.pure (Value.meets_list.mpr fun v hv => ?_)))
      simp only [List.mem_append] at hv
      rcases hv with (hv | hv) | hv
      · exact hvs v (List.mem_of_mem_take hv)
      · exact hus v hv
      · exact hvs v (List.mem_of_mem_drop hv)

theorem slice_gives (h : ∀ v ∈ args, v.Meets N) : Gives (·.Meets N) (slice args) := by
  refine .bind .any fun _ _ => .bind (gives_list h nofun) fun vs hvs => .bind .any fun _ _ =>
    .bind .any fun _ _ => .bind .any fun start _ => ?_
  split
  · exact .throw
  · refine .guard (.guard (.pure (Value.meets_list.mpr fun v hv => ?_)))
    exact hvs v (List.mem_of_mem_take (List.mem_of_mem_drop hv))

theorem indexOf_gives : Gives (·.Meets N) (indexOf args) := by
  refine .bind .any fun _ _ => .bind .any fun vs _ => ?_
  split <;> exact .pure trivial

theorem includes_gives : Gives (·.Meets N) (includes args) :=
  .bind .any fun _ _ => .bind .any fun _ _ => .pure trivial

end Lists

namespace Numbers

theorem extreme_gives {before : Float → Float → Bool} {start : Float} :
    Gives (·.Meets N) (extreme before start args) :=
  .bind .any fun _ _ => .bind .any fun _ _ => .pure trivial

theorem floor_gives : Gives (·.Meets N) (floor args) :=
  .bind .any fun _ _ => .bind .any fun _ _ => .pure trivial

theorem ceil_gives : Gives (·.Meets N) (ceil args) :=
  .bind .any fun _ _ => .bind .any fun _ _ => .pure trivial

end Numbers

namespace Texts

theorem length_gives : Gives (·.Meets N) (length args) :=
  .bind .any fun _ _ => .bind .any fun _ _ => .pure trivial

theorem formatFixed_gives : Gives (·.Meets N) (formatFixed args) :=
  .bind .any fun _ _ => .bind .any fun _ _ => .bind .any fun _ _ => .bind .any fun _ _ =>
    .pure trivial

theorem formatPrecision_gives : Gives (·.Meets N) (formatPrecision args) :=
  .bind .any fun _ _ => .bind .any fun _ _ => .bind .any fun _ _ => .bind .any fun _ _ =>
    .pure trivial

theorem split_gives : Gives (·.Meets N) (split args) := by
  refine .bind .any fun _ _ => .bind .any fun text _ => .bind .any fun separator _ =>
    .pure (Value.meets_list.mpr fun v hv => ?_)
  obtain ⟨cs, -, rfl⟩ := List.mem_map.mp hv
  trivial

theorem subByLength_gives : Gives (·.Meets N) (subByLength args) := by
  refine .bind .any fun _ _ => .bind .any fun _ _ => .bind .any fun _ _ => .bind .any fun _ _ =>
    .bind .any fun _ _ => ?_
  split
  · exact .throw
  · exact .guard (.guard (.pure trivial))

theorem subByIndex_gives : Gives (·.Meets N) (subByIndex args) := by
  refine .bind .any fun _ _ => .bind .any fun _ _ => .bind .any fun _ _ => .bind .any fun _ _ =>
    .bind .any fun _ _ => ?_
  split
  · exact .throw
  · exact .guard (.guard (.pure trivial))

end Texts

end Library

/-! ## Answers and the world -/

/-- `Links` of computations that may also refuse their arguments. -/
def Regime.Answers (R : Regime) (V : α → Prop) (x y : ExceptT Refusal Run α) : Prop :=
  R.Links (Gives V) (x : Run (Except Refusal α)) y

namespace Regime.Answers

variable {R : Regime} {V : α → Prop} {U : β → Prop} {x y : ExceptT Refusal Run α}

theorem of_gives {r : Except Refusal α} (h : Gives V r) :
    R.Answers V (ExceptT.mk (Pure.pure r)) (ExceptT.mk (Pure.pure r)) :=
  Links.pure h

theorem pure {a : α} (h : V a) : R.Answers V (pure a) (pure a) :=
  Links.pure (Gives.pure h)

theorem throw {r : Refusal} : R.Answers V (throw r) (throw r) :=
  Links.pure Gives.throw

theorem bind {f g : α → ExceptT Refusal Run β} (h : R.Answers V x y)
    (hf : ∀ a, V a → R.Answers U (f a) (g a)) : R.Answers U (x >>= f) (y >>= g) := by
  refine Links.bind h fun r hr => ?_
  rcases r with e | a
  · exact Links.pure Gives.throw
  · exact hf a (hr a rfl)

/-- A computation that cannot refuse. -/
theorem lift {x y : Run α} (h : R.Links V x y) : R.Answers V (liftM x) (liftM y) :=
  Links.bind h fun _ ha => Links.pure (Gives.pure ha)

/-- Changes that keep to what fits may be made on the way to an answer. -/
theorem of_acts {L : Prop} {E : World → World → Prop} {U : α → Prop}
    (h : ∀ {w}, Library.Acts L (E w) U w x) (hv : ∀ a, U a → V a)
    (he : ∀ w w', E w w' → R.Fit w → w.Onward w' ∧ R.Fit w') : R.Answers V x x := by
  intro w hw
  have ends : Library.Ends L (E w) U w (x w) := h
  change Outcome _ w _ _ (x w) (x w)
  generalize x w = o at ends
  cases ends with
  | answer change value =>
    obtain ⟨onward, fit⟩ := he _ _ change hw
    exact .ok onward ⟨Gives.pure (hv _ value), fit⟩
  | refusal => exact .ok (.refl w) ⟨Gives.throw, hw⟩
  | exhausted _ change =>
    obtain ⟨onward, fit⟩ := he _ _ change hw
    exact .error onward ⟨trivial, fit⟩ fun _ => nofun

theorem of_mild {L : Prop} {x : Library.Answer}
    (h : ∀ {w}, Library.Acts L (Library.Mild w) Library.Plain w x) : R.Answers R.Admits x x :=
  of_acts h (fun _ hv => hv R.norm) fun _ _ hm hw =>
    ⟨.of_cells hm.cells hm.content, hw.of_eq hm.cells hm.scopes hm.pinned⟩

end Regime.Answers

/-! ## Functions that call others -/

section Calls

variable {R : Regime} {m m' : Machine} (hm : R.Calls m m')

include hm in
theorem Library.Check.fails_links {f : Function} (hf : f.Meets R.norm) :
    R.Links (fun _ => True) (fails m.call f) (fails m'.call f) := by
  intro w hw
  have h := hm.call f [] hf nofun w hw
  rw [fails, fails]
  generalize m.call f [] w = o, m'.call f [] w = o' at h
  cases h with
  | ok grows value => exact .ok grows ⟨trivial, value.2⟩
  | @error e _ grows stop notLeft =>
    rcases e with x | s | r | _
    · exact .ok grows ⟨trivial, stop.2⟩
    · exact .error grows stop notLeft
    · exact .ok grows ⟨trivial, stop.2⟩
    · exact .error grows stop notLeft
  | left grows stop related => exact .left grows stop related

include hm in
theorem Library.Check.assertError_links {args : List Value} (ha : ∀ v ∈ args, R.Admits v) :
    R.Answers R.Admits (assertError m.call args) (assertError m'.call args) := by
  refine .bind (.of_gives .any) fun _ _ => .bind (.of_gives (gives_function ha)) fun f hf =>
    .bind (.lift (fails_links hm hf)) fun b _ => ?_
  split
  · exact .pure trivial
  · exact .throw

namespace Library.Lists

variable {self : Native} {f : Function} (hf : f.Meets R.norm)

include hm hf in
theorem apply_links {v : Value} (hv : R.Admits v) (i : Nat) :
    R.Answers R.Admits (apply m.call self f v i) (apply m'.call self f v i) := by
  have hargs : ∀ u ∈ [v, Value.nat i], R.Admits u := by
    simp only [List.mem_cons, List.not_mem_nil, or_false, forall_eq_or_imp, forall_eq]
    exact ⟨hv, trivial⟩
  intro w hw
  have h := hm.call f _ hf hargs w hw
  simp only [apply, ExceptT.mk]
  generalize m.call f [v, .nat i] w = o, m'.call f [v, .nat i] w = o' at h
  cases h with
  | ok grows value => exact .ok grows ⟨Gives.pure value.1, value.2⟩
  | @error e _ grows stop notLeft =>
    rcases e with x | s | r | _
    · exact .error grows stop fun _ => nofun
    · exact .error grows stop notLeft
    · exact .ok grows ⟨Gives.throw, stop.2⟩
    · exact .error grows stop notLeft
  | left grows stop related => exact .left grows stop related

include hm hf in
theorem test_links {v : Value} (hv : R.Admits v) (i : Nat) :
    R.Answers (fun _ => True) (test m.call self f v i) (test m'.call self f v i) := by
  refine .bind (apply_links hm hf hv i) fun u _ => ?_
  split
  · exact .pure trivial
  · exact .throw

include hm hf in
theorem mapFrom_links : ∀ (vs : List Value) (i : Nat), (∀ v ∈ vs, R.Admits v) →
    R.Answers (fun us => ∀ u ∈ us, R.Admits u) (mapFrom m.call self f i vs)
      (mapFrom m'.call self f i vs)
  | [], _, _ => .pure nofun
  | v :: vs, i, h => by
    simp only [List.mem_cons, forall_eq_or_imp] at h
    refine .bind (apply_links hm hf h.1 i) fun u hu =>
      .bind (mapFrom_links vs (i + 1) h.2) fun us hus => .pure ?_
    simp only [List.mem_cons, forall_eq_or_imp]
    exact ⟨hu, hus⟩

include hm hf in
theorem filterFrom_links : ∀ (vs : List Value) (i : Nat), (∀ v ∈ vs, R.Admits v) →
    R.Answers (fun us => ∀ u ∈ us, R.Admits u) (filterFrom m.call self f i vs)
      (filterFrom m'.call self f i vs)
  | [], _, _ => .pure nofun
  | v :: vs, i, h => by
    simp only [List.mem_cons, forall_eq_or_imp] at h
    refine .bind (test_links hm hf h.1 i) fun kept _ =>
      .bind (filterFrom_links vs (i + 1) h.2) fun us hus => .pure ?_
    split
    · simp only [List.mem_cons, forall_eq_or_imp]
      exact ⟨h.1, hus⟩
    · exact hus

include hm hf in
theorem findFrom_links : ∀ (vs : List Value) (i : Nat), (∀ v ∈ vs, R.Admits v) →
    R.Answers (fun _ => True) (findFrom m.call self f i vs) (findFrom m'.call self f i vs)
  | [], _, _ => .pure trivial
  | v :: vs, i, h => by
    simp only [List.mem_cons, forall_eq_or_imp] at h
    refine .bind (test_links hm hf h.1 i) fun found _ => ?_
    split
    · exact .pure trivial
    · exact findFrom_links vs (i + 1) h.2

theorem listAndFunction_gives {args : List Value} (ha : ∀ v ∈ args, v.Meets N) :
    Gives (fun p => (∀ v ∈ p.1, v.Meets N) ∧ p.2.Meets N) (listAndFunction args) :=
  .bind .any fun _ _ => .bind (gives_list ha (by rintro _ ⟨⟩)) fun _ hvs =>
    .bind (gives_function ha) fun _ hf => .pure ⟨hvs, hf⟩

variable {args : List Value} (ha : ∀ v ∈ args, R.Admits v)

include hm ha in
theorem forEach_links : R.Answers R.Admits (forEach m.call args) (forEach m'.call args) :=
  .bind (.of_gives (listAndFunction_gives ha)) fun p hp =>
    .bind (mapFrom_links hm hp.2 p.1 0 hp.1) fun _ _ => .pure trivial

include hm ha in
theorem map_links : R.Answers R.Admits (map m.call args) (map m'.call args) :=
  .bind (.of_gives (listAndFunction_gives ha)) fun p hp =>
    .bind (mapFrom_links hm hp.2 p.1 0 hp.1) fun _ hus => .pure (Value.meets_list.mpr hus)

include hm ha in
theorem filter_links : R.Answers R.Admits (filter m.call args) (filter m'.call args) :=
  .bind (.of_gives (listAndFunction_gives ha)) fun p hp =>
    .bind (filterFrom_links hm hp.2 p.1 0 hp.1) fun _ hus => .pure (Value.meets_list.mpr hus)

include hm ha in
theorem findIndex_links : R.Answers R.Admits (findIndex m.call args) (findIndex m'.call args) := by
  refine .bind (.of_gives (listAndFunction_gives ha)) fun p hp =>
    .bind (findFrom_links hm hp.2 p.1 0 hp.1) fun found _ => ?_
  split <;> exact .pure trivial

end Library.Lists

end Calls

/-! ## All functions -/

section Run

open Library

variable {R : Regime} {m m' : Machine}

theorem plain_links {r : Except Refusal Value} (h : Gives R.Admits r) :
    R.Answers R.Admits (plain r) (plain r) :=
  .of_gives h

namespace Library.Reader

theorem setPinned_links {args : List Value} (ha : ∀ v ∈ args, R.Admits v) :
    R.Answers R.Admits (setPinned args) (setPinned args) := by
  refine .of_acts (E := fun w w' => ∃ f, f.Meets R.norm ∧ w' = { w with pinned := some f })
    (setPinned_acts (gives_function ha)) (fun _ hv => hv.symm ▸ trivial) ?_
  rintro w _ ⟨f, hf, rfl⟩ hw
  refine ⟨.of_cells rfl List.prefix_rfl, hw.frame, hw.typed, hw.cells, hw.registers, ?_⟩
  rintro _ ⟨⟩
  exact hf

theorem unsetPinned_links {args : List Value} :
    R.Answers R.Admits (unset (pin none) args) (unset (pin none) args) := by
  refine .of_acts (E := fun w w' => w' = { w with pinned := none }) unsetPinned_acts
    (fun _ hv => hv.symm ▸ trivial) ?_
  rintro w _ rfl hw
  exact ⟨.of_cells rfl List.prefix_rfl, hw.frame, hw.typed, hw.cells, hw.registers, nofun⟩

end Library.Reader

/-- Whatever calls respect, the functions of the library respect. -/
theorem Native.run_links (hm : R.Calls m m') (f : Native) {args : List Value}
    (ha : ∀ v ∈ args, R.Admits v) : R.Answers R.Admits (f.run m args) (f.run m' args) := by
  cases f with
  | contentAddParagraph => exact .of_mild Contents.paragraph_settles
  | contentAddImage => exact .of_mild Contents.image_settles
  | contentAddUnorderedList => exact .of_mild Contents.items_settles
  | contentAddOrderedList => exact .of_mild Contents.items_settles
  | contentAddHeader => exact .of_mild Contents.header_settles
  | contentAddTable => exact .of_mild Contents.table_settles
  | contentAddHorizontalRule => exact .of_mild Contents.rule_settles
  | print => exact plain_links (.pure trivial)
  | assert => exact plain_links Check.assert_gives
  | assertError => exact Check.assertError_links hm ha
  | timeStart => exact .of_mild Check.timeStart_settles
  | timeEnd => exact .of_mild Check.timeEnd_settles
  | listSet => exact plain_links (Lists.set_gives ha)
  | listForEach => exact Lists.forEach_links hm ha
  | listMap => exact Lists.map_links hm ha
  | listCreateFilled => exact plain_links (Lists.createFilled_gives ha)
  | listChunk => exact plain_links (Lists.chunk_gives ha)
  | listFilter => exact Lists.filter_links hm ha
  | listSplice => exact plain_links (Lists.splice_gives ha)
  | listSlice => exact plain_links (Lists.slice_gives ha)
  | listLength => exact plain_links Lists.length_gives
  | listIndexOf => exact plain_links Lists.indexOf_gives
  | listIncludes => exact plain_links Lists.includes_gives
  | listFindIndex => exact Lists.findIndex_links hm ha
  | mathMin => exact plain_links Numbers.extreme_gives
  | mathMax => exact plain_links Numbers.extreme_gives
  | mathFloor => exact plain_links Numbers.floor_gives
  | mathCeil => exact plain_links Numbers.ceil_gives
  | random => exact .of_mild Chance.between_settles
  | randomInt => exact .of_mild Chance.whole_settles
  | randomBoolean => exact .of_mild Chance.boolean_settles
  | randomBiased =>
    simp only [Native.run, hm.turns]
    exact .of_mild Chance.biased_acts
  | readerSetPinned => exact Reader.setPinned_links ha
  | readerUnsetPinned => exact Reader.unsetPinned_links
  | readerSetStateDesc => exact .of_mild Reader.setStateText_settles
  | readerUnsetStateDesc => exact .of_mild Reader.unsetStateText_settles
  | stringLength => exact plain_links Texts.length_gives
  | stringFormatNumberFixed => exact plain_links Texts.formatFixed_gives
  | stringFormatNumberPrecision => exact plain_links Texts.formatPrecision_gives
  | stringSplit => exact plain_links Texts.split_gives
  | stringSubByLength => exact plain_links Texts.subByLength_gives
  | stringSubByIndex => exact plain_links Texts.subByIndex_gives
  | canvasCreate => exact .of_mild Drawing.create_settles
  | canvasOutput => exact .of_mild Drawing.output_settles
  | canvasClear => exact .of_mild Drawing.clear_settles
  | canvasPutImage => exact .of_mild Drawing.putImage_settles
  | canvasPutImagePart => exact .of_mild Drawing.putImagePart_settles
  | canvasSetFont => exact .of_mild Drawing.setFont_settles
  | canvasSetFillStyle => exact .of_mild Drawing.style_settles
  | canvasFillText => exact .of_mild Drawing.text_settles
  | canvasFillRect => exact .of_mild Drawing.fillRect_settles
  | canvasSetStrokeStyle => exact .of_mild Drawing.style_settles
  | canvasSetLineWidth => exact .of_mild Drawing.setLineWidth_settles
  | canvasStrokeText => exact .of_mild Drawing.text_settles

end Run

end Tale
