import Tale.Proofs.Safety

/-!
# Where defaults are evaluated

The default of a parameter is read before any parameter of its function is in sight, so its names
are those of variables outside, which the function captures. It is evaluated in the scope of the
call, where the parameters before it stand in front of the captured cells. A name that such a
parameter has as well is therefore that of the parameter, whatever was read (`defaults_strayed`).
All other names are those of the variables outside: no run can tell the usual machine from one that
passes the parameters over while it evaluates a default, but for the names that clash
(`defaults_resolved`).

What a computation sees of the scope of its call is its `Outlook`. It stays the same in the blocks
and loops that are opened on the way, and every call begins with one of its own.
-/

namespace Tale

/-- What is seen of the scope of a call. -/
structure Outlook where
  /-- How many of its newest names are passed over. -/
  passed : Nat := 0
  /-- The names that are found there all the same. -/
  kept : List String := []

namespace Outlook

variable (o : Outlook)

/-- The names that are seen, of those of the call's scope. -/
def names (ns : List (String × Address)) : List (String × Address) :=
  (ns.take o.passed).filter (fun n => o.kept.contains n.1) ++ ns.drop o.passed

/-- The cell that a name means in the scopes of the innermost call. -/
def address? (name : String) : List Scope → Option Address
  | [] => none
  | s :: ss =>
    if s.hasRegister .return then (o.names s.names).lookup name
    else s.address? name <|> address? name ss

def resolve (name : String) : Run Address := do
  match o.address? name (← get).scopes with
  | some a => return a
  | none => Run.fail (.unknownVariable name) none

/-- The names that mean what they mean without passing anything over. -/
def clear : List Outline → List String
  | [] => []
  | s :: ss =>
    if s.register = some .return then
      ((o.names s.names).map (·.1)).filter fun n =>
        o.kept.contains n || !((s.names.take o.passed).map (·.1)).contains n
    else s.names.map (·.1) ++ clear ss

variable {o} {name : String} {ns : List (String × Address)}

theorem lookup_eq_none (h : name ∉ ns.map (·.1)) : ns.lookup name = none := by
  refine List.lookup_eq_none_iff.mpr fun n hn => ?_
  have hne : name ≠ n.1 := fun he => h (List.mem_map.mpr ⟨n, hn, he.symm⟩)
  simpa using hne

/-- A name that is kept, or that is none of those passed over, means the same. -/
theorem lookup_names (h : name ∈ o.kept ∨ name ∉ (ns.take o.passed).map (·.1)) :
    (o.names ns).lookup name = ns.lookup name := by
  have hs : ns.lookup name = (ns.take o.passed ++ ns.drop o.passed).lookup name := by
    rw [List.take_append_drop]
  rw [hs, names, List.lookup_append, List.lookup_append]
  rcases h with h | h
  · rw [lookup_filter (f := o.kept.contains) (by simpa using h)]
  · have hf : name ∉ ((ns.take o.passed).filter fun n => o.kept.contains n.1).map (·.1) :=
      fun hm => h ((List.filter_sublist.map _).subset hm)
    rw [lookup_eq_none hf, lookup_eq_none h]

theorem address?_of_mem_clear {ss : List Scope} (h : name ∈ o.clear (ss.map Scope.outline)) :
    ∃ a, o.address? name ss = some a ∧ ss.findSome? (·.address? name) = some a := by
  induction ss with
  | nil => simp [clear] at h
  | cons s ss ih =>
    rw [List.map_cons, clear] at h
    rw [address?, List.findSome?_cons]
    by_cases hr : s.hasRegister .return
    · rw [if_pos (Scope.hasRegister_iff.mp hr), List.mem_filter] at h
      obtain ⟨a, ha⟩ := exists_lookup h.1
      have hn : (o.names s.names).lookup name = s.address? name :=
        lookup_names (by simpa [Scope.outline] using h.2)
      have hs : s.address? name = some a := hn.symm.trans ha
      rw [if_pos hr, hn, hs]
      exact ⟨a, rfl, rfl⟩
    · rw [if_neg fun h' => hr (Scope.hasRegister_iff.mpr h'), List.mem_append] at h
      rw [if_neg hr]
      rcases ha : s.address? name with _ | a
      · refine ih (h.resolve_left fun hm => ?_)
        obtain ⟨a, hs⟩ := exists_lookup hm
        exact Option.some_ne_none a (hs.symm.trans ha)
      · exact ⟨a, rfl, rfl⟩

theorem resolve_keeps {c : Care} {os : List Outline} (h : name ∈ o.clear os) :
    Keeps c os (fun _ => True) (o.resolve name) (Run.resolve name) := by
  intro w hw
  have hr : name ∈ o.clear (w.scopes.map Scope.outline) := by
    rw [← World.outlines, hw.outlines]
    exact h
  obtain ⟨a, ho, ha⟩ := address?_of_mem_clear hr
  have hg : (get : Run World) w = .ok w w := rfl
  have hx : o.resolve name w = .ok a w := by
    simp only [resolve, Bind.bind, EStateM.bind, hg, ho]
    rfl
  rw [hx, Run.resolve_ok ha]
  exact ⟨rfl, .refl w, trivial, hw⟩

/-- Nothing is passed over in the body of a function. -/
theorem clear_all : ∀ os : List Outline, clear {} os = reach os
  | [] => rfl
  | s :: os => by
    rw [clear, reach]
    split
    · next h => simp [names, beyond, h]
    · next h => rw [beyond, if_neg h, clear_all os]

/-- Further out than a block or loop, as much is seen as without it. -/
theorem clear_open {r : Register} (hr : r ≠ .return) (ns : List (String × Address))
    (os : List Outline) : o.clear (⟨ns, some r⟩ :: os) = ns.map (·.1) ++ o.clear os := by
  rw [clear, if_neg fun h => hr (Option.some.inj h)]

end Outlook

namespace Defaults

/-- The names of a default that parameters before it have as well. -/
def clashes (earlier : List String) (p : Parameter Nat) : List String :=
  (freeInOption p.fallback).filter earlier.contains

section Machine

variable (keep : List String → Parameter Nat → List String) (m : Outlook → Machine)

/-- Declares the parameters. In each default those before it are passed over, but for the names
that are to be kept. -/
def declareParameters (args : List Value) :
    (earlier : List String) → List (Parameter Nat) → Run Unit
  | _, [] => pure ()
  | earlier, p :: ps => do
    let i := earlier.length
    let v ← Evaluation.parameterValue (m ⟨i, keep earlier p⟩) p i (args.getD i .null)
    if !p.bound.accepts v.type then throw (.refused (.argument i (p.bound.getD []) v))
    modify (·.declare p.name (some [v.type]) v)
    declareParameters args (p.name :: earlier) ps

def body (code : FunctionExpr Nat) (args : List Value) : Run Value := do
  declareParameters keep m args [] code.parameters
  Evaluation.declareRest args code
  (m {}).eval code.body

def callClosure (code : FunctionExpr Nat) (captured : List (String × Address))
    (args : List Value) : Run Value :=
  Evaluation.calling captured (body keep m code args)

/-- The machine of a limit, for evaluations with an outlook. A call is the same with any. -/
def machine : Nat → Outlook → Machine
  | 0, o => ⟨0, o.resolve, fun _ => throw .exhausted, fun _ _ => throw .exhausted⟩
  | n + 1, o =>
    { turns := n + 1
      resolve := o.resolve
      eval := Evaluation.expression (machine n o)
      call := Evaluation.callWith (callClosure keep (machine n)) (machine n {}) }

end Machine

section Agree

variable {c : Care} {os : List Outline} {keep : List String → Parameter Nat → List String}
  {m : Outlook → Machine} {m' : Machine} {args : List Value}

/-- The names of a default are clear, if the ones that parameters before it have are kept. -/
theorem fallback_clear {o : Outlook} {p : Parameter Nat} {earlier caps : List String}
    (ho : o.passed = earlier.length) (hk : clashes earlier p ⊆ o.kept)
    (hp : optionWithin caps p.fallback) {ns : List (String × Address)}
    (hn : ns.map (·.1) = earlier ++ caps) :
    optionWithin (o.clear (⟨ns, some .return⟩ :: os)) p.fallback := by
  have ht : (ns.take o.passed).map (·.1) = earlier := by
    rw [List.map_take, hn, ho, List.take_left]
  have hd : (ns.drop o.passed).map (·.1) = caps := by
    rw [List.map_drop, hn, ho, List.drop_left]
  refine ⟨fun x hx => ?_, hp.2⟩
  rw [Outlook.clear, if_pos rfl, List.mem_filter, Outlook.names, List.map_append, hd, ht]
  refine ⟨List.mem_append_right _ (hp.1 hx), ?_⟩
  by_cases he : x ∈ earlier
  · have hx : x ∈ o.kept := hk (List.mem_filter.mpr ⟨hx, by simpa using he⟩)
    simp [hx]
  · simp [he]

variable (hc : c.read) (hk : ∀ earlier p, clashes earlier p ⊆ keep earlier p)
  (hm : ∀ o os, (m o).AgreeAt c os (o.clear os) m') (ha : ∀ v ∈ args, c.Admits v)

include hk hm ha in
/-- What has been declared so far stands before the captured names, and is what is passed over. -/
theorem declareParameters_extends {caps : List String} : ∀ (ps : List (Parameter Nat))
    (earlier : List String), parametersWithin caps ps →
      Extends c os (some .return) (earlier ++ caps)
        ((ps.map (·.name)).reverse ++ (earlier ++ caps)) (declareParameters keep m args earlier ps)
        (Evaluation.declareParameters m' args earlier.length ps)
  | [], _, _ => Agree.pure fun _ hw => hw
  | p :: ps, earlier, h => by
    obtain ⟨hp, hps⟩ := parametersWithin_cons.mp h
    have next := declareParameters_extends ps (p.name :: earlier) hps
    rw [List.map_cons, List.reverse_cons, List.append_assoc]
    refine Agree.bind (Keeps.inFit fun ns hn => Evaluation.parameterValue_keeps (hm _ _)
      (Evaluation.admits_getD ha _) fun _ => fallback_clear rfl (hk earlier p) hp hn)
      fun v => Agree.of_and fun hv => ?_
    refine Agree.guard (fun w hw => ⟨trivial, _, hw⟩) fun _ => Agree.bind
      (Extends.declare (fun _ => ?_) hv) fun _ => next
    simp [TypeBound.accepts]

include hk hm ha in
theorem body_agree {code : FunctionExpr Nat} (hcode : code.Captured) :
    Agree (World.FitIn c os (some .return) code.captures.reverse) (body keep m code args)
      (Evaluation.body m' code args)
      (fun v w => c.Admits v ∧ ∃ zs, w.FitIn c os (some .return) zs)
      (Stop.FitIn c os (some .return)) := by
  obtain ⟨hps, hb⟩ := hcode.within
  have hr : code.captures ⊆ code.captures.reverse := fun _ hx => List.mem_reverse.mpr hx
  have declared : Extends c os (some .return) code.captures.reverse
      ((code.parameters.map (·.name)).reverse ++ code.captures.reverse)
      (declareParameters keep m args [] code.parameters)
      (Evaluation.declareParameters m' args 0 code.parameters) :=
    declareParameters_extends hk hm ha code.parameters [] (hps.mono hr)
  have inside : (m {}).AgreeIn c os (some .return) [] m' := fun ns => by
    have := hm {} (⟨ns, some .return⟩ :: os)
    rwa [Outlook.clear_all, reach, beyond, if_pos rfl] at this
  exact Agree.bind declared fun _ => Agree.bind (Evaluation.declareRest_extends ha) fun _ =>
    (Evaluation.eval_inFit inside fun _ => hb.mono (Evaluation.names_subset hr [])).conseq
      (fun _ h => h) (fun _ _ h => ⟨h.1, _, h.2⟩) fun _ _ h => h

include hc hk hm ha in
theorem call_keeps {f : Function} (hf : c.read → f.Sound) :
    Keeps c os c.Admits (Evaluation.callWith (callClosure keep m) (m {}) f args)
      (Evaluation.call m' f args) := by
  refine Evaluation.callWith_keeps ha (hm {} os).calls (fun code captured args hf ha => ?_) hf
  have hs : code.Captured ∧ captured.map (·.1) = code.captures := hf hc
  exact Evaluation.calling_keeps (hs.2 ▸ body_agree hk hm ha hs.1)

include hc hk in
/-- With any outlook, the names that are clear mean what they mean to the usual machine. A block or
a loop opens a scope without changing the outlook; only a call changes it. -/
theorem machine_agreeAt : ∀ (n : Nat) (o : Outlook) (os : List Outline),
    (machine keep n o).AgreeAt c os (o.clear os) (Tale.machine n)
  | 0, _, _ =>
    ⟨rfl, fun _ hn => Outlook.resolve_keeps (hn hc), fun _ _ => .throw trivial,
      fun _ _ _ _ => .throw trivial⟩
  | n + 1, o, os => by
    have hm := machine_agreeAt n
    have inside : ∀ r, r ≠ .return →
        (machine keep n o).AgreeIn c os (some r) (o.clear os) (Tale.machine n) :=
      fun r hr ns => Outlook.clear_open hr ns os ▸ hm o (⟨ns, some r⟩ :: os)
    refine ⟨rfl, fun _ hn => Outlook.resolve_keeps (hn hc), fun _ he => ?_,
      fun _ _ hf ha => call_keeps hc hk hm ha hf⟩
    exact Evaluation.expression_keepsAt (hm o os) (inside .yield nofun) (inside .break nofun) he

include hc hk in
theorem machine_agree (n : Nat) : (machine keep n {}).Agree c (Tale.machine n) := by
  have hm := fun os => Outlook.clear_all os ▸ machine_agreeAt hc hk n {} os
  exact ⟨(hm []).turns, fun os => (hm os).resolve, fun os => (hm os).eval, fun os => (hm os).call⟩

end Agree

end Defaults

/-- Whatever is told by a story that was read, the names in the default of a parameter are those of
variables outside of the function, but for the ones that a parameter before it has as well. -/
theorem defaults_resolved {options : Document.Options} {source : String} {story : Story Unit}
    (h : Document.parse options source = .ok story) (seed : String) (provider : Provider)
    (limit : Nat) (calls : List (Option Nat)) :
    let t := Telling.ofStory story seed provider limit
    let m := Defaults.machine Defaults.clashes limit {}
    (t.withMachine m).run calls = ((t.run calls).1, (t.run calls).2.withMachine m) := by
  intro t m
  have hs := Telling.ofStory_stands ⟨False, True⟩ story (fun _ => Document.parse_closed h) seed
    provider limit
  have agree : (Defaults.machine Defaults.clashes limit {}).Agree ⟨False, True⟩ (machine limit) :=
    Defaults.machine_agree trivial (fun _ _ => List.Subset.refl _) limit
  exact (Telling.run_continues agree calls hs).1

/-- The pieces of HTML that are put out. -/
def Telling.html (t : Telling) (calls : List (Option Nat)) : List String :=
  (t.run calls).1.flatMap fun
    | .ok s => s.output.content.filterMap fun
      | .html text => some text
      | .canvas _ => none
    | .error _ => []

/-- The default of `y` names a variable, the one of `z` a parameter too. -/
def defaulting : String :=
  "WTCD 1.1 declare[v=1 x=1 f=function[x=5 y=v z=x]z]"
    ++ "section s contentAddParagraph::[f::[]==5?\"parameter\":\"variable\"]then exit"

theorem defaulting_tells : ∃ story, Document.parse {} defaulting = .ok story
    ∧ (Telling.ofStory story "seed" {} 30).html [none] = ["<p>parameter</p>"]
    ∧ ((Telling.ofStory story "seed" {} 30).withMachine
        (Defaults.machine (fun _ _ => []) 30 {})).html [none] = ["<p>variable</p>"] := by
  have h : (Document.parse {} defaulting).toOption.any (fun story =>
      let t := Telling.ofStory story "seed" {} 30
      t.html [none] == ["<p>parameter</p>"]
        && (t.withMachine (Defaults.machine (fun _ _ => []) 30 {})).html [none]
          == ["<p>variable</p>"]) = true := by
    rw [Document.parse_eq_ofChars]
    decide +kernel
  obtain ⟨story, hs, h⟩ := (Option.any_eq_true _ _).mp h
  simp only [Bool.and_eq_true, beq_iff_eq] at h
  exact ⟨story, eq_ok_of_toOption hs, h⟩

theorem defaults_resolved_defaulting : ∃ story, Document.parse {} defaulting = .ok story
    ∧ ∀ calls,
      let t := Telling.ofStory story "seed"
      let m := Defaults.machine Defaults.clashes Telling.defaultLimit {}
      (t.withMachine m).run calls = ((t.run calls).1, (t.run calls).2.withMachine m) := by
  obtain ⟨story, h, -⟩ := defaulting_tells
  exact ⟨story, h, fun calls => defaults_resolved h "seed" {} _ calls⟩

/-- Where a parameter before has the name, the default is not that of the variable outside. -/
theorem defaults_strayed : ¬ ∀ (source : String) (story : Story Unit),
    Document.parse {} source = .ok story →
      ∀ (seed : String) (provider : Provider) (limit : Nat) (calls : List (Option Nat)),
      let t := Telling.ofStory story seed provider limit
      let m := Defaults.machine (fun _ _ => []) limit {}
      (t.withMachine m).run calls = ((t.run calls).1, (t.run calls).2.withMachine m) := by
  intro h
  obtain ⟨story, hp, usual, strict⟩ := defaulting_tells
  rw [Telling.html, h defaulting story hp "seed" {} 30 [none]] at strict
  have he : ["<p>parameter</p>"] = ["<p>variable</p>"] := usual.symm.trans strict
  simp at he

end Tale
