import Tale.Evaluation

/-!
# Arguments given ahead

A call of a function with arguments given ahead is a call of the function itself, with these
arguments before or after those of the call (`call_applied`). So they can be taken off one list
after the other, the last given first, or all at once in a walk to the function behind them
(`Function.gather`): the call comes to the same (`call_ahead`).
-/

namespace Tale

/-- The arguments of a call with those given ahead on a side of them. -/
def Side.join : Side → (ahead args : List Value) → List Value
  | .left, ahead, args => ahead ++ args
  | .right, ahead, args => args ++ ahead

/-- The operator that gives arguments ahead on a side. -/
def Side.operator : Side → BinaryOp
  | .left => .partialLeft
  | .right => .partialRight

theorem Side.join_nil (side : Side) (args : List Value) : side.join [] args = args := by
  cases side with
  | left => rfl
  | right => exact List.append_nil args

/-- A function without arguments given ahead. -/
def Callee.function : Callee → Function
  | .closure code captured => .closure code captured
  | .native n => .native n

/-- The arguments of a call with all lists given ahead taken off, the last given first. -/
def unfoldAhead (lists : List (Side × List Value)) (args : List Value) : List Value :=
  lists.foldr (fun ahead args => ahead.1.join ahead.2 args) args

/-- All arguments that are given on one side. -/
def givenOn (side : Side) (lists : List (Side × List Value)) : List Value :=
  (lists.filter (·.1 = side)).flatMap (·.2)

theorem unfoldAhead_eq (lists : List (Side × List Value)) (args : List Value) :
    unfoldAhead lists args = givenOn .left lists ++ args ++ givenOn .right lists.reverse := by
  induction lists with
  | nil => exact (List.append_nil args).symm
  | cons ahead lists ih =>
    obtain ⟨side, vs⟩ := ahead
    show side.join vs (unfoldAhead lists args) = _
    rw [ih]
    cases side with
    | left => simp [Side.join, givenOn]
    | right => simp [Side.join, givenOn]

namespace Function

/-- A function with lists of arguments given ahead, one after the other. -/
def ahead (f : Function) (lists : List (Side × List Value)) : Function :=
  lists.foldl (fun f ahead => .applied ahead.1 ahead.2 f) f

/-- Walks through everything given ahead to the function behind it, and gathers what goes before
the arguments of a call and what goes after them. -/
def gather (before after : List Value) : Function → List Value × Callee × List Value
  | .closure code captured => (before, .closure code captured, after)
  | .native n => (before, .native n, after)
  | .applied .left vs f => f.gather (vs ++ before) after
  | .applied .right vs f => f.gather before (after ++ vs)

/-- What the walk gathers from the outside is what flattening finds from the inside. -/
theorem gather_eq : ∀ (f : Function) (before after : List Value), f.gather before after
    = (f.flatten.1 ++ before, f.flatten.2.1, after ++ f.flatten.2.2)
  | .closure _ _, before, after | .native _, before, after => by
    rw [gather, flatten, List.nil_append, List.append_nil]
  | .applied .left vs f, before, after | .applied .right vs f, before, after => by
    rw [gather, gather_eq f, flatten, List.append_assoc]

theorem flatten_function (c : Callee) : c.function.flatten = ([], c, []) := by
  cases c with
  | closure code captured => rfl
  | native n => rfl

end Function

/-! ## Calls -/

section Calls

variable (resolve : String → Run Address) (n : Nat)

theorem call_applied (side : Side) (vs : List Value) (f : Function) (args : List Value) :
    call resolve n (.applied side vs f) args = call resolve n f (side.join vs args) := by
  cases n with
  | zero => rfl
  | succ n =>
    cases side with
    | left | right =>
      simp only [call, Evaluation.call, Function.flatten, Side.join, List.append_assoc]

theorem call_unfold (lists : List (Side × List Value)) : ∀ (f : Function) (args : List Value),
    call resolve n (f.ahead lists) args = call resolve n f (unfoldAhead lists args) := by
  induction lists with
  | nil => exact fun _ _ => rfl
  | cons ahead lists ih =>
    obtain ⟨side, vs⟩ := ahead
    intro f args
    calc call resolve n ((Function.applied side vs f).ahead lists) args
        = call resolve n (.applied side vs f) (unfoldAhead lists args) := ih _ args
      _ = call resolve n f (side.join vs (unfoldAhead lists args)) :=
        call_applied resolve n side vs f _

theorem call_gather (f : Function) (args : List Value) : call resolve n f args
    = call resolve n (f.gather [] []).2.1.function
        ((f.gather [] []).1 ++ args ++ (f.gather [] []).2.2) := by
  cases n with
  | zero => rfl
  | succ n =>
    simp only [call, Evaluation.call, Function.gather_eq, Function.flatten_function,
      List.append_nil, List.nil_append]

/-- Giving arguments ahead makes a function that takes the rest of them; giving none makes no
other function. -/
theorem eval_ahead {side : Side} {l r : Expr Nat} {location : Option Location} {w w₁ w₂ : World}
    {f : Function} {vs : List Value} (hl : eval resolve n l w = .ok (.function f) w₁)
    (hr : eval resolve n r w₁ = .ok (.list vs) w₂) :
    ∃ g, eval resolve (n + 1) ⟨.binary side.operator l r, location⟩ w = .ok (.function g) w₂
      ∧ (vs = [] → g = f)
      ∧ ∀ args, call resolve n g args = call resolve n f (side.join vs args) := by
  have heval : eval resolve (n + 1) ⟨.binary side.operator l r, location⟩ w
      = Evaluation.applyAhead side.operator location side (.function f) (.list vs) w₂ := by
    cases side with
    | left | right =>
      simp only [eval, Evaluation.expression, Evaluation.binary, Side.operator, Evaluation.strict,
        Bind.bind, EStateM.bind, hl, hr]
  rw [heval]
  cases vs with
  | nil => exact ⟨f, rfl, fun _ => rfl, fun args => by rw [Side.join_nil]⟩
  | cons v vs => exact ⟨.applied side (v :: vs) f, rfl, nofun, call_applied resolve n side _ f⟩

/-- Partial application composes. A call of a function with arguments given ahead does what a call
of the function with all arguments does, to the world as well as in its result or failure; for
lists given ahead on both sides in any order it does not matter whether they are taken off one by
one or gathered in one walk; and the operators make just such functions. -/
theorem call_ahead :
    (∀ (side : Side) (vs : List Value) (f : Function) (args : List Value),
      call resolve n (.applied side vs f) args = call resolve n f (side.join vs args))
    ∧ (∀ (lists : List (Side × List Value)) (f : Function) (args : List Value),
      call resolve n (f.ahead lists) args = call resolve n f (unfoldAhead lists args)
        ∧ unfoldAhead lists args = givenOn .left lists ++ args ++ givenOn .right lists.reverse)
    ∧ (∀ (f : Function) (args : List Value), call resolve n f args
      = call resolve n (f.gather [] []).2.1.function
        ((f.gather [] []).1 ++ args ++ (f.gather [] []).2.2))
    ∧ ∀ (side : Side) (l r : Expr Nat) (location : Option Location) (w w₁ w₂ : World) (f : Function)
      (vs : List Value), eval resolve n l w = .ok (.function f) w₁ →
      eval resolve n r w₁ = .ok (.list vs) w₂ →
      ∃ g, eval resolve (n + 1) ⟨.binary side.operator l r, location⟩ w = .ok (.function g) w₂
        ∧ (vs = [] → g = f)
        ∧ ∀ args, call resolve n g args = call resolve n f (side.join vs args) := by
  refine ⟨call_applied resolve n, ?_, call_gather resolve n, ?_⟩
  · exact fun lists f args => ⟨call_unfold resolve n lists f args, unfoldAhead_eq lists args⟩
  · exact fun side l r location w w₁ w₂ f vs => eval_ahead resolve n

end Calls

/-- A function of a document with arguments given ahead on both sides by turns, and one made by an
operator. -/
theorem call_ahead_turns :
    let w : World := { random := .ofSeed "seed" }
    let code : FunctionExpr Nat := ⟨0, [], some "all", [], ⟨.reference "all", none⟩⟩
    let f : Function := .closure code []
    let item (s : String) : Element Nat := .item ⟨.string s, none⟩
    call Run.resolve 2 (f.ahead [(.left, [.string "a"]), (.right, [.string "d"]),
        (.left, [.string "b"])]) [.string "c"]
      = call Run.resolve 2 f [.string "a", .string "b", .string "c", .string "d"]
    ∧ eval Run.resolve 2 ⟨.function code, none⟩ w = .ok (.function f) w
    ∧ eval Run.resolve 2 ⟨.list [item "d"], none⟩ w = .ok (.list [.string "d"]) w
    ∧ ∃ g, eval Run.resolve 3
        ⟨.binary .partialRight ⟨.function code, none⟩ ⟨.list [item "d"], none⟩, none⟩ w
        = .ok (.function g) w
      ∧ call Run.resolve 2 g [.string "c"] = call Run.resolve 2 f [.string "c", .string "d"] := by
  intro w code f item
  have hf : eval Run.resolve 2 ⟨.function code, none⟩ w = .ok (.function f) w := rfl
  have hd : eval Run.resolve 2 ⟨.list [item "d"], none⟩ w = .ok (.list [.string "d"]) w := rfl
  obtain ⟨-, hlists, -, heval⟩ := call_ahead Run.resolve 2
  obtain ⟨g, hg, -, hcall⟩ := heval .right _ _ none w w w f _ hf hd
  exact ⟨(hlists _ f _).1, hf, hd, g, hg, hcall _⟩

end Tale
