import Tale.Evaluation.Expression

/-!
# Evaluation

The machine that evaluates expressions and calls functions. Nothing bounds the depth of an
evaluation or the turns of a loop in a story, so the machine gets a limit on both; a computation
that would go beyond it stops as exhausted, which no computation can catch.
-/

namespace Tale

mutual

/-- Evaluates an expression, at most `n` levels deep. -/
def eval (resolve : String → Run Address) : (n : Nat) → Expr Nat → Run Value
  | 0, _ => throw .exhausted
  | n + 1, e => Evaluation.expression ⟨n, resolve, eval resolve n, call resolve n⟩ e

/-- Calls a function, at most `n` levels deep. -/
def call (resolve : String → Run Address) : (n : Nat) → Function → List Value → Run Value
  | 0, _, _ => throw .exhausted
  | n + 1, f, args => Evaluation.call ⟨n, resolve, eval resolve n, call resolve n⟩ f args

end

/-- The machine of a limit. -/
def machine (n : Nat) (resolve : String → Run Address := Run.resolve) : Machine :=
  ⟨n, resolve, eval resolve n, call resolve n⟩

end Tale
