import Tale.Value

/-!
# Equality of values

Two values are the same if they are built alike. Functions of documents are the same if they come
from the same expression and use the same cells, whatever the cells hold; numbers are compared as
numbers, so that one that is none differs from itself.
-/

namespace Tale

mutual

def Value.same : Value → Value → Bool
  | .number x, .number y => x == y
  | .boolean a, .boolean b => a == b
  | .string s, .string t => s == t
  | .null, .null => true
  | .list vs, .list ws => sameValues vs ws
  | .choice c, .choice d => c.same d
  | .action a, .action b => a.same b
  | .function f, .function g => f.same g
  | _, _ => false

def sameValues : List Value → List Value → Bool
  | [], [] => true
  | v :: vs, w :: ws => v.same w && sameValues vs ws
  | _, _ => false

def Choice.same : Choice → Choice → Bool
  | ⟨s, a⟩, ⟨t, b⟩ => s == t && sameConsequence a b

def sameConsequence : Option Consequence → Option Consequence → Bool
  | none, none => true
  | some (.act a), some (.act b) => a.same b
  | some (.call f _), some (.call g _) => f.same g
  | _, _ => false

def sameChoices : List Choice → List Choice → Bool
  | [], [] => true
  | c :: cs, d :: ds => c.same d && sameChoices cs ds
  | _, _ => false

def Action.same : Action → Action → Bool
  | .goto ss, .goto ts => ss == ts
  | .exit, .exit => true
  | .selection cs, .selection ds => sameChoices cs ds
  | _, _ => false

def Function.same : Function → Function → Bool
  | .closure c xs, .closure d ys => c.label == d.label && xs == ys
  | .native m, .native n => m == n
  | .applied s vs f, .applied t ws g => s == t && f.same g && sameValues vs ws
  | _, _ => false

end

end Tale
