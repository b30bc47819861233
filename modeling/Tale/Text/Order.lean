/-!
# The order of a lexicon

Rows are compared at the first place where they differ, and a row that another begins with comes
before it. Letters are compared by their code points.
-/

namespace Tale.Text

/-- Whether a row comes before another or is the same, given that of their elements. -/
def lexLE {α : Type} [DecidableEq α] (le : α → α → Bool) : List α → List α → Bool
  | [], _ => true
  | _ :: _, [] => false
  | a :: as, b :: bs => if a = b then lexLE le as bs else le a b

/-- Whether a text comes before another or is the same. -/
def nameLE (a b : String) : Bool :=
  lexLE (fun c d => c.toNat ≤ d.toNat) a.toList b.toList

end Tale.Text
