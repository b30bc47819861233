import Tale.Language.SourceError
import Tale.Text.Search

/-!
# Visits

A bound says at which visits of a section its contents may be shown: `n`, `a-b`, `a-` or `-b`.
-/

namespace Tale

/-- From which and up to which visit contents may be shown. -/
structure Bounds where
  lower : Option Nat := none
  upper : Option Nat := none
  deriving DecidableEq, Repr, Inhabited

namespace Bounds

def admits (b : Bounds) (visit : Nat) : Bool :=
  b.lower.all (· ≤ visit) && b.upper.all (visit ≤ ·)

/-- An end of a bound; nothing written means no end. -/
def end? (s : List Char) : Option (Option Nat) :=
  if s.isEmpty then some none else (Text.numeral? Text.word64 s).map some

/-- The bounds a text writes. Of several dashes, only what stands around the first one counts. -/
def read? (s : List Char) : Option Bounds :=
  match Text.splitAtChar '-' s with
  | [] => none
  | [n] => (end? n).map fun n => ⟨n, n⟩
  | a :: b :: _ => do
    let lower ← end? a
    let upper ← end? b
    return ⟨lower, upper⟩

/-- The bounds of the contents of a section. -/
def parse (bound : Option String) (fullName : String) : Except SourceError Bounds :=
  match bound with
  | none => .ok {}
  | some b =>
    match read? b.toList with
    | some bounds => .ok bounds
    | none => .error ⟨.bound b fullName, none⟩

end Bounds

end Tale
