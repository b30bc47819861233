import Tale.Telling

/-!
# Replays

A telling is a matter of its seed and the choices taken, so it can be brought back by taking them
again.
-/

namespace Tale.Telling

/-- Takes choices one after the other; the first error ends the replay. -/
def follow (t : Telling) (s : Step) : List Nat → Except StepError (Step × Telling)
  | [] => .ok (s, t)
  | i :: is =>
    match t.resume (some i) with
    | (.ok s, t) => follow t s is
    | (.error e, _) => .error e

/-- The last step of a telling that begins and then takes choices, and the telling after it. -/
def replay (t : Telling) (decisions : List Nat) : Except StepError (Step × Telling) :=
  match t.resume none with
  | (.ok s, t) => t.follow s decisions
  | (.error e, _) => .error e

end Tale.Telling
