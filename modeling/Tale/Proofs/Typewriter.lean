import Mathlib.Algebra.GroupWithZero.Nat
import Mathlib.Data.List.Basic
import Tale.Player.Screen

/-!
# The typewriter

Text goes from the lines that wait to the line being typed and from there to the lines shown, and
only a boundary adds any. So what is shown, typed and waiting is at any time what was handed in, in
its order (`lines_turns`).

A line takes one stroke for each of its characters and one more to be done, and an empty line takes
only that one. Each stroke takes one off the strokes that are left (`left_advance`), so they are
counted by what waits (`typewriter`).
-/

namespace Tale.Player.Screen

variable {s s' : Screen}

/-- What happens to the text while a story goes on. -/
inductive Turn
  | stroke
  | skip
  | append (b : Boundary)

/-- A stroke of the typewriter: whether there was anything left to type, and the screen then. -/
def stroke (s : Screen) : Bool × Screen :=
  match s.advance? with
  | some s' => (true, s')
  | none => (false, s)

namespace Turn

def apply : Turn → Screen → Screen
  | stroke, s => s.stroke.2
  | skip, s => s.skip
  | append b, s => s.append b

/-- The lines that come with it. -/
def handed : Turn → List String
  | append b => if b.texts = [] then [] else "" :: b.texts
  | _ => []

end Turn

/-- The screen after a row of turns. -/
def turns (ts : List Turn) (s : Screen) : Screen :=
  ts.foldl (fun s t => t.apply s) s

/-! ## No line is lost -/

theorem lines_advance (h : s.advance? = some s') : s'.lines = s.lines := by
  unfold advance? at h
  split at h
  · next ht =>
    split at h
    · cases h
    · next hw => split_ifs at h <;> cases h <;> simp [lines, ht, hw]
  · next ht => split_ifs at h <;> cases h <;> simp [lines, ht]

theorem lines_apply (t : Turn) (s : Screen) : (t.apply s).lines = s.lines ++ t.handed := by
  cases t with
  | stroke =>
    simp only [Turn.handed, List.append_nil, Turn.apply, Screen.stroke]
    split
    · exact lines_advance ‹_›
    · rfl
  | skip => simp [Turn.apply, Turn.handed, Screen.skip, lines]
  | append b => simp [Turn.apply, Turn.handed, Screen.append, setBoundary, lines]

theorem lines_turns : ∀ (ts : List Turn) (s : Screen),
    (s.turns ts).lines = s.lines ++ ts.flatMap Turn.handed
  | [], s => (List.append_nil _).symm
  | t :: ts, s => by
    rw [turns, List.foldl_cons, List.flatMap_cons, ← List.append_assoc, ← lines_apply]
    exact lines_turns ts (t.apply s)

/-! ## Strokes -/

/-- The strokes that lines take. -/
def strokes (lines : List String) : Nat :=
  (lines.map fun line => line.length + 1).sum

/-- The strokes until all the text is shown. -/
def left (s : Screen) : Nat :=
  (s.typing.map fun line => line.length - s.typed + 1).getD 0 + strokes s.waiting

theorem strokes_cons (line : String) (lines : List String) :
    strokes (line :: lines) = line.length + 1 + strokes lines :=
  List.sum_cons

theorem left_of_typing (h : s.typing = none) : s.left = strokes s.waiting := by
  rw [left, h]
  exact Nat.zero_add _

theorem left_advance (h : s.advance? = some s') : s.left = s'.left + 1 := by
  unfold advance? at h
  split at h
  · next ht =>
    rw [left_of_typing ht]
    split at h
    · cases h
    · next line waiting hw =>
      rw [hw, strokes_cons]
      split_ifs at h with he <;> cases h
      · have hl : line.length = 0 := String.length_eq_zero_iff.mpr (String.isEmpty_iff.mp he)
        simp only [left, ht, Option.map_none, Option.getD_none]
        omega
      · have hl : line.length ≠ 0 := mt String.length_eq_zero_iff.mp (mt String.isEmpty_iff.mpr he)
        simp only [left, Option.map_some, Option.getD_some]
        omega
  · next line ht =>
    split_ifs at h with hl <;> cases h <;> simp only [left, ht, Option.map, Option.getD] <;> omega

/-- Where nothing more can be typed there is neither a line being typed nor one that waits. -/
theorem advance?_eq_none : s.advance? = none ↔ s.typing = none ∧ s.waiting = [] := by
  unfold advance?
  split
  · next ht =>
    split
    · next hw => simp [ht, hw]
    · next hw => split_ifs <;> simp [hw]
  · next ht => split_ifs <;> simp [ht]

theorem isTyping_eq_false : s.isTyping = false ↔ s.typing = none ∧ s.waiting = [] := by
  simp [isTyping]

theorem left_eq_zero : s.left = 0 ↔ s.advance? = none := by
  refine ⟨fun h => ?_, fun h => ?_⟩
  · cases ha : s.advance? with
    | none => rfl
    | some s' => exact absurd (left_advance ha) (h ▸ nofun)
  · obtain ⟨ht, hw⟩ := advance?_eq_none.mp h
    rw [left_of_typing ht, hw]
    rfl

theorem stroke_some (h : s.advance? = some s') : s.stroke = (true, s') := by
  rw [stroke, h]

theorem stroke_none (h : s.advance? = none) : s.stroke = (false, s) := by
  rw [stroke, h]

/-- A row of strokes: what each of them answers, and the screen after them. -/
def typeOn : Nat → Screen → List Bool × Screen
  | 0, s => ([], s)
  | n + 1, s => (s.stroke.1 :: (typeOn n s.stroke.2).1, (typeOn n s.stroke.2).2)

theorem lines_typeOn (n : Nat) (s : Screen) : (typeOn n s).2.lines = s.lines := by
  induction n generalizing s with
  | zero => rfl
  | succ n ih => exact (ih s.stroke.2).trans ((lines_apply .stroke s).trans (List.append_nil _))

/-- Strokes are answered until none is left. -/
theorem typeOn_answers (n : Nat) (s : Screen) : (typeOn n s).1
    = List.replicate (min n s.left) true ++ List.replicate (n - s.left) false := by
  induction n generalizing s with
  | zero => simp [typeOn]
  | succ n ih =>
    rw [typeOn, ih]
    cases ha : s.advance? with
    | some s' =>
      rw [stroke_some ha, left_advance ha, Nat.add_sub_add_right, Nat.add_min_add_right,
        List.replicate_succ, List.cons_append]
    | none =>
      rw [stroke_none ha, left_eq_zero.mpr ha]
      simp [List.replicate_succ]

theorem typeOn_done {n : Nat} (h : s.left ≤ n) : (typeOn n s).2.advance? = none := by
  induction n generalizing s with
  | zero => exact left_eq_zero.mp (Nat.le_zero.mp h)
  | succ n ih =>
    rw [typeOn]
    refine ih ?_
    cases ha : s.advance? with
    | some s' =>
      rw [stroke_some ha]
      exact Nat.le_of_add_le_add_right (left_advance ha ▸ h)
    | none =>
      rw [stroke_none ha, left_eq_zero.mpr ha]
      exact Nat.zero_le n

/-- After any turns the text is what was handed in since the story began, in its order. And from
any screen on which no line is being typed, strokes are answered once for each character that waits
and once for each line, and no more after that; then all the text is shown. -/
theorem typewriter (s : Screen) (b : Boundary) (ts : List Turn) (u : Screen)
    (hu : u.typing = none) :
    let after := (s.replace b).turns ts
    after.shown ++ after.typing.toList ++ after.waiting = b.texts ++ ts.flatMap Turn.handed
      ∧ (∀ n, (typeOn n u).1 = List.replicate (min n (strokes u.waiting)) true
        ++ List.replicate (n - strokes u.waiting) false)
      ∧ ∀ n, strokes u.waiting ≤ n → (typeOn n u).2.shown = u.shown ++ u.waiting
        ∧ (typeOn n u).2.typing = none ∧ (typeOn n u).2.waiting = [] := by
  refine ⟨lines_turns ts (s.replace b), fun n => ?_, fun n hn => ?_⟩
  · rw [typeOn_answers, left_of_typing hu]
  · obtain ⟨ht, hw⟩ := advance?_eq_none.mp (typeOn_done (left_of_typing hu ▸ hn))
    have hl := lines_typeOn n u
    simp only [lines, ht, hw, hu, Option.toList_none, List.append_nil] at hl
    exact ⟨hl, ht, hw⟩

/-- A boundary with an empty line in its text. -/
def greeting : Boundary where
  ended := false
  texts := ["hé", "", "x"]
  choices := []
  stateText := none
  pinned := []

theorem typewriter_greeting :
    (({} : Screen).replace greeting).typing = none
      ∧ ((({} : Screen).replace greeting).turns [.stroke, .append greeting, .skip]).lines
        = ["hé", "", "x", "", "hé", "", "x"]
      ∧ (typeOn 8 (({} : Screen).replace greeting)).1
        = [true, true, true, true, true, true, false, false]
      ∧ (typeOn 8 (({} : Screen).replace greeting)).2.shown = ["hé", "", "x"] := by
  obtain ⟨hlines, hanswers, hshown⟩ := typewriter {} greeting [.stroke, .append greeting, .skip]
    (({} : Screen).replace greeting) rfl
  exact ⟨rfl, hlines, (hanswers 8).trans (by decide +kernel), (hshown 8 (by decide +kernel)).1⟩

end Tale.Player.Screen
