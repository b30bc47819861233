import Mathlib.Data.List.Basic
import Tale.Player.Screen.Draw
import Tale.Player.Screen.Keys

/-!
# The selected choice

Whatever is shown and whatever keys are pressed, the selection is one of the choices, and the first
choice seen does not come after it (`Screen.Aimed`). Moving down always brings the selection into
sight. But a boundary selects the first choice that can be taken and shows the choices from the
first one on, so if five or more that cannot be taken stand before it, it is out of sight until it
is moved to, and no row is marked (`selected_seen`).
-/

namespace Tale.Player

namespace Screen

variable {s s' : Screen}

/-- The screens that boundaries, typing and keys lead to. -/
inductive Reached : Screen → Prop
  | blank : Reached {}
  | replaced {s : Screen} (h : Reached s) (b : Boundary) : Reached (s.replace b)
  | appended {s : Screen} (h : Reached s) (b : Boundary) : Reached (s.append b)
  | typed {s s' : Screen} (h : Reached s) (ha : s.advance? = some s') : Reached s'
  | noticed {s : Screen} (h : Reached s) (status : String) : Reached (s.setStatus status)
  | pressed {d : Desk} (h : Reached d.screen) (c : Context) (k : Key) (clock : String) :
    Reached (d.press c k clock).2.screen

/-! ## Where the selection is -/

/-- The position of the first choice that can be taken. -/
def firstOpen? (s : Screen) : Option Nat :=
  s.choices.findIdx? (!·.disabled)

/-- Whether the selection is among the choices seen. -/
def Seen (s : Screen) : Prop :=
  s.scroll ≤ s.selected ∧ s.selected < s.scroll + choiceRows

/-- The selection is among the choices, and in sight unless the choices are seen from the first one
on and none before it can be taken. -/
structure Aimed (s : Screen) : Prop where
  scroll_le : s.scroll ≤ s.selected
  selected_lt : s.choices ≠ [] → s.selected < s.choices.length
  seen : s.Seen ∨ s.scroll = 0 ∧ ∃ first, s.firstOpen? = some first ∧ s.selected ≤ first

/-- Nothing but the choices and the two positions matters. -/
theorem Aimed.congr (h : s.Aimed) (hc : s'.choices = s.choices) (hs : s'.selected = s.selected)
    (hf : s'.scroll = s.scroll) : s'.Aimed := by
  obtain ⟨hle, hlt, hseen⟩ := h
  refine ⟨?_, ?_, ?_⟩
  · rwa [hs, hf]
  · rwa [hc, hs]
  · rwa [Seen, firstOpen?, hc, hs, hf]

theorem aimed_setBoundary (s : Screen) (b : Boundary) : (s.setBoundary b).Aimed := by
  refine ⟨Nat.zero_le _, fun hn => ?_, ?_⟩
  · simp only [setBoundary] at hn ⊢
    cases hf : b.choices.findIdx? (!·.disabled) with
    | none => exact List.length_pos_iff.mpr hn
    | some first => exact (List.findIdx?_eq_some_iff_getElem.mp hf).1
  · simp only [Seen, firstOpen?, setBoundary]
    cases hf : b.choices.findIdx? (!·.disabled) with
    | none => exact .inl ⟨Nat.le_refl 0, by decide⟩
    | some first => exact .inr ⟨trivial, first, rfl, Nat.le_refl first⟩

theorem Aimed.up (h : s.Aimed) : s.up.Aimed := by
  obtain ⟨hle, hlt, hseen⟩ := h
  have hrows : 0 < choiceRows := by decide
  refine ⟨Nat.min_le_right _ _, fun hn => ?_, ?_⟩
  · have := hlt hn
    simp only [Screen.up]
    omega
  · simp only [Seen, Screen.up] at hseen ⊢
    rcases hseen with hseen | ⟨hz, first, hf, hfirst⟩
    · exact .inl (by omega)
    · exact .inr ⟨by omega, first, hf, by omega⟩

theorem down_seen (hle : s.scroll ≤ s.selected) (hlt : s.selected < s.choices.length) :
    s.down.Seen := by
  have hrows : 0 < choiceRows := by decide
  simp only [Seen, Screen.down]
  split_ifs <;> omega

theorem Aimed.down (h : s.Aimed) (hn : s.choices ≠ []) : s.down.Aimed := by
  have hlt := h.selected_lt hn
  have hseen := down_seen h.scroll_le hlt
  refine ⟨hseen.1, fun _ => ?_, .inl hseen⟩
  simp only [Screen.down]
  omega

theorem aimed_advance (h : s.Aimed) (ha : s.advance? = some s') : s'.Aimed := by
  unfold advance? at ha
  split at ha
  · split at ha
    · cases ha
    · split_ifs at ha <;> cases ha <;> exact h.congr rfl rfl rfl
  · split_ifs at ha <;> cases ha <;> exact h.congr rfl rfl rfl

end Screen

namespace Desk

open Screen

variable {d : Desk}

theorem aimed_say (h : d.screen.Aimed) (status : String) : (d.say status).2.screen.Aimed :=
  h.congr rfl rfl rfl

theorem aimed_moveTo (h : d.screen.Aimed) (done : String)
    (r : Except Failure (Session × Boundary)) : (d.moveTo done r).2.screen.Aimed := by
  rcases r with f | ⟨session, b⟩
  · exact h
  · exact aimed_say (d := { d with session, screen := d.screen.replace b })
      (aimed_setBoundary _ b) done

theorem aimed_save (h : d.screen.Aimed) (c : Context) : (d.save c).2.screen.Aimed := by
  unfold save
  split
  · exact aimed_say (d := { d with files := _ }) h _
  · exact h

theorem aimed_undo (h : d.screen.Aimed) (c : Context) : (d.undo c).2.screen.Aimed := by
  unfold undo
  split
  · exact aimed_say h _
  · exact aimed_moveTo h _ _
  · exact h

theorem aimed_take (h : d.screen.Aimed) : d.take.2.screen.Aimed := by
  unfold take
  split
  · exact aimed_say h _
  · split_ifs
    · exact aimed_say h _
    · split
      · next b session _ =>
        exact aimed_say (d := { d with session, screen := d.screen.append b })
          (aimed_setBoundary _ b) _
      · exact h

theorem aimed_hurry (h : d.screen.Aimed) (k : Key) : (d.hurry k).2.screen.Aimed := by
  unfold hurry
  split_ifs
  · exact h.congr rfl rfl rfl
  · exact aimed_say h _

theorem aimed_pick (h : d.screen.Aimed) (k : Key) : (d.pick k).2.screen.Aimed := by
  unfold pick
  split
  · split_ifs
    · exact aimed_say h _
    · exact h.up
  · split_ifs with hn
    · exact aimed_say h _
    · exact h.down (mt List.isEmpty_iff.mpr hn)
  · exact aimed_take h
  · exact h

theorem aimed_press (h : d.screen.Aimed) (c : Context) (k : Key) (clock : String) :
    (d.press c k clock).2.screen.Aimed := by
  unfold press
  split
  · exact h
  · split
    · exact h.congr rfl rfl rfl
    · exact aimed_moveTo h _ _
    · exact aimed_save h c
    · exact aimed_moveTo h _ _
    · exact aimed_undo h c
    · split
      · exact aimed_hurry h k
      · exact aimed_pick h k

end Desk

namespace Screen

variable {s : Screen}

theorem Reached.aimed (h : s.Reached) : s.Aimed := by
  induction h with
  | blank => exact ⟨Nat.le_refl 0, fun hn => absurd rfl hn, .inl ⟨Nat.le_refl 0, by decide⟩⟩
  | replaced _ b => exact aimed_setBoundary _ b
  | appended _ b => exact aimed_setBoundary _ b
  | typed _ ha ih => exact aimed_advance ih ha
  | noticed _ _ ih => exact ih.congr rfl rfl rfl
  | pressed _ c k clock ih => exact Desk.aimed_press ih c k clock

/-! ## The mark -/

/-- Whether a row has the mark of the selection. -/
def Row.marked (r : Row) : Bool :=
  ['>', ' '].isPrefixOf r.text.toList

theorem frameLines_choices (s : Screen) (title stateFile : String) (width height : Nat) :
    ∃ above below, s.frameLines title stateFile width height
      = above ++ (List.range choiceRows).map (fun i => s.choiceRow width (s.scroll + i))
        ++ below := by
  exact ⟨_, _, ((List.append_assoc _ _ _).trans (List.append_assoc _ _ _)).trans
    (List.append_assoc _ _ _)⟩

theorem marked_mark (t : String) (color : Color) (crossedOut : Bool) :
    Row.marked ⟨"> " ++ t, color, crossedOut⟩ = true := by
  rw [Row.marked, String.toList_append]
  rfl

theorem marked_blank (t : String) (color : Color) (crossedOut : Bool) :
    Row.marked ⟨"  " ++ t, color, crossedOut⟩ = false := by
  rw [Row.marked, String.toList_append]
  rfl

/-- Once the text is shown, the row of the selected choice is marked, and no other one. -/
theorem choiceRow_marked (hs : s.showsChoices = true) (hi : s.selected < s.choices.length)
    (width i : Nat) : (s.choiceRow width i).marked = decide (i = s.selected) := by
  unfold choiceRow
  split
  · rw [if_pos hs]
    by_cases h : i = s.selected
    · simp only [h, if_true, decide_true]
      split_ifs <;> exact marked_mark ..
    · simp only [h, if_false, decide_false]
      split_ifs <;> exact marked_blank ..
  · next hnone =>
    have hne : i ≠ s.selected := by
      rintro rfl
      exact absurd (List.getElem?_eq_none_iff.mp hnone) (Nat.not_le.mpr hi)
    rw [decide_eq_false hne]
    decide

/-- Where the selection is on each screen, and what the frame shows of it. If one of the first
choices that fit can be taken, or none of all, it is in sight. Otherwise it is out of sight only
while the choices are seen from the first one on and those before it cannot be taken; the key down
ends that. Once the text is shown, the choices have a marked row exactly if the selection is in
sight, and that is its row. -/
theorem selected_seen (h : s.Reached) (hc : s.choices ≠ []) :
    s.selected < s.choices.length ∧ s.scroll ≤ s.selected
      ∧ ((∀ first, s.firstOpen? = some first → first < choiceRows) →
        s.selected < s.scroll + choiceRows)
      ∧ (¬ s.selected < s.scroll + choiceRows →
        s.scroll = 0 ∧ ∃ first, s.firstOpen? = some first ∧ s.selected ≤ first)
      ∧ s.down.Seen
      ∧ (s.isTyping = false → ∀ (title stateFile : String) (width height : Nat), ∃ above below,
        s.frameLines title stateFile width height
            = above ++ (List.range choiceRows).map (fun i => s.choiceRow width (s.scroll + i))
              ++ below
          ∧ (∀ i < choiceRows, (s.choiceRow width (s.scroll + i)).marked = true
            ↔ s.scroll + i = s.selected)
          ∧ ((∃ i < choiceRows, (s.choiceRow width (s.scroll + i)).marked = true)
            ↔ s.selected < s.scroll + choiceRows)) := by
  obtain ⟨hle, hlt, hseen⟩ := h.aimed
  have hlt := hlt hc
  refine ⟨hlt, hle, fun hfirst => ?_, fun hn => hseen.resolve_left fun hs => hn hs.2,
    down_seen hle hlt, fun ht title stateFile width height => ?_⟩
  · rcases hseen with hs | ⟨-, first, hf, hsel⟩
    · exact hs.2
    · have := hfirst first hf
      omega
  · have hs : s.showsChoices = true := by simpa [showsChoices, ht] using hc
    have hmarked (i : Nat) : (s.choiceRow width (s.scroll + i)).marked = true
        ↔ s.scroll + i = s.selected := by
      rw [choiceRow_marked hs hlt, decide_eq_true_iff]
    obtain ⟨above, below, hframe⟩ := s.frameLines_choices title stateFile width height
    refine ⟨above, below, hframe, fun i _ => hmarked i, ?_⟩
    simp only [hmarked]
    exact ⟨fun ⟨i, hi, hsel⟩ => by omega, fun hlt => ⟨s.selected - s.scroll, by omega, by omega⟩⟩

/-- A boundary that can only be left by its last choice. -/
def lastOpen (locked : Nat) : Boundary where
  ended := false
  texts := []
  choices := (List.range (locked + 1)).map fun i => ⟨i, "", i < locked⟩
  stateText := none
  pinned := []

theorem selected_seen_last :
    (({} : Screen).replace (lastOpen 4)).Reached ∧ (({} : Screen).replace (lastOpen 4)).choices ≠ []
      ∧ (∀ first, (({} : Screen).replace (lastOpen 4)).firstOpen? = some first → first < choiceRows)
      ∧ (({} : Screen).replace (lastOpen 4)).selected
        < (({} : Screen).replace (lastOpen 4)).scroll + choiceRows
      ∧ ∃ i < choiceRows, ((({} : Screen).replace (lastOpen 4)).choiceRow 40 i).marked = true := by
  have h : (({} : Screen).replace (lastOpen 4)).Reached := .replaced .blank _
  have hc : (({} : Screen).replace (lastOpen 4)).choices ≠ [] := by decide
  have hf : ∀ first, (({} : Screen).replace (lastOpen 4)).firstOpen? = some first
      → first < choiceRows := by
    rintro first hf
    cases hf
    decide
  obtain ⟨-, -, hseen, -, -, hframe⟩ := selected_seen h hc
  obtain ⟨-, -, -, -, hmark⟩ := hframe rfl "" "" 40 24
  have hmark := hmark.mpr (hseen hf)
  simp only [show (({} : Screen).replace (lastOpen 4)).scroll = 0 from rfl, Nat.zero_add] at hmark
  exact ⟨h, hc, hf, hseen hf, hmark⟩

/-- With one choice more that cannot be taken, the selection is below the last row, and no row is
marked. -/
theorem selected_unseen :
    (({} : Screen).replace (lastOpen 5)).Reached
      ∧ (({} : Screen).replace (lastOpen 5)).choices ≠ []
      ∧ (({} : Screen).replace (lastOpen 5)).isTyping = false
      ∧ ¬ (({} : Screen).replace (lastOpen 5)).selected
        < (({} : Screen).replace (lastOpen 5)).scroll + choiceRows
      ∧ ∀ i < choiceRows, ((({} : Screen).replace (lastOpen 5)).choiceRow 40
        ((({} : Screen).replace (lastOpen 5)).scroll + i)).marked = false := by
  refine ⟨.replaced .blank _, ?_, ?_, ?_, ?_⟩ <;> decide +kernel

end Screen

end Tale.Player
