import Mathlib.Data.UInt
import Mathlib.Logic.Function.Iterate
import Mathlib.Tactic.Ring
import Tale.Random

/-!
# Draws that can be taken back

The words after a draw determine the words before it, and any four words come after some draw. So
two generators that start apart are still apart after equally many draws, whatever is drawn from
either of them (`draws_keep_apart`).

A draw is taken back word by word (`back`). To lay a word over itself, moved to the right, gives the
word again when it is done four times (`overlay_four`); nine times a word can be divided by nine, as
nine is odd (`mul_ninth`); and the counter is turned back. The first word is a summand of the third
one, and by then all other summands are known, so that no rotation has to be undone.
-/

namespace Tale.Random

/-! ## Words -/

/-- A word, and itself moved `k` bits to the right laid over it. -/
def overlay (k x : UInt32) : UInt32 :=
  x ^^^ (x >>> k)

theorem overlay_overlay (k x : UInt32) : overlay k (overlay k x) = x ^^^ (x >>> k >>> k) := by
  calc overlay k (overlay k x)
      = x ^^^ (x >>> k) ^^^ ((x >>> k) ^^^ (x >>> k >>> k)) := by
        simp only [overlay, UInt32.shiftRight_xor]
    _ = x ^^^ ((x >>> k) ^^^ (x >>> k)) ^^^ (x >>> k >>> k) := by
        simp only [UInt32.xor_assoc]
    _ = x ^^^ (x >>> k >>> k) := by
        rw [UInt32.xor_self, UInt32.xor_zero]

theorem shiftRight_nine_nine (x : UInt32) : x >>> 9 >>> 9 = x >>> 18 := by
  apply UInt32.toNat_inj.mp
  simp only [UInt32.toNat_shiftRight, UInt32.reduceToNat, Nat.reduceMod,
    Nat.shiftRight_eq_div_pow, Nat.div_div_eq_div_mul, Nat.reducePow, Nat.reduceMul]

theorem shiftRight_out (x : UInt32) : x >>> 18 >>> 18 = 0 := by
  apply UInt32.toNat_inj.mp
  have hx := x.toNat_lt
  simp only [UInt32.toNat_shiftRight, UInt32.reduceToNat, Nat.reduceMod,
    Nat.shiftRight_eq_div_pow, Nat.reducePow] at hx ⊢
  omega

/-- Twice by 9 is once by 18, and twice by 18 leaves nothing to lay over. -/
theorem overlay_four (x : UInt32) : overlay 9 (overlay 9 (overlay 9 (overlay 9 x))) = x := by
  have twice (y : UInt32) : overlay 9 (overlay 9 y) = overlay 18 y := by
    rw [overlay_overlay, shiftRight_nine_nine, overlay]
  rw [twice, twice, overlay_overlay, shiftRight_out, UInt32.xor_zero]

theorem add_shiftLeft (x : UInt32) : x + (x <<< 3) = x * 9 := by
  apply UInt32.toNat_inj.mp
  simp only [UInt32.toNat_add, UInt32.toNat_mul, UInt32.toNat_shiftLeft, UInt32.reduceToNat,
    Nat.reduceMod, Nat.shiftLeft_eq, Nat.reducePow]
  omega

/-- What a word is multiplied with to divide it by nine. -/
def ninth : UInt32 :=
  954437177

theorem mul_ninth (x : UInt32) : x * 9 * ninth = x := by
  rw [UInt32.mul_assoc, show 9 * ninth = 1 from rfl, UInt32.mul_one]

theorem ninth_mul (x : UInt32) : x * ninth * 9 = x := by
  rw [UInt32.mul_assoc, show ninth * 9 = 1 from rfl, UInt32.mul_one]

/-! ## One draw -/

/-- The words before a draw. -/
def back (r : Random) : Random :=
  let b := overlay 9 (overlay 9 (overlay 9 r.a))
  let c := r.b * ninth
  { a := r.c - rotateLeft c 21 - b - r.counter
    b
    c
    counter := r.counter - 1 }

theorem advance_eq (r : Random) : r.advance = ⟨overlay 9 r.b, r.c * 9,
    rotateLeft r.c 21 + (r.a + r.b + (r.counter + 1)), r.counter + 1⟩ := by
  rw [← add_shiftLeft]
  rfl

open scoped UInt32.CommRing in
theorem back_advance : Function.LeftInverse back advance := by
  intro ⟨a, b, c, counter⟩
  have ha (x : UInt32) : x + (a + b + (counter + 1)) - x - b - (counter + 1) = a := by ring
  simp only [advance_eq, back, overlay_four, mul_ninth, ha, UInt32.add_sub_cancel]

open scoped UInt32.CommRing in
theorem advance_back : Function.RightInverse back advance := by
  intro ⟨a, b, c, counter⟩
  have hc (x y : UInt32) : x + (c - x - y - counter + y + counter) = c := by ring
  simp only [advance_eq, back, overlay_four, ninth_mul, hc, UInt32.sub_add_cancel]

theorem advance_bijective : Function.Bijective advance :=
  ⟨back_advance.injective, advance_back.surjective⟩

theorem advance_eq_iff {p r : Random} : p.advance = r ↔ p = r.back :=
  ⟨fun h => h ▸ (back_advance p).symm, fun h => h ▸ advance_back r⟩

/-! ## Many draws -/

/-- What can be drawn from a generator. -/
inductive Draw where
  | number
  | between (low high : Float)
  | unit
  | boolean
  | whole (low high : Float)
  | index (size : Nat)

/-- The generator after a draw. -/
def next (r : Random) : Draw → Random
  | .number => r.draw.2
  | .between low high => (r.between low high).2
  | .unit => r.unit.2
  | .boolean => r.boolean.2
  | .whole low high => (r.whole low high).2
  | .index size => (r.index size).2

/-- The generator after a row of draws. -/
def after (r : Random) (row : List Draw) : Random :=
  row.foldl next r

/-- Whatever is drawn, it takes one step. -/
theorem next_eq (r : Random) (d : Draw) : r.next d = r.advance := by
  cases d <;> rfl

theorem after_eq (r : Random) (row : List Draw) : r.after row = advance^[row.length] r := by
  have hnext : next = fun r _ => r.advance := funext₂ next_eq
  rw [after, hnext, List.foldl_const]

/-- A draw leads from different generators to different ones, and to every generator from exactly
one, which `back` gives. So generators that differ still do so after equally many draws, of
whatever kinds. -/
theorem draws_keep_apart :
    Function.Bijective (fun r : Random => r.draw.2)
      ∧ (∀ p r : Random, p.draw.2 = r ↔ p = r.back)
      ∧ ∀ row row' : List Draw, row.length = row'.length →
          ∀ r r' : Random, r ≠ r' → r.after row ≠ r'.after row' := by
  refine ⟨advance_bijective, fun p r => advance_eq_iff, fun row row' hlen r r' hne heq => hne ?_⟩
  rw [after_eq, after_eq, hlen] at heq
  exact advance_bijective.injective.iterate row'.length heq

theorem draws_keep_apart_seeded :
    let row : List Draw := [.unit, .index 3, .boolean]
    let row' : List Draw := [.whole 1 7, .number, .between 2 5]
    row.length = row'.length ∧ ofSeed "a" ≠ ofSeed "b"
      ∧ (ofSeed "a").after row ≠ (ofSeed "b").after row' := by
  intro row row'
  have hne : ofSeed "a" ≠ ofSeed "b" := by decide +kernel
  exact ⟨rfl, hne, draws_keep_apart.2.2 row row' rfl _ _ hne⟩

end Tale.Random
