import Tale.Text.Units

/-!
# Seeded random numbers

A text is hashed into the four words of a generator, and each draw moves the words on and gives a
number from 0 up to, but not including, 1. The same seed gives the same draws.
-/

namespace Tale

/-- The words of the generator. -/
structure Random where
  a : UInt32
  b : UInt32
  c : UInt32
  counter : UInt32
  deriving DecidableEq, Repr, Inhabited

namespace Random

def rotateLeft (x : UInt32) (k : UInt32) : UInt32 :=
  (x <<< k) ||| (x >>> (32 - k))

/-- Takes the code units of the seed in, one after the other. -/
def absorb (hash : UInt32) (unit : Nat) : UInt32 :=
  rotateLeft ((hash ^^^ unit.toUInt32) * 3432918353) 13

/-- The next hash; it is also the next word given out. -/
def squeeze (hash : UInt32) : UInt32 :=
  let hash := (hash ^^^ (hash >>> 16)) * 2246822507
  let hash := (hash ^^^ (hash >>> 13)) * 3266489909
  hash ^^^ (hash >>> 16)

def ofSeed (seed : String) : Random :=
  let units := Text.units seed.toList
  let hash := units.foldl absorb (1779033703 ^^^ units.length.toUInt32)
  let a := squeeze hash
  let b := squeeze a
  let c := squeeze b
  ⟨a, b, c, squeeze c⟩

/-- The words after one draw. -/
def advance (r : Random) : Random :=
  let counter := r.counter + 1
  { a := r.b ^^^ (r.b >>> 9)
    b := r.c + (r.c <<< 3)
    c := rotateLeft r.c 21 + (r.a + r.b + counter)
    counter }

/-- The word that a draw gives. -/
def output (r : Random) : UInt32 :=
  r.a + r.b + (r.counter + 1)

/-- A number in `[0, 1)`. -/
def draw (r : Random) : Float × Random :=
  (r.output.toFloat / 4294967296.0, r.advance)

/-- A number in `[low, high)`. -/
def between (low high : Float) (r : Random) : Float × Random :=
  let (x, r) := r.draw
  (x * (high - low) + low, r)

/-- A number in `[0, 1)`, by way of `between`. -/
def unit (r : Random) : Float × Random :=
  r.between 0 1

def boolean (r : Random) : Bool × Random :=
  let (x, r) := r.draw
  (x < 0.5, r)

/-- A whole number in `[low, high)` if the bounds are whole. -/
def whole (low high : Float) (r : Random) : Float × Random :=
  let (x, r) := r.between low high
  (x.floor, r)

/-- One of the indices below `size`. -/
def index (size : Nat) (r : Random) : Nat × Random :=
  let (x, r) := r.whole 0 size.toFloat
  (min x.toUInt64.toNat (size - 1), r)

end Random

end Tale
