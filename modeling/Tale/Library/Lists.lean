import Tale.Decimal.Whole
import Tale.Library.Answer
import Tale.Value.Equality

/-!
# Functions on lists

Lists do not change; a function that alters one returns a new list. Indices count from 0.
-/

namespace Tale.Library.Lists

open Arguments

/-- The length of a list, as far as positions in it are concerned. -/
def length (args : List Value) : Except Refusal Value := do
  count args 1 (some 1)
  return .nat (← list args 0).length

/-- A new list with another element at an index. -/
def set (args : List Value) : Except Refusal Value := do
  count args 3 (some 3)
  let vs ← list args 0
  let index ← number args 1
  match Decimal.whole? index with
  | none => throw (.indexNotWhole index)
  | some i =>
    if i < 0 then throw (.indexNegative index)
    if vs.length ≤ i then throw (.indexBeyond index vs.length)
    return .list (vs.set i.toNat (args.getD 2 .null))

/-- Lists are not created longer than this. -/
def longest : Nat := 4294967295

def createFilled (args : List Value) : Except Refusal Value := do
  count args 1 (some 2)
  let length ← number args 0
  match Decimal.whole? length with
  | none => throw (.lengthNotWhole length)
  | some n =>
    if n < 0 then throw (.lengthNegative length)
    if longest < n then throw (.lengthTooLarge length)
    return .list (List.replicate n.toNat (args.getD 1 .null))

/-- Consecutive pieces of `k + 1` elements; the last one may be shorter. -/
def chunks (k : Nat) (vs : List Value) : List (List Value) :=
  match vs with
  | [] => []
  | v :: vs => (v :: vs.take k) :: chunks k (vs.drop k)
termination_by vs.length
decreasing_by
  rw [List.length_drop, List.length_cons]
  exact Nat.lt_succ_of_le (Nat.sub_le _ _)

def chunk (args : List Value) : Except Refusal Value := do
  count args 2 (some 2)
  let vs ← list args 0
  let size ← number args 1
  match Decimal.whole? size with
  | none => throw (.chunkSize size)
  | some n =>
    if n < 1 then throw (.chunkSize size)
    return .list ((chunks (n.toNat - 1) vs).map .list)

/-- Where a part of a list begins; it may be the end of the list. -/
def startIndex (start : Float) (length : Nat) : Except Refusal Nat :=
  match Decimal.whole? start with
  | none => .error (.startNotWhole start)
  | some i => if i < 0 || length < i then .error (.startBeyond start length) else .ok i.toNat

/-- A new list with other elements in place of some. -/
def splice (args : List Value) : Except Refusal Value := do
  count args 3 (some 4)
  let vs ← list args 0
  let start ← number args 1
  let length ← number args 2
  let new ← list args 3 (some [])
  let start ← startIndex start vs.length
  match Decimal.whole? length with
  | none => throw .spliceNotWhole
  | some n =>
    if n < 0 then throw .spliceNegative
    if vs.length < start + n then throw .spliceBeyond
    return .list (vs.take start ++ new ++ vs.drop (start + n.toNat))

def slice (args : List Value) : Except Refusal Value := do
  count args 2 (some 3)
  let vs ← list args 0
  let start ← number args 1
  let stop ← number args 2 (some vs.length.toFloat)
  let start ← startIndex start vs.length
  match Decimal.whole? stop with
  | none => throw (.endNotWhole stop)
  | some n =>
    if n < 0 || vs.length < n then throw (.endBeyond stop vs.length)
    if n < start then throw (.endBeforeStart start n.toNat)
    return .list ((vs.take n.toNat).drop start)

def indexOf (args : List Value) : Except Refusal Value := do
  count args 2 (some 2)
  let vs ← list args 0
  match vs.findIdx? (·.same (args.getD 1 .null)) with
  | some i => return .nat i
  | none => return .number (-1)

def includes (args : List Value) : Except Refusal Value := do
  count args 2 (some 2)
  let vs ← list args 0
  return .boolean (vs.any (·.same (args.getD 1 .null)))

/-! ## Functions that call a function -/

section Calls

variable (call : Function → List Value → Run Value)

/-- The list and the function that are the only arguments. -/
def listAndFunction (args : List Value) : Except Refusal (List Value × Function) := do
  count args 2 (some 2)
  let vs ← list args 0
  return (vs, ← function args 1)

/-- Calls a function with an element and its index. A fault leaves the index in its trail. -/
def apply (self : Native) (f : Function) (v : Value) (i : Nat) : ExceptT Refusal Run Value :=
  ExceptT.mk fun w =>
    match call f [v, .nat i] w with
    | .ok v w => .ok (.ok v) w
    | .error (.refused e) w => .ok (.error (.element i e)) w
    | .error (.fault x) w => .error (.fault (x.passing (.element self i) none)) w
    | .error e w => .error e w

/-- Calls a function that has to say yes or no. -/
def test (self : Native) (f : Function) (v : Value) (i : Nat) : ExceptT Refusal Run Bool := do
  match ← apply call self f v i with
  | .boolean b => return b
  | v => throw (.predicate i v)

/-- The results for all elements, of which the first has index `i`. -/
def mapFrom (self : Native) (f : Function) (i : Nat) :
    List Value → ExceptT Refusal Run (List Value)
  | [] => return []
  | v :: vs => do
    let w ← apply call self f v i
    return w :: (← mapFrom self f (i + 1) vs)

/-- The elements that pass a test, of which the first has index `i`. -/
def filterFrom (self : Native) (f : Function) (i : Nat) :
    List Value → ExceptT Refusal Run (List Value)
  | [] => return []
  | v :: vs => do
    let kept ← test call self f v i
    let rest ← filterFrom self f (i + 1) vs
    return if kept then v :: rest else rest

/-- The index of the first element that passes a test; the first one has index `i`. -/
def findFrom (self : Native) (f : Function) (i : Nat) :
    List Value → ExceptT Refusal Run (Option Nat)
  | [] => return none
  | v :: vs => do
    if ← test call self f v i then return some i
    findFrom self f (i + 1) vs

def forEach (args : List Value) : Answer := do
  let (vs, f) ← listAndFunction args
  let _ ← mapFrom call .listForEach f 0 vs
  return .null

def map (args : List Value) : Answer := do
  let (vs, f) ← listAndFunction args
  return .list (← mapFrom call .listMap f 0 vs)

def filter (args : List Value) : Answer := do
  let (vs, f) ← listAndFunction args
  return .list (← filterFrom call .listFilter f 0 vs)

def findIndex (args : List Value) : Answer := do
  let (vs, f) ← listAndFunction args
  match ← findFrom call .listFindIndex f 0 vs with
  | some i => return .nat i
  | none => return .number (-1)

end Calls

end Tale.Library.Lists
