import Tale.Evaluation.Call

/-!
# Operators

Most operators evaluate both operands, the left one first, and then need them to be of certain
types. Logical operators and those that stand in for null evaluate the right operand only when it
counts.
-/

namespace Tale.Evaluation

open Run (fail)

section Values

variable (op : BinaryOp) (location : Option Location)

/-- Applies a function of two numbers. -/
def numbers (f : Float → Float → Value) (l r : Value) : Run Value :=
  match l, r with
  | .number x, .number y => pure (f x y)
  | _, _ => fail (.operands op l r) location

def add (l r : Value) : Run Value :=
  match l, r with
  | .number x, .number y => pure (.number (x + y))
  | .string s, .string t => pure (.string (s ++ t))
  | _, _ => fail (.operands op l r) location

/-- The element of a list at an index, or what `missing` makes of an index without one. -/
def element (missing : Float → List Value → Run Value) (l r : Value) : Run Value :=
  match l with
  | .list vs =>
    match r with
    | .number x =>
      match Decimal.whole? x with
      | some (.ofNat i) =>
        match vs[i]? with
        | some v => pure v
        | none => missing x vs
      | some (.negSucc _) => missing x vs
      | none => fail (.index op r) location
    | _ => fail (.index op r) location
  | _ => fail (.indexed op l) location

/-- The element at an index, which has to be there. -/
def elementAt (l r : Value) : Run Value :=
  element op location (fun x vs => fail (.noElement op x vs) location) l r

/-- The element at an index, or null. -/
def elementOrNull (l r : Value) : Run Value :=
  element op location (fun _ _ => pure .null) l r

/-- Gives arguments ahead. -/
def applyAhead (side : Side) (l r : Value) : Run Value :=
  match l with
  | .function f =>
    match r with
    | .list [] => pure (.function f)
    | .list vs => pure (.function (.applied side vs f))
    | _ => fail (.application op .right .list r) location
  | _ => fail (.application op .left .function l) location

end Values

variable (m : Machine) (op : BinaryOp) (location : Option Location)

/-- `f :: args`. -/
def invokeRegular (l r : Value) : Run Value :=
  match l with
  | .function f =>
    match r with
    | .list args => invoke m op location f args
    | _ => fail (.invocation op .right .list r) location
  | _ => fail (.invocation op .left .function l) location

/-- `arg |> f`. -/
def invokePipeline (l r : Value) : Run Value :=
  match r with
  | .function f => invoke m op location f [l]
  | _ => fail (.invocation op .right .function r) location

/-- `args |:: f`. -/
def invokeReverse (l r : Value) : Run Value :=
  match l with
  | .list args =>
    match r with
    | .function f => invoke m op location f args
    | _ => fail (.invocation op .right .function r) location
  | _ => fail (.invocation op .left .list l) location

variable (left right : Expr Nat)

/-- Both operands are evaluated. -/
def strict (f : Value → Value → Run Value) : Run Value := do
  let l ← m.eval left
  let r ← m.eval right
  f l r

/-- Both operands are evaluated, unless the left one is null; then the result is null too. -/
def unlessNull (f : Value → Value → Run Value) : Run Value := do
  match ← m.eval left with
  | .null => return .null
  | l => f l (← m.eval right)

/-- The right operand is evaluated unless the left one settles the matter by being `settled`. -/
def logical (settled : Bool) : Run Value := do
  match ← m.eval left with
  | .boolean b =>
    if b = settled then return .boolean b
    match ← m.eval right with
    | .boolean b => return .boolean b
    | r => fail (.logical op .right r) location
  | l => fail (.logical op .left l) location

/-- The right operand stands in for null. -/
def orElse (check : Value → Run Value) : Run Value := do
  match ← m.eval left with
  | .null => check (← m.eval right)
  | l => return l

def notNull (v : Value) : Run Value :=
  match v with
  | .null => fail .nullFallback location
  | v => pure v

/-- The name and the cell of the variable that an assignment is to. -/
def target : Run (String × Address) :=
  match left.shape with
  | .reference name => return (name, ← m.resolve name)
  | _ => fail (.target op) location

/-- Puts a value into a cell whose bound takes it. -/
def store (name : String) (a : Address) (v : Value) : Run Value := do
  let bound : TypeBound := (← get).cells[a]?.bind (·.bound)
  if !bound.accepts v.type then fail (.assigned name (bound.getD []) v) location
  modify (·.write a v)
  return v

def assign : Run Value := do
  let (name, a) ← target m op location left
  store location name a (← m.eval right)

/-- Updates a number or a text by adding to it. The right operand is added to the value from before
it was evaluated. -/
def addTo : Run Value := do
  let (_, a) ← target m op location left
  let current ← Run.read a
  match current with
  | .number x =>
    match ← m.eval right with
    | .number y => put a (.number (x + y))
    | r => fail (.update op .number r) location
  | .string s =>
    match ← m.eval right with
    | .string t => put a (.string (s ++ t))
    | r => fail (.update op .string r) location
  | v => fail (.updated op v.type) location
where
  put (a : Address) (v : Value) : Run Value := do
    modify (·.write a v)
    return v

/-- Updates a number, from its value before the right operand was evaluated. -/
def update (f : Float → Float → Float) : Run Value := do
  let (_, a) ← target m op location left
  match ← Run.read a with
  | .number x =>
    match ← m.eval right with
    | .number y =>
      modify (·.write a (.number (f x y)))
      return .number (f x y)
    | r => fail (.update op .number r) location
  | v => fail (.updated op v.type) location

/-- Division cut off at the point. -/
def intDiv (x y : Float) : Float :=
  Decimal.truncate (x / y)

def binary : Run Value :=
  match op with
  | .assign => assign m op location left right
  | .addAssign => addTo m op location left right
  | .subAssign => update m op location left right (· - ·)
  | .mulAssign => update m op location left right (· * ·)
  | .divAssign => update m op location left right (· / ·)
  | .intDivAssign => update m op location left right intDiv
  | .remAssign => update m op location left right Decimal.remainder
  | .pipeline => strict m left right (invokePipeline m op location)
  | .reverseInvoke => strict m left right (invokeReverse m op location)
  | .or => logical m op location left right true
  | .nullishStrict => orElse m left right (notNull location)
  | .nullish => orElse m left right pure
  | .and => logical m op location left right false
  | .eq => strict m left right fun l r => pure (.boolean (l.same r))
  | .notEq => strict m left right fun l r => pure (.boolean (!l.same r))
  | .lt => strict m left right (numbers op location fun x y => .boolean (x < y))
  | .ltEq => strict m left right (numbers op location fun x y => .boolean (x <= y))
  | .gt => strict m left right (numbers op location fun x y => .boolean (x > y))
  | .gtEq => strict m left right (numbers op location fun x y => .boolean (x >= y))
  | .add => strict m left right (add op location)
  | .sub => strict m left right (numbers op location fun x y => .number (x - y))
  | .mul => strict m left right (numbers op location fun x y => .number (x * y))
  | .div => strict m left right (numbers op location fun x y => .number (x / y))
  | .intDiv => strict m left right (numbers op location fun x y => .number (intDiv x y))
  | .rem => strict m left right (numbers op location fun x y => .number (Decimal.remainder x y))
  | .pow => strict m left right (numbers op location fun x y => .number (x.pow y))
  | .index => strict m left right (elementAt op location)
  | .indexOrNull => strict m left right (elementOrNull op location)
  | .nullableIndex => unlessNull m left right (elementAt op location)
  | .nullableIndexOrNull => unlessNull m left right (elementOrNull op location)
  | .invoke => strict m left right (invokeRegular m op location)
  | .nullableInvoke => unlessNull m left right (invokeRegular m op location)
  | .partialLeft => strict m left right (applyAhead op location .left)
  | .partialRight => strict m left right (applyAhead op location .right)

def unary (op : UnaryOp) (location : Option Location) (operand : Expr Nat) : Run Value := do
  match op, ← m.eval operand with
  | .negate, .number x => return .number (-x)
  | .not, .boolean b => return .boolean (!b)
  | _, v => fail (.operand op v) location

end Tale.Evaluation
