import Tale.Evaluation.Operator

/-!
# Expressions and statements

One step of the evaluation of an expression; the machine evaluates what it is made of.
-/

namespace Tale.Evaluation

open Run (fail)

variable (m : Machine)

/-! ## Statements -/

/-- What a variable holds that is declared without a value. -/
def initialValue (bound : TypeBound) (location : Option Location) : Run Value :=
  match bound with
  | none => pure .null
  | some [.boolean] => pure (.boolean false)
  | some [.number] => pure (.number 0)
  | some [.string] => pure (.string "")
  | some [.list] => pure (.list [])
  | some [_] => fail (.noInitialValue bound) location
  | some types => if types.contains .null then pure .null else fail (.noInitialValue bound) location

def declare (location : Option Location) (d : Declaration Nat) : Run Unit := do
  let v ←
    match d.initial with
    | some e => m.eval e
    | none => initialValue d.bound location
  if !d.bound.accepts v.type then fail (.declared d.name (d.bound.getD []) v) location
  modify (·.declare d.name d.bound v)

def declareAll (location : Option Location) : List (Declaration Nat) → Run Unit
  | [] => pure ()
  | d :: ds => do
    declare m location d
    declareAll location ds

def statement (s : Statement Nat) : Run Unit :=
  match s.shape with
  | .declare ds => declareAll m s.location ds
  | .expression e => do
    let _ ← m.eval e
  | .leave r e => do
    Run.setRegister r (← m.eval e)
    throw (.signal (.leave r))
  | .set r e => do
    Run.setRegister r (← m.eval e)
  | .continue => throw (.signal .continue)

def statements : List (Statement Nat) → Run Unit
  | [] => pure ()
  | s :: ss => do
    statement m s
    statements ss

/-- The value that was left in the scope's register, unless something else than leaving it made
the computation stop. -/
def leaving (r : Register) (body : Run Unit) : Run Value := do
  let (result, scope) ← Run.inScope (.holding r) body
  match result with
  | .ok () => return scope.held r
  | .error (.signal (.leave r')) =>
    if r' = r then return scope.held r else throw (.signal (.leave r'))
  | .error e => throw e

/-! ## Expressions -/

/-- Evaluates a condition and goes one way or the other. -/
def branch (condition : Expr Nat) (otherwise : Value → Run Value) (yes no : Run Value) :
    Run Value := do
  match ← m.eval condition with
  | .boolean true => yes
  | .boolean false => no
  | v => otherwise v

/-- The choices in a list; null is no choice and does not count. -/
def choicesOf (location : Option Location) : (taken : Nat) → List Value → Run (List Choice)
  | _, [] => pure []
  | n, .null :: vs => choicesOf location n vs
  | n, .choice c :: vs => do
    return c :: (← choicesOf location (n + 1) vs)
  | n, v :: _ => fail (.selectionMember n v) location

def selection (location : Option Location) (choices : Expr Nat) : Run Value := do
  match ← m.eval choices with
  | .list vs => return .action (.selection (← choicesOf location 0 vs))
  | v => fail (.selection v) location

def choice (location : Option Location) (text action : Expr Nat) : Run Value := do
  match ← m.eval text with
  | .string text =>
    match ← m.eval action with
    | .function f => return .choice ⟨text, some (.call f location)⟩
    | .action a => return .choice ⟨text, some (.act a)⟩
    | .null => return .choice ⟨text, none⟩
    | v => fail (.choiceAction v) location
  | v => fail (.choiceText v) location

/-- The cells that names mean. -/
def capture : List String → Run (List (String × Address))
  | [] => pure []
  | name :: names => do
    let a ← m.resolve name
    return (name, a) :: (← capture names)

def elements : List (Element Nat) → Run (List Value)
  | [] => pure []
  | .item e :: es => do
    let v ← m.eval e
    return v :: (← elements es)
  | .spread e location :: es => do
    match ← m.eval e with
    | .list vs => return vs ++ (← elements es)
    | v => fail (.spread v) location

/-- The result of the first case whose pattern holds the subject. -/
def cases (location : Option Location) (subject : Value) (fallback : Option (Expr Nat)) :
    List (SwitchCase Nat) → Run Value
  | [] =>
    match fallback with
    | some e => m.eval e
    | none => fail .noCase location
  | c :: cs => do
    match ← m.eval c.pattern with
    | .list vs =>
      if vs.any (·.same subject) then m.eval c.result else cases location subject fallback cs
    | v => fail (.switchPattern v) c.pattern.location

/-! ### Loops -/

/-- Evaluates a part of a loop; says whether `continue` cut it short. -/
def partOfLoop (part : Option (Expr Nat)) : Run Bool :=
  match part with
  | none => pure false
  | some e => fun w =>
    match m.eval e w with
    | .ok _ w => .ok false w
    | .error (.signal .continue) w => .ok true w
    | .error e w => .error e w

/-- Goes round a loop, at most `turns` times: what comes before the condition, the condition, and
what comes after it. After a `continue` in the last part the first one is passed over. -/
def rounds (location : Option Location) (before : Option (Expr Nat)) (condition : Expr Nat)
    (after : Option (Expr Nat)) : (turns : Nat) → (continued : Bool) → Run Unit
  | 0, _ => throw .exhausted
  | n + 1, continued => do
    if !continued then
      let _ ← partOfLoop m before
    match ← m.eval condition with
    | .boolean true =>
      let continued ← partOfLoop m after
      rounds location before condition after n continued
    | .boolean false => pure ()
    | v => fail (.loopCondition v) location

/-- One step of the evaluation of an expression. -/
def expression (e : Expr Nat) : Run Value :=
  match e.shape with
  | .number x => pure (.number x)
  | .boolean b => pure (.boolean b)
  | .string s => pure (.string s)
  | .null => pure .null
  | .binary op l r => binary m op e.location l r
  | .unary op operand => unary m op e.location operand
  | .conditional c y n =>
    branch m c (fun v => fail (.conditional v) e.location) (m.eval y) (m.eval n)
  | .goto sections => pure (.action (.goto sections))
  | .exit => pure (.action .exit)
  | .selection choices => selection m e.location choices
  | .choice text action => choice m e.location text action
  | .block ss => leaving .yield (statements m ss)
  | .reference name => do Run.read (← m.resolve name)
  | .function f => return .function (.closure f (← capture m f.captures))
  | .list es => return .list (← elements m es)
  | .switch subject cs fallback => do
    let v ← m.eval subject
    cases m e.location v fallback cs
  | .loop before condition after =>
    leaving .break (rounds m e.location before condition after m.turns false)
  | .cond c y n =>
    branch m c (fun v => fail (.condition v) e.location) (m.eval y)
      (match n with
        | some n => m.eval n
        | none => pure .null)
  | .tag name => pure (.list [.string name])

end Tale.Evaluation
