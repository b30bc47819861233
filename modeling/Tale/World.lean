import Tale.Fault
import Tale.Output.Node
import Tale.Random
import Tale.Value

/-!
# The world of a story

All that a story can change while it is told. Variables live in cells; a scope maps names to the
addresses of cells, so that a function and the block it was written in share their variables. A
scope may have a register, which holds the value of the block, function or loop it belongs to.

`Run` is a computation on the world. What it did to the world stays done if it stops.
-/

namespace Tale

structure Cell where
  bound : TypeBound
  value : Value

structure Scope where
  names : List (String × Address) := []
  register : Option (Register × Value) := none

namespace Scope

/-- A scope with a register that nothing has been put into. -/
def holding (r : Register) : Scope :=
  { register := some (r, .null) }

def address? (s : Scope) (name : String) : Option Address :=
  s.names.lookup name

/-- A name declared again means its newest cell. -/
def declare (s : Scope) (name : String) (a : Address) : Scope :=
  { s with names := (name, a) :: s.names }

/-- What the register of a kind holds. -/
def held (s : Scope) (r : Register) : Value :=
  match s.register with
  | some (r', v) => if r = r' then v else .null
  | none => .null

def hasRegister (s : Scope) (r : Register) : Bool :=
  s.register.any fun (r', _) => r = r'

end Scope

structure World where
  cells : Array Cell := #[]
  /-- Innermost first. -/
  scopes : List Scope := []
  random : Random
  /-- What has been put out since the last step. -/
  content : Array Node := #[]
  /-- The function whose output is shown beside the story. -/
  pinned : Option Function := none
  /-- How the story describes its state. -/
  stateText : Option String := none
  /-- The names of the timers that run. -/
  timers : List String := []
  canvases : List (String × Canvas) := []
  provider : Provider := {}

/-- Why a computation stops before it has a value. -/
inductive Stop
  | fault (fault : Fault)
  | signal (signal : Signal)
  /-- A call failed; the expression that made it knows where. -/
  | refused (error : CallError)
  /-- The computation took more steps than it was granted. -/
  | exhausted

abbrev Run := EStateM Stop World

namespace World

def address? (w : World) (name : String) : Option Address :=
  w.scopes.findSome? (·.address? name)

def read (w : World) (a : Address) : Value :=
  match w.cells[a]? with
  | some c => c.value
  | none => .null

def write (w : World) (a : Address) (v : Value) : World :=
  { w with cells := w.cells.modify a fun c => { c with value := v } }

/-- Adds a variable to the innermost scope. -/
def declare (w : World) (name : String) (bound : TypeBound) (v : Value) : World :=
  let a := w.cells.size
  { w with
    cells := w.cells.push ⟨bound, v⟩
    scopes :=
      match w.scopes with
      | [] => []
      | s :: ss => s.declare name a :: ss }

def emit (w : World) (n : Node) : World :=
  { w with content := w.content.push n }

/-- Puts a value into the innermost register of a kind. -/
def setRegister (r : Register) (v : Value) : List Scope → Option (List Scope)
  | [] => none
  | s :: ss =>
    if s.hasRegister r then some ({ s with register := some (r, v) } :: ss)
    else (setRegister r v ss).map (s :: ·)

/-- The world before a story begins: the functions of the library are declared, and the scope for
what the story declares is empty. -/
def initial (random : Random) (provider : Provider) : World :=
  let cell (f : Native) : Cell := ⟨some [.function], .function (.native f)⟩
  let library : Scope := { names := Native.all.zipIdx.map fun (f, a) => (f.name, a) }
  { cells := (Native.all.map cell).toArray, scopes := [{}, library], random, provider }

end World

namespace Run

def fail {α : Type} (cause : Fault.Cause) (location : Option Location) : Run α :=
  throw (.fault ⟨cause, location, []⟩)

/-- The cell that a name means. -/
def resolve (name : String) : Run Address := do
  match (← get).address? name with
  | some a => return a
  | none => fail (.unknownVariable name) none

def read (a : Address) : Run Value :=
  return (← get).read a

def setRegister (r : Register) (v : Value) : Run Unit := do
  match World.setRegister r v (← get).scopes with
  | some scopes => modify fun w => { w with scopes }
  | none => fail (.unknownRegister r) none

/-- Runs a computation in a scope of its own, which is taken off again whatever the outcome. -/
def inScope {α : Type} (scope : Scope) (body : Run α) : Run (Except Stop α × Scope) := fun w =>
  let leave (w : World) := { w with scopes := w.scopes.tail }
  match body { w with scopes := scope :: w.scopes } with
  | .ok a w => .ok (.ok a, w.scopes.headD {}) (leave w)
  | .error e w => .ok (.error e, w.scopes.headD {}) (leave w)

/-- Changes why a computation stops. -/
def adapt {α : Type} (f : Stop → Stop) (body : Run α) : Run α := fun w =>
  match body w with
  | .ok a w => .ok a w
  | .error e w => .error (f e) w

end Run

/-- How names are looked up, expressions evaluated and functions called by a computation that is
itself a step of an evaluation, and how often it may go round a loop. -/
structure Machine where
  turns : Nat
  resolve : String → Run Address
  eval : Expr Nat → Run Value
  call : Function → List Value → Run Value

end Tale
