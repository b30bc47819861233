import Tale.Library.Call

/-!
# Calling functions

A call of a document's function opens a scope with the cells that the function captured, declares
the parameters in it and evaluates the body. What `return` left counts before the value of the
body.
-/

namespace Tale.Evaluation

variable (m : Machine)

/-- The value of a parameter: its argument, or its default value in place of null. -/
def parameterValue (p : Parameter Nat) (i : Nat) (arg : Value) : Run Value :=
  match arg, p.fallback with
  | .null, some e => m.eval e
  | .null, none => if p.bound.accepts .null then pure .null else throw (.refused (.omitted i))
  | v, _ => pure v

/-- Declares the parameters, of which the first has index `i`. A parameter stays of the type of its
first value. -/
def declareParameters (args : List Value) : (i : Nat) → List (Parameter Nat) → Run Unit
  | _, [] => pure ()
  | i, p :: ps => do
    let v ← parameterValue m p i (args.getD i .null)
    if !p.bound.accepts v.type then throw (.refused (.argument i (p.bound.getD []) v))
    modify (·.declare p.name (some [v.type]) v)
    declareParameters args (i + 1) ps

/-- Declares the parameter that takes all further arguments. -/
def declareRest (args : List Value) (code : FunctionExpr Nat) : Run Unit :=
  match code.restName with
  | some name =>
    modify (·.declare name (some [.list]) (.list (args.drop code.parameters.length)))
  | none => pure ()

/-- Evaluates a function in the scope of its call. -/
def body (code : FunctionExpr Nat) (args : List Value) : Run Value := do
  declareParameters m args 0 code.parameters
  declareRest args code
  m.eval code.body

def callClosure (code : FunctionExpr Nat) (captured : List (String × Address))
    (args : List Value) : Run Value := do
  let scope := captured.foldl (fun s (name, a) => s.declare name a) (.holding .return)
  let (result, scope) ← Run.inScope scope (body m code args)
  let returned := scope.held .return
  match result with
  | .ok v => return if returned.isNull then v else returned
  | .error (.signal (.leave .return)) => return returned
  | .error e => throw e

def callNative (f : Native) (args : List Value) : Run Value := do
  match ← (f.run m args).run with
  | .ok v => return v
  | .error r => throw (.refused (.native f r))

/-- Calls a function with its arguments given ahead around those of the call. -/
def call (f : Function) (args : List Value) : Run Value :=
  let (before, callee, after) := f.flatten
  let args := before ++ args ++ after
  match callee with
  | .closure code captured => callClosure m code captured args
  | .native n => callNative m n args

/-- A call made by an operator: a call that fails becomes a fault there, and a fault from within
passes it. -/
def invoke (op : BinaryOp) (location : Option Location) (f : Function) (args : List Value) :
    Run Value :=
  Run.adapt
    (fun
      | .refused e => .fault ⟨.call e, location, []⟩
      | .fault x => .fault (x.passing (.invocation op) location)
      | e => e)
    (m.call f args)

end Tale.Evaluation
