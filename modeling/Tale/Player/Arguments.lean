import Tale.Text.Numeral

/-!
# The command line

`agent start` and `agent choose` take one step each, for a reader that is a program; `play` goes on
until its reader stops. Options stand in any order, as `--name value` or `--name=value`, none of
them twice.

Arguments are read from left to right. The first that is wrong decides, and so does a request for
help before it.
-/

namespace Tale.Player

inductive Command
  | start (source : String) (entry : Option String) (stateOut : String) (seed : Option String)
  | choose (stateIn : String) (choice : Nat) (stateOut : String)
  | play (source : String) (entry : Option String) (stateFile : String) (seed : Option String)
    (rich : Bool)
  deriving DecidableEq, Repr

/-- Why there is no command. -/
inductive Refusal
  | helpWanted
  | misused
  deriving DecidableEq, Repr

/-- The status that the program ends with. -/
def Refusal.exit : Refusal → Nat
  | helpWanted => 0
  | misused => 2

namespace Arguments

/-- The options that a command knows. -/
structure Known where
  /-- Those with a value, and whether they take a given one. -/
  valued : List (String × (String → Bool))
  /-- Those without. -/
  flags : List String := []

/-- The options given, with their values; a flag has none. -/
abbrev Given := List (String × Option String)

def Given.value? (g : Given) (name : String) : Option String :=
  (g.lookup name).join

def Given.has (g : Given) (name : String) : Bool :=
  (g.lookup name).isSome

def add (g : Given) (name : String) (value : Option String) : Except Refusal Given :=
  if g.has name then .error .misused else .ok ((name, value) :: g)

/-- The name of a long option, and what follows its first equals sign. -/
def long? (argument : String) : Option (String × Option String) :=
  (Text.after? ['-', '-'] argument.toList).map fun rest =>
    let name := rest.takeWhile (· ≠ '=')
    (String.ofList name,
      match rest.drop name.length with
      | [] => none
      | _ :: value => some (String.ofList value))

/-- Whether an argument cannot be the value of the option before it. -/
def isHyphenated (argument : String) : Bool :=
  argument.toList.head? == some '-' && argument ≠ "-"

def isShortHelp (argument : String) : Bool :=
  ['-', 'h'].isPrefixOf argument.toList

/-- Whether an argument asks for help. -/
def asksForHelp (argument : String) : Bool :=
  argument = "--help" || isShortHelp argument

/-- Reads the options of a command. Two hyphens alone may end them. -/
def options (known : Known) (g : Given) : List String → Except Refusal Given
  | [] => .ok g
  | argument :: rest =>
    if argument = "--" then if rest.isEmpty then .ok g else .error .misused
    else if asksForHelp argument then .error .helpWanted
    else
      match long? argument with
      | none => .error .misused
      | some (name, attached) =>
        match known.valued.lookup name, attached, rest with
        | some takes, some value, rest => do
          if takes value then options known (← add g name (some value)) rest
          else throw .misused
        | some takes, none, value :: rest => do
          if !isHyphenated value && takes value then
            options known (← add g name (some value)) rest
          else throw .misused
        | some _, none, [] => .error .misused
        | none, none, rest => do
          if known.flags.contains name then options known (← add g name none) rest
          else throw .misused
        | none, some _, _ => .error .misused

def anyText (_ : String) : Bool := true

def number? (s : String) : Option Nat :=
  Text.numeral? Text.word64 s.toList

/-- An option that has to be there. -/
def required (g : Given) (name : String) : Except Refusal String :=
  (g.value? name).elim (.error .misused) .ok

def start (arguments : List String) : Except Refusal Command := do
  let texts := ["source", "entry", "state-out", "seed"]
  let g ← options ⟨texts.map (·, anyText), []⟩ [] arguments
  return .start (← required g "source") (g.value? "entry") (← required g "state-out")
    (g.value? "seed")

def choose (arguments : List String) : Except Refusal Command := do
  let known := [("state-in", anyText), ("choice", fun s => (number? s).isSome),
    ("state-out", anyText)]
  let g ← options ⟨known, []⟩ [] arguments
  let stateIn ← required g "state-in"
  let choice ← required g "choice"
  return .choose stateIn ((number? choice).getD 0) (← required g "state-out")

/-- Where a session is saved unless the command says otherwise. -/
def defaultStateFile : String := ".wtcd/save.json"

def play (arguments : List String) : Except Refusal Command := do
  let texts := ["source", "entry", "state-file", "seed"]
  let g ← options ⟨texts.map (·, anyText), ["rich"]⟩ [] arguments
  return .play (← required g "source") (g.value? "entry")
    ((g.value? "state-file").getD defaultStateFile) (g.value? "seed") (g.has "rich")

/-- Help on commands that there are. -/
def helpOn : List String → Refusal
  | [] | ["agent"] | ["play"] | ["help"] => .helpWanted
  | ["agent", name] => if ["start", "choose", "help"].contains name then .helpWanted else .misused
  | _ => .misused

def agent : List String → Except Refusal Command
  | [] => .error .misused
  | "start" :: rest => start rest
  | "choose" :: rest => choose rest
  | "help" :: rest => .error (helpOn ("agent" :: rest))
  | argument :: _ => .error (if asksForHelp argument then .helpWanted else .misused)

/-- The command that arguments give. -/
def parse : List String → Except Refusal Command
  | [] => .error .misused
  | "agent" :: rest => agent rest
  | "play" :: rest => play rest
  | "help" :: rest => .error (helpOn rest)
  | argument :: _ => .error (if asksForHelp argument then .helpWanted else .misused)

end Arguments

end Tale.Player
