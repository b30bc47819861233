import Tale.Decimal.Layout
import Tale.Text.Listing
import Tale.Value

/-!
# Values in words

`describe` says what a value is, for messages; `display` is the text that contents show for it.
-/

namespace Tale

def commaSeparated (texts : List String) : String :=
  ", ".intercalate texts

def Side.name : Side → String
  | left => "left"
  | right => "right"

mutual

def Value.describe : Value → String
  | .number x => "number (value = " ++ Decimal.text x ++ ")"
  | .boolean b => "boolean (value = " ++ toString b ++ ")"
  | .string s => "string (value = " ++ Text.inQuotes s ++ ")"
  | .null => "null"
  | .list vs => "list (elements = [" ++ commaSeparated (describeValues vs) ++ "])"
  | .choice c => c.describe
  | .action a => a.describe
  | .function f => f.describe

def describeValues : List Value → List String
  | [] => []
  | v :: vs => v.describe :: describeValues vs

def Choice.describe : Choice → String
  | ⟨text, consequence⟩ =>
    "choice (action = " ++ describeConsequence consequence ++ ", label = " ++ Text.inQuotes text
      ++ ")"

def describeConsequence : Option Consequence → String
  | none => "null"
  | some (.act a) => a.describe
  | some (.call f _) => "action (type = function, fn = " ++ f.describe ++ ")"

def describeChoices : List Choice → List String
  | [] => []
  | c :: cs => c.describe :: describeChoices cs

def Action.describe : Action → String
  | .goto sections => "action (type = goto, target = " ++ ",".intercalate sections ++ ")"
  | .exit => "action (type = exit)"
  | .selection cs =>
    "action (type = selection, choices = [" ++ commaSeparated (describeChoices cs) ++ "])"

def Function.describe : Function → String
  | .closure code _ =>
    "function (arguments = [" ++ commaSeparated (code.parameters.map (·.name)) ++ "])"
  | .native n => "function (native " ++ n.name ++ ")"
  | .applied side vs target =>
    "function (partial " ++ side.name ++ ", applied = [" ++ commaSeparated (describeValues vs)
      ++ "], targetFn = " ++ target.describe ++ ")"

end

/-- A value as contents show it. -/
def Value.display : Value → String
  | .number x => Decimal.text x
  | .boolean b => toString b
  | .string s => s
  | v => v.describe

end Tale
