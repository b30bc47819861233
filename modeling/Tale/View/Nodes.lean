import Tale.Output.Node
import Tale.Text.Numeral
import Tale.View.Lines

/-!
# Output as lines

Of a canvas only its name and size are shown.
-/

namespace Tale.View

def nodeLines : Node → List String
  | .html text => htmlLines text
  | .canvas c =>
    ["[canvas " ++ c.id ++ " " ++ Text.decimal c.width ++ "x" ++ Text.decimal c.height ++ "]"]

def lines (nodes : List Node) : List String :=
  nodes.flatMap nodeLines

end Tale.View
