import Tale.Player.Screen

/-!
# Drawing

A frame is as many rows as the terminal has: the header, what is pinned, as much of the text as
there is room for, the choices, and the keys. A line that is too long for its row is cut and ends in
an ellipsis; the text of the story is wrapped instead.

The player hands its lines (`frameLines`) to a terminal library, whose widget wraps them once more.
What that does to lines that fit is part of the library and not of the player. It is followed here
(`spread`, `draw`) so that whole frames can be run, and nothing is claimed of it.
-/

namespace Tale.Player.Screen

inductive Color
  | reset
  | gray
  | cyan
  | darkGray
  | green
  | yellow
  | magenta
  deriving DecidableEq, Repr

/-- A row of the terminal. -/
structure Row where
  text : String := ""
  color : Color := .reset
  crossedOut : Bool := false
  deriving DecidableEq, Repr

/-- A text cut to a width. -/
def fitted (width : Nat) (s : String) : String :=
  let cs := s.toList
  if cs.length ≤ width then s
  else if width = 0 then ""
  else String.ofList (cs.take (width - 1) ++ ['…'])

/-- Characters in pieces of a width, at most `pieces` of them. -/
def chunks (width : Nat) : (pieces : Nat) → List Char → List (List Char)
  | 0, _ => []
  | _, [] => []
  | n + 1, cs => cs.take width :: chunks width n (cs.drop width)

/-- A line as the rows it takes. An empty line takes one. -/
def wrapped (width : Nat) (line : String) : List String :=
  let cs := line.toList
  if width = 0 || cs.isEmpty then [""] else (chunks width cs.length cs).map String.ofList

/-- The width of a row's text in a terminal. -/
def contentWidth (width : Nat) : Nat :=
  max (width - 2) 16

/-- The text so far, with as much of the line being typed as is typed. -/
def textSoFar (s : Screen) : List String :=
  s.shown ++ (s.typing.toList.map fun line => String.ofList (line.toList.take s.typed))

/-- Whether choices are seen. -/
def showsChoices (s : Screen) : Bool :=
  !s.isTyping && !s.choices.isEmpty

/-- The rows that are taken by anything but text. -/
def reserved (s : Screen) : Nat :=
  3 + 1 + choiceRows + 1 + 1 + s.pinned.length + s.ended.toNat + s.helpVisible.toNat

/-- The last rows of the text, as many as there is room for. -/
def textRows (s : Screen) (width height : Nat) : List Row :=
  let rows := s.textSoFar.flatMap (wrapped (contentWidth width))
  (rows.drop (rows.length - max (height - s.reserved) 1)).map fun text => { text }

/-- The row of the choice at a position, or an empty one. -/
def choiceRow (s : Screen) (width position : Nat) : Row :=
  match s.choices[position]? with
  | some item =>
    if s.showsChoices then
      let mark := if position = s.selected then "> " else "  "
      let text := mark ++ fitted (max (contentWidth width - 2) 8) item.text
      if item.disabled then ⟨text, .darkGray, true⟩
      else if position = s.selected then ⟨text, .green, false⟩
      else { text }
    else { text := "   " }
  | none => { text := "   " }

/-- Which of the choices are seen, where not all of them are. -/
def windowText (s : Screen) : String :=
  if s.showsChoices && choiceRows < s.choices.length then
    "window " ++ Text.decimal (s.scroll + 1) ++ "-"
      ++ Text.decimal (min (s.scroll + choiceRows) s.choices.length) ++ " / "
      ++ Text.decimal s.choices.length
  else " "

def keyText : String :=
  "keys: up/down move | enter choose/skip | s save | l load | u undo | r restart | h help | q quit"

def helpText : String :=
  "saves keep the seed and every choice; loading replays them from the start."

/-- The lines of a frame. -/
def frameLines (s : Screen) (title stateFile : String) (width height : Nat) : List Row :=
  let fit := fitted (contentWidth width)
  let header := match s.stateText with
    | some text => title ++ " | " ++ text
    | none => title
  [{ text := fit header }, ⟨fit ("state: " ++ stateFile), .gray, false⟩,
      ⟨fit ("status: " ++ s.status), .gray, false⟩]
    ++ s.pinned.map (fun line => ⟨fit line, .cyan, false⟩)
    ++ s.textRows width height
    ++ [⟨String.ofList (List.replicate (contentWidth width) '─'), .gray, false⟩]
    ++ (List.range choiceRows).map (fun i => s.choiceRow width (s.scroll + i))
    ++ [⟨fit s.windowText, .gray, false⟩]
    ++ (if s.ended then [⟨"[end]", .green, false⟩] else [])
    ++ [⟨fit keyText, .yellow, false⟩]
    ++ (if s.helpVisible then [⟨fit helpText, .magenta, false⟩] else [])

/-- The rows that the wrapping of the terminal library makes of a line. A line feed takes no room. A
line of nothing but spaces leaves an empty row before it. -/
def spread (r : Row) : List Row :=
  let cs := r.text.toList.filter (· ≠ '\n')
  let r := { r with text := String.ofList cs }
  if !cs.isEmpty && cs.all (· == ' ') then [{}, r] else [r]

/-- The rows of a frame as the terminal library shows them, from the top of the terminal to its
bottom. -/
def draw (s : Screen) (title stateFile : String) (width height : Nat) : List Row :=
  let rows := (s.frameLines title stateFile width height).flatMap spread
  (rows ++ List.replicate height ({} : Row)).take height

end Tale.Player.Screen
