import Tale.Json.Basic
import Tale.Output.Canvas

/-!
# What the reader sees

A story puts out pieces of HTML and canvases, and at the end of a step the choices to go on with.
-/

namespace Tale

/-- A piece of output. -/
inductive Node
  | html (html : String)
  | canvas (snapshot : Snapshot)
  deriving Inhabited

/-- A choice as it is shown. -/
structure Offer where
  text : String
  disabled : Bool
  deriving DecidableEq, Repr, Inhabited

/-- What one step puts out. -/
structure Output where
  content : List Node
  offers : List Offer
  deriving Inhabited

open Json

def sizeJson (size : Option (Float × Float)) : Json :=
  option (fun (w, h) => .arr [.number w, .number h]) size

def DrawCommand.toJson : DrawCommand → Json
  | .clear => .obj [("op", .str "clear")]
  | .putImage source x y size =>
    .obj [("op", .str "putImage"), ("source", .str source), ("x", .number x), ("y", .number y),
      ("size", sizeJson size)]
  | .putImagePart source part x y size =>
    .obj [("op", .str "putImagePart"), ("source", .str source),
      ("sourceRect",
        .arr [.number part.x, .number part.y, .number part.width, .number part.height]),
      ("destX", .number x), ("destY", .number y), ("destSize", sizeJson size)]
  | .setFont size font => .obj [("op", .str "setFont"), ("size", .number size), ("font", .str font)]
  | .setFillStyle color => .obj [("op", .str "setFillStyle"), ("color", .str color)]
  | .fillText text x y hAlign vAlign =>
    .obj [("op", .str "fillText"), ("text", .str text), ("x", .number x), ("y", .number y),
      ("hAlign", .str hAlign), ("vAlign", .str vAlign)]
  | .fillRect area =>
    .obj [("op", .str "fillRect"), ("x", .number area.x), ("y", .number area.y),
      ("width", .number area.width), ("height", .number area.height)]
  | .setStrokeStyle color => .obj [("op", .str "setStrokeStyle"), ("color", .str color)]
  | .setLineWidth width => .obj [("op", .str "setLineWidth"), ("width", .number width)]
  | .strokeText text x y hAlign vAlign =>
    .obj [("op", .str "strokeText"), ("text", .str text), ("x", .number x), ("y", .number y),
      ("hAlign", .str hAlign), ("vAlign", .str vAlign)]

def Snapshot.toJson (s : Snapshot) : Json :=
  .obj [("id", .str s.id), ("width", .nat s.width), ("height", .nat s.height),
    ("loading", .arr (s.loading.map DrawCommand.toJson)),
    ("commands", .arr (s.commands.map DrawCommand.toJson))]

def Node.toJson : Node → Json
  | .html text => .obj [("kind", .str "html"), ("value", .str text)]
  | .canvas shot => .obj [("kind", .str "canvas"), ("value", shot.toJson)]

def Offer.toJson (o : Offer) : Json :=
  .obj [("content", .str o.text), ("disabled", .bool o.disabled)]

end Tale
