/-!
# Canvases

A canvas queues what is drawn on it. When it is shown, the queued commands are resolved in order:
images and fonts are looked up with a provider, and a command whose image or font is not to be had
is dropped; clearing discards all that was drawn before.
-/

namespace Tale

structure Rectangle where
  x : Float
  y : Float
  width : Float
  height : Float

inductive DrawCommand
  | clear
  | putImage (source : String) (x y : Float) (size : Option (Float × Float))
  | putImagePart (source : String) (part : Rectangle) (x y : Float) (size : Option (Float × Float))
  | setFont (size : Float) (font : String)
  | setFillStyle (color : String)
  | fillText (text : String) (x y : Float) (hAlign vAlign : String)
  | fillRect (area : Rectangle)
  | setStrokeStyle (color : String)
  | setLineWidth (width : Float)
  | strokeText (text : String) (x y : Float) (hAlign vAlign : String)
  deriving Inhabited

/-- Where images and fonts come from, and what is drawn while they load. -/
structure Provider where
  /-- The image that a path stands for. -/
  image? : String → Option String := fun _ => none
  /-- The font family that a name stands for. -/
  font? : String → Option String := fun _ => none
  loading : (width height : Nat) → List DrawCommand := fun _ _ => []

instance : Inhabited Provider := ⟨{}⟩

/-- A command with its image or font looked up. -/
def DrawCommand.resolve? (p : Provider) : DrawCommand → Option DrawCommand
  | .putImage source x y size => (p.image? source).map (.putImage · x y size)
  | .putImagePart source part x y size => (p.image? source).map (.putImagePart · part x y size)
  | .setFont size font => (p.font? font).map (.setFont size)
  | c => some c

structure Canvas where
  width : Nat
  height : Nat
  /-- Commands not yet resolved. -/
  pending : Array DrawCommand := #[]
  /-- Commands resolved since the canvas was last cleared. -/
  drawn : Array DrawCommand := #[]
  deriving Inhabited

/-- A canvas as it was when it was shown. -/
structure Snapshot where
  id : String
  width : Nat
  height : Nat
  loading : List DrawCommand
  commands : List DrawCommand
  deriving Inhabited

namespace Canvas

def queue (c : Canvas) (command : DrawCommand) : Canvas :=
  { c with pending := c.pending.push command }

/-- Draws one command after those already drawn. -/
def draw (p : Provider) (drawn : Array DrawCommand) (command : DrawCommand) : Array DrawCommand :=
  match command.resolve? p with
  | none => drawn
  | some .clear => #[]
  | some c => drawn.push c

/-- The canvas with nothing left to resolve. -/
def settle (p : Provider) (c : Canvas) : Canvas :=
  { c with pending := #[], drawn := c.pending.foldl (draw p) c.drawn }

/-- What a settled canvas shows. -/
def snapshot (p : Provider) (id : String) (c : Canvas) : Snapshot :=
  { id, width := c.width, height := c.height, loading := p.loading c.width c.height
    commands := c.drawn.toList }

end Canvas

end Tale
