import Tale.Decimal.Whole
import Tale.Library.Answer

/-!
# Functions that draw

Canvases have names. Drawing only queues commands; what they amount to is settled when the canvas
is put out.
-/

namespace Tale.Library.Drawing

open Arguments

/-- All canvases of a story, by their names. -/
abbrev Canvases := List (String × Canvas)

/-- The canvases with another one of a name that is taken. -/
def replace (cs : Canvases) (id : String) (c : Canvas) : Canvases :=
  cs.map fun (id', c') => (id', if id' = id then c else c')

def provider : Run Provider :=
  return (← get).provider

/-- The canvas of a name. -/
def canvas (id : String) : ExceptT Refusal Run Canvas := do
  match (← get).canvases.lookup id with
  | some c => return c
  | none => throw (.canvasUnknown id)

theorem canvas_run (id : String) (w : World) : canvas id w = match w.canvases.lookup id with
    | some c => .ok (.ok c) w
    | none => .ok (.error (.canvasUnknown id)) w := by
  change (match w.canvases.lookup id with
    | some c => pure c
    | none => throw (.canvasUnknown id) : ExceptT Refusal Run Canvas) w = _
  cases w.canvases.lookup id <;> rfl

/-- Whether a name is taken. -/
def canvasExists (id : String) : Run Bool :=
  return ((← get).canvases.lookup id).isSome

def addCanvas (id : String) (c : Canvas) : Run Unit :=
  modify fun w => { w with canvases := (id, c) :: w.canvases }

def putCanvas (id : String) (c : Canvas) : Run Unit :=
  modify fun w => { w with canvases := replace w.canvases id c }

/-- Puts a canvas out as it is now. What waits on it is drawn on this occasion. -/
def putOut (p : Provider) (id : String) (c : Canvas) : Run Unit := do
  putCanvas id (c.settle p)
  Run.emit (.canvas ((c.settle p).snapshot p id))

/-- Sizes are stored in words of 32 bits. -/
def largestSize : Nat := Nat.pow 2 32 - 1

def size (d : Dimension) (x : Float) : Except Refusal Nat :=
  match Decimal.whole? x with
  | none => .error (.dimensionNotWhole d x)
  | some n => if n ≤ 0 then .error (.dimensionNotPositive d x) else .ok (min n.toNat largestSize)

def create (args : List Value) : Answer := do
  count args 3 (some 3)
  let id ← string args 0
  let width ← number args 1
  let height ← number args 2
  if ← canvasExists id then throw (.canvasExists id)
  let width ← size .width width
  let height ← size .height height
  addCanvas id { width, height }
  return .null

def output (args : List Value) : Answer := do
  let id ← string args 0
  let p ← provider
  putOut p id (← canvas id)
  return .null

/-- Queues a command on a canvas. -/
def queue (id : String) (command : DrawCommand) : Answer := do
  let c ← canvas id
  putCanvas id (c.queue command)
  return .null

/-- A width and a height may be given together; a negative one is not given. -/
def optionalSize (refusal : Refusal) (width height : Float) :
    Except Refusal (Option (Float × Float)) := do
  if decide (width < 0) != decide (height < 0) then throw refusal
  return if width >= 0 then some (width, height) else none

def hAligns : List String := ["left", "center", "right", "start", "end"]

def vAligns : List String := ["top", "hanging", "middle", "alphabetic", "ideographic", "bottom"]

def alignment (args : List Value) : Except Refusal (String × String) := do
  let hAlign ← string args 4 (some "start")
  let vAlign ← string args 5 (some "alphabetic")
  if !hAligns.contains hAlign then throw (.hAlign hAlign)
  if !vAligns.contains vAlign then throw (.vAlign vAlign)
  return (hAlign, vAlign)

/-- Draws a text. The canvas has to exist before the alignment is read. -/
def text (draw : String → Float → Float → String → String → DrawCommand) (args : List Value) :
    Answer := do
  count args 4 (some 6)
  let id ← string args 0
  let text ← string args 1
  let x ← number args 2
  let y ← number args 3
  let _ ← canvas id
  let (hAlign, vAlign) ← alignment args
  queue id (draw text x y hAlign vAlign)

def putImage (args : List Value) : Answer := do
  count args 4 (some 6)
  let id ← string args 0
  let source ← string args 1
  let x ← number args 2
  let y ← number args 3
  let width ← number args 4 (some (-1))
  let height ← number args 5 (some (-1))
  let size ← optionalSize .sizeIncomplete width height
  queue id (.putImage source x y size)

/-- A part of an image; it keeps its size unless another one is given. -/
def putImagePart (args : List Value) : Answer := do
  count args 8 (some 10)
  let id ← string args 0
  let source ← string args 1
  let part : Rectangle :=
    ⟨← number args 2, ← number args 3, ← number args 4, ← number args 5⟩
  let x ← number args 6
  let y ← number args 7
  let width ← number args 8 (some (-1))
  let height ← number args 9 (some (-1))
  let size ← optionalSize .destinationIncomplete width height
  queue id (.putImagePart source part x y (size <|> some (part.width, part.height)))

def setFont (args : List Value) : Answer := do
  count args 3 (some 3)
  let id ← string args 0
  let size ← number args 1
  let font ← string args 2
  queue id (.setFont size font)

/-- A command whose only argument is a color. -/
def style (draw : String → DrawCommand) (args : List Value) : Answer := do
  count args 2 (some 2)
  let id ← string args 0
  let color ← string args 1
  queue id (draw color)

def fillRect (args : List Value) : Answer := do
  count args 5 (some 5)
  let id ← string args 0
  let area : Rectangle :=
    ⟨← number args 1, ← number args 2, ← number args 3, ← number args 4⟩
  queue id (.fillRect area)

def setLineWidth (args : List Value) : Answer := do
  count args 2 (some 2)
  let id ← string args 0
  let width ← number args 1
  queue id (.setLineWidth width)

def clear (args : List Value) : Answer := do
  let id ← string args 0
  queue id .clear

end Tale.Library.Drawing
