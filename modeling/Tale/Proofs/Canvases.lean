import Mathlib.Data.List.DropRight
import Tale.Proofs.Effects

/-!
# What canvases show

Commands wait on a canvas until it is put out, and what has been drawn stays on it. What it would
show if it were put out (`Canvas.ink`) is changed by the command that comes to it and not by being
put out. So it makes no difference when a canvas is put out: each time it shows what it would show
if all the commands so far were queued on a blank canvas (`snapshots_batch`).
-/

namespace Tale

/-- Whether a command discards what was drawn. -/
def DrawCommand.isClear : DrawCommand → Bool
  | .clear => true
  | _ => false

namespace Canvas

variable {p : Provider}

/-! ## Drawing -/

theorem draw_clear (drawn : Array DrawCommand) : draw p drawn .clear = #[] :=
  rfl

/-- A command whose image or font cannot be had leaves everything as it was. -/
theorem draw_none {command : DrawCommand} (h : command.resolve? p = none)
    (drawn : Array DrawCommand) : draw p drawn command = drawn := by
  rw [draw, h]

theorem draw_some {command resolved : DrawCommand} (hc : command.isClear = false)
    (h : command.resolve? p = some resolved) (drawn : Array DrawCommand) :
    draw p drawn command = drawn.push resolved := by
  rw [draw, h]
  cases command with
  | clear => cases hc
  | putImage | putImagePart | setFont =>
    obtain ⟨x, -, rfl⟩ := Option.map_eq_some_iff.mp h
    rfl
  | _ =>
    cases h
    rfl

/-- Commands that are drawn one after the other show what has been resolved since the last of them
that clears. -/
theorem foldl_draw (commands : List DrawCommand) : (commands.foldl (draw p) #[]).toList
    = (commands.rtakeWhile (!·.isClear)).filterMap (·.resolve? p) := by
  induction commands using List.reverseRecOn with
  | nil => rfl
  | append_singleton commands command ih =>
    rw [List.foldl_append, List.foldl_cons, List.foldl_nil]
    cases hc : command.isClear with
    | true =>
      cases command <;> cases hc
      rw [List.rtakeWhile_concat_neg _ _ _ (by decide), draw_clear]
      rfl
    | false =>
      rw [List.rtakeWhile_concat_pos _ _ _ (by rw [hc]; rfl), List.filterMap_append, ← ih]
      cases hr : command.resolve? p with
      | none => simp [draw_none hr, hr]
      | some resolved => simp [draw_some hc hr, hr]

/-- What the canvas would show now. -/
def ink (p : Provider) (c : Canvas) : Array DrawCommand :=
  c.pending.foldl (draw p) c.drawn

theorem ink_queue (c : Canvas) (command : DrawCommand) :
    (c.queue command).ink p = draw p (c.ink p) command :=
  Array.foldl_push ..

/-! ## Being put out -/

/-- What happens to a canvas: a command is queued, or it is put out under a name. -/
inductive Event
  | queue (command : DrawCommand)
  | putOut (id : String)

/-- Whether an event has all it needs: a command that is queued can be resolved. -/
def Event.loads (p : Provider) : Event → Bool
  | .queue command => (command.resolve? p).isSome
  | .putOut _ => true

/-- The canvas as it is shown each time it is put out. -/
def snapshots (p : Provider) : Canvas → List Event → List Snapshot
  | _, [] => []
  | c, .queue command :: events => snapshots p (c.queue command) events
  | c, .putOut id :: events => (c.settle p).snapshot p id :: snapshots p (c.settle p) events

/-- The names under which a canvas is put out, each with all the commands queued until then. -/
def history (before : List DrawCommand) : List Event → List (String × List DrawCommand)
  | [] => []
  | .queue command :: events => history (before ++ [command]) events
  | .putOut id :: events => (id, before) :: history before events

/-- A canvas that is blank until commands are queued on it, put out once. -/
def batch (p : Provider) (width height : Nat) : String × List DrawCommand → Snapshot
  | (id, commands) => ((commands.foldl queue { width, height }).settle p).snapshot p id

theorem snapshot_settle (c : Canvas) (id : String) : (c.settle p).snapshot p id
    = ⟨id, c.width, c.height, p.loading c.width c.height, (c.ink p).toList⟩ :=
  rfl

theorem foldl_queue (commands : List DrawCommand) (c : Canvas) :
    (commands.foldl queue c).width = c.width ∧ (commands.foldl queue c).height = c.height
      ∧ (commands.foldl queue c).ink p = commands.foldl (draw p) (c.ink p) := by
  induction commands generalizing c with
  | nil => exact ⟨rfl, rfl, rfl⟩
  | cons command commands ih =>
    rw [List.foldl_cons, List.foldl_cons, ← ink_queue]
    exact ih (c.queue command)

theorem batch_eq (p : Provider) (width height : Nat) (id : String) (commands : List DrawCommand) :
    batch p width height (id, commands) = ⟨id, width, height, p.loading width height,
      (commands.foldl (draw p) #[]).toList⟩ := by
  obtain ⟨hw, hh, hi⟩ := foldl_queue (p := p) commands { width, height }
  rw [batch, snapshot_settle, hw, hh, hi]
  rfl

/-- A canvas is shown as a blank one would be with all that has come to it. -/
theorem snapshots_eq {width height : Nat} (events : List Event) {c : Canvas}
    {before : List DrawCommand} (hw : c.width = width) (hh : c.height = height)
    (hi : c.ink p = before.foldl (draw p) #[]) :
    snapshots p c events = (history before events).map (batch p width height) := by
  induction events generalizing c before with
  | nil => rfl
  | cons event events ih =>
    cases event with
    | queue command =>
      refine ih hw hh ?_
      rw [ink_queue, hi, List.foldl_append, List.foldl_cons, List.foldl_nil]
    | putOut id =>
      rw [snapshots, history, List.map_cons, batch_eq, snapshot_settle, hw, hh, hi]
      exact congrArg _ (ih hw hh hi)

/-- Canvases of one size that show the same now go on showing the same, also if commands that cannot
be resolved come to one of them only. -/
theorem snapshots_filter (events : List Event) {c c' : Canvas} (hw : c.width = c'.width)
    (hh : c.height = c'.height) (hi : c.ink p = c'.ink p) :
    snapshots p c (events.filter (·.loads p)) = snapshots p c' events := by
  induction events generalizing c c' with
  | nil => rfl
  | cons event events ih =>
    cases event with
    | queue command =>
      cases hr : command.resolve? p with
      | none =>
        rw [List.filter_cons_of_neg (by simp [Event.loads, hr])]
        refine ih hw hh ?_
        rw [ink_queue, draw_none hr, hi]
      | some resolved =>
        rw [List.filter_cons_of_pos (by simp [Event.loads, hr])]
        refine ih hw hh ?_
        rw [ink_queue, ink_queue, hi]
    | putOut id =>
      rw [List.filter_cons_of_pos rfl, snapshots, snapshots, snapshot_settle, snapshot_settle, hw,
        hh, hi]
      exact congrArg _ (ih hw hh hi)

end Canvas

/-! ## Canvases by their names -/

namespace Library.Drawing

open Canvas

variable {p : Provider} {cs : Canvases} {c : Canvas} {id id' : String} {w w' : World}

theorem lookup_replace (cs : Canvases) (id id' : String) (c : Canvas) : (replace cs id c).lookup id'
    = if id' = id then (cs.lookup id').map fun _ => c else cs.lookup id' := by
  induction cs with
  | nil => simp [replace]
  | cons entry cs ih =>
    obtain ⟨name, c'⟩ := entry
    rw [replace, List.map_cons, List.lookup_cons, List.lookup_cons]
    by_cases hname : id' = name
    · subst hname
      split_ifs with h <;> simp [h]
    · have hne : (id' == name) = false := beq_eq_false_iff_ne.mpr hname
      simp only [hne]
      exact ih

theorem lookup_replace_self (h : cs.lookup id = some c) (c' : Canvas) :
    (replace cs id c').lookup id = some c' := by
  rw [lookup_replace, if_pos rfl, h]
  rfl

theorem lookup_replace_ne (h : id' ≠ id) : (replace cs id c).lookup id' = cs.lookup id' := by
  rw [lookup_replace, if_neg h]

/-! ## Requests -/

/-- What a story asks of its canvases. A command comes with the name of its canvas, or is refused
with its arguments. -/
inductive Request
  | create (args : List Value)
  | draw (command : Except Refusal (String × DrawCommand))
  | putOut (id : String)

def Request.answer : Request → Answer
  | .create args => Drawing.create args
  | .draw command => do
    let (id, command) ← command
    queue id command
  | .putOut id => output [.string id]

/-- The world after a request. -/
def serve (w : World) (r : Request) : World :=
  match r.answer.run w with
  | .ok _ w' => w'
  | .error _ w' => w'

/-- What has been shown of the canvas of a name. -/
def shown (id : String) (w : World) : List Snapshot :=
  w.content.toList.filterMap fun
    | .canvas shot => if shot.id = id then some shot else none
    | .html _ => none

/-- What a request is to a canvas. -/
def Request.on? (id : String) : Request → Option Canvas.Event
  | .draw (.ok (id', command)) => if id' = id then some (.queue command) else none
  | .putOut id' => if id' = id then some (.putOut id) else none
  | _ => none

theorem shown_emit (id' : String) (c : Canvas) : shown id (w.emit (.canvas (c.snapshot p id')))
    = shown id w ++ if id' = id then [c.snapshot p id'] else [] := by
  simp only [shown, World.emit, Array.toList_push, List.filterMap_append, List.filterMap_cons,
    List.filterMap_nil, Canvas.snapshot]
  split_ifs <;> rfl

/-- A new canvas has a name of its own. -/
theorem create_acts {args : List Value} :
    Acts False (fun w' => ∃ name c, w.canvases.lookup name = none
      ∧ w' = { w with canvases := (name, c) :: w.canvases }) Plain w (create args) := by
  refine .take fun _ => .take fun name => .take fun _ => .take fun _ =>
    .check (.canvasExists name) fun _ he => .guard fun hn => .take fun _ => .take fun _ =>
      .last (.modify ⟨name, _, ?_, rfl⟩) fun _ _ => trivial
  rw [he, Bool.not_eq_true, Option.isSome_eq_false_iff, Option.isNone_iff_eq_none] at hn
  exact hn

theorem serve_create (w : World) (args : List Value) : serve w (.create args) = w
    ∨ ∃ name c, w.canvases.lookup name = none
      ∧ serve w (.create args) = { w with canvases := (name, c) :: w.canvases } := by
  have ends : Ends False _ Plain w (create args w) := create_acts
  rw [serve, Request.answer, ExceptT.run]
  generalize create args w = o at ends
  cases ends with
  | answer change value => exact .inr change
  | refusal => exact .inl rfl
  | exhausted loops change => exact loops.elim

theorem canvas_some (h : w.canvases.lookup id = some c) : canvas id w = .ok (.ok c) w := by
  rw [canvas_run, h]

theorem canvas_none (h : w.canvases.lookup id = none) :
    canvas id w = .ok (.error (.canvasUnknown id)) w := by
  rw [canvas_run, h]

theorem serve_draw (w : World) (id : String) (command : DrawCommand) :
    serve w (.draw (.ok (id, command))) = match w.canvases.lookup id with
      | some c => { w with canvases := replace w.canvases id (c.queue command) }
      | none => w := by
  have hrun : (Request.answer (.draw (.ok (id, command)))).run w = queue id command w := rfl
  rw [serve, hrun, queue]
  cases h : w.canvases.lookup id with
  | none =>
    rw [bind_run (canvas_none h)]
    rfl
  | some c =>
    rw [bind_run (canvas_some h)]
    rfl

theorem serve_putOut (w : World) (id : String) :
    serve w (.putOut id) = match w.canvases.lookup id with
      | some c =>
        World.emit { w with canvases := replace w.canvases id (c.settle w.provider) }
          (.canvas ((c.settle w.provider).snapshot w.provider id))
      | none => w := by
  have hid : (liftM (Arguments.string [.string id] 0) : ExceptT Refusal Run String) w
      = .ok (.ok id) w := rfl
  have hp : (liftM provider : ExceptT Refusal Run Provider) w = .ok (.ok w.provider) w := rfl
  rw [serve, Request.answer, ExceptT.run, output, bind_run hid, ExceptT.bindCont, bind_run hp,
    ExceptT.bindCont]
  cases h : w.canvases.lookup id with
  | none =>
    rw [bind_run (canvas_none h)]
    rfl
  | some c =>
    rw [bind_run (canvas_some h)]
    rfl

theorem serve_provider (w : World) (r : Request) : (serve w r).provider = w.provider := by
  rcases r with args | (e | ⟨id, command⟩) | id
  · rcases serve_create w args with h | ⟨name, c, -, h⟩ <;> rw [h]
  · rfl
  · rw [serve_draw]
    split <;> rfl
  · rw [serve_putOut]
    split <;> rfl

/-- A request that does not concern a canvas leaves it alone and does not show it. -/
theorem serve_elsewhere {r : Request} (h : w.canvases.lookup id = some c) (hr : r.on? id = none) :
    shown id (serve w r) = shown id w ∧ (serve w r).canvases.lookup id = some c := by
  have hne {id' : String} {event : Canvas.Event} (ho : (if id' = id then some event
      else none) = none) : id' ≠ id := fun he => nomatch (if_pos he).symm.trans ho
  rcases r with args | (e | ⟨id', command⟩) | id'
  · rcases serve_create w args with he | ⟨name, c', hnew, he⟩ <;> rw [he]
    · exact ⟨rfl, h⟩
    · have hname : (id == name) = false := by
        refine beq_eq_false_iff_ne.mpr ?_
        rintro rfl
        cases hnew.symm.trans h
      exact ⟨rfl, by rw [List.lookup_cons, hname, h]⟩
  · exact ⟨rfl, h⟩
  · rw [serve_draw]
    split
    · exact ⟨rfl, (lookup_replace_ne (hne hr).symm).trans h⟩
    · exact ⟨rfl, h⟩
  · rw [serve_putOut]
    split
    · refine ⟨?_, (lookup_replace_ne (hne hr).symm).trans h⟩
      rw [shown_emit, if_neg (hne hr), List.append_nil]
      rfl
    · exact ⟨rfl, h⟩

/-- A canvas is shown as its own events have it, whatever is asked of the others in between. -/
theorem shown_serve (rs : List Request) (h : w.canvases.lookup id = some c) :
    shown id (rs.foldl serve w)
      = shown id w ++ snapshots w.provider c (rs.filterMap (·.on? id)) := by
  induction rs generalizing w c with
  | nil => exact (List.append_nil _).symm
  | cons r rs ih =>
    rw [List.foldl_cons]
    cases hon : r.on? id with
    | none =>
      obtain ⟨hshown, hlookup⟩ := serve_elsewhere h hon
      rw [List.filterMap_cons_none hon, ih hlookup, hshown, serve_provider]
    | some event =>
      rw [List.filterMap_cons_some hon]
      rcases r with args | (e | ⟨id', command⟩) | id' <;> simp only [Request.on?] at hon
      · cases hon
      · cases hon
      · split_ifs at hon with hid
        cases hon
        subst hid
        rw [serve_draw, h]
        exact ih (lookup_replace_self h _)
      · split_ifs at hon with hid
        cases hon
        subst hid
        rw [serve_putOut, h, snapshots]
        rw [ih (c := c.settle w.provider) (lookup_replace_self h _), shown_emit, if_pos rfl,
          List.append_assoc]
        rfl

/-- It makes no difference when a canvas is put out: each time it shows what a blank canvas would
show with all the commands so far, once it is put out. These are the commands since the last one
that clears, as they are resolved, in their order; those that cannot be resolved might as well not
have been queued. In a story the others of its canvases make no difference either. -/
theorem snapshots_batch (p : Provider) (width height : Nat) :
    (∀ events, snapshots p { width, height } events
        = (history [] events).map (batch p width height))
      ∧ (∀ id commands, (batch p width height (id, commands)).commands
        = (commands.rtakeWhile (!·.isClear)).filterMap (·.resolve? p))
      ∧ (∀ events, snapshots p { width, height } (events.filter (·.loads p))
        = snapshots p { width, height } events)
      ∧ ∀ (w : World) (id : String), w.provider = p →
        w.canvases.lookup id = some { width, height } → ∀ requests : List Request,
          shown id (requests.foldl serve w)
            = shown id w ++ snapshots p { width, height } (requests.filterMap (·.on? id)) := by
  refine ⟨fun events => snapshots_eq events rfl rfl rfl, fun id commands => ?_,
    fun events => snapshots_filter events rfl rfl rfl, fun w id hp h requests => ?_⟩
  · rw [batch_eq]
    exact foldl_draw commands
  · rw [← hp]
    exact shown_serve requests h

/-- Where one image is missing. -/
def gallery : Provider where
  image? path := if path = "lost" then none else some ("images/" ++ path)

theorem snapshots_batch_gallery :
    let w : World :=
      { random := .ofSeed "seed", provider := gallery
        canvases := [("map", { width := 4, height := 2 })] }
    w.provider = gallery ∧ w.canvases.lookup "map" = some { width := 4, height := 2 }
      ∧ (shown "map" ([.draw (.ok ("map", .setLineWidth 1)), .putOut "map",
          .draw (.ok ("map", .clear)), .draw (.ok ("map", .putImage "sea" 0 0 none)),
          .create [.string "chart", .nat 1, .nat 1], .draw (.ok ("chart", .clear)),
          .draw (.ok ("map", .putImage "lost" 0 0 none)), .putOut "map"].foldl serve w)).map
          (·.commands)
        = [[.setLineWidth 1], [.putImage "images/sea" 0 0 none]] := by
  intro w
  obtain ⟨-, -, -, h⟩ := snapshots_batch gallery 4 2
  refine ⟨rfl, rfl, ?_⟩
  have hblank : shown "map" w = [] := rfl
  rw [h w "map" rfl rfl, hblank, List.nil_append]
  rfl

end Library.Drawing

end Tale
