import Tale.Player.Screen.Keys
import Tale.Proofs.Sessions
import Tale.Proofs.Typewriter

/-!
# Keys that fail

A key that fails leaves the screen, the seed and the decisions as they were, and the loop only
shows why. A restart, an undo or a load takes a session over only when it is complete, so these
leave the telling too. A save may have made directories before it fails; they do not help it when
it is tried again (`write_again`). A choice is another matter: it is taken by the live telling,
and one that stops at a fault ends it. From there on no choice is taken, while any other key does
what it would have done (`press_error`).

A restart without a given seed takes one from the clock. Pressed again at another time it may well
succeed, so what is said of keys that are pressed again leaves it out.
-/

namespace Tale

/-! ## Changes of files that are made again -/

namespace Files

/-- Entries may have been added. -/
structure Grows (fs fs' : Files) : Prop where
  directory : fs'.workingDirectory = fs.workingDirectory
  contents (p : Place) (e : Entry) (h : fs.contents? p = some e) : fs'.contents? p = some e

variable {fs fs' fs'' : Files} {p : Place} {e : Entry}

theorem Grows.refl (fs : Files) : fs.Grows fs :=
  ⟨rfl, fun _ _ h => h⟩

theorem Grows.trans (h : fs.Grows fs') (h' : fs'.Grows fs'') : fs.Grows fs'' :=
  ⟨h'.directory.trans h.directory, fun p e hp => h'.contents p e (h.contents p e hp)⟩

theorem Grows.put (hp : fs.contents? p = none) : fs.Grows (fs.put p e) := by
  refine ⟨rfl, fun q e' hq => ?_⟩
  have hne : q ≠ p := by
    rintro rfl
    cases hp.symm.trans hq
  rwa [contents?_put_ne hne]

/-- What a change came to: entries were added at most, and where it is made once more, whatever has
been added since, it comes to the same without changing anything. -/
inductive Settled {α : Type} (x : Change α) (fs : Files) : EStateM.Result FileError Files α → Prop
  | ok {a : α} {fs' : Files} (hg : fs.Grows fs')
      (h : ∀ later, fs'.Grows later → x later = .ok a later) : Settled x fs (.ok a fs')
  | error {e : FileError} {fs' : Files} (hg : fs.Grows fs')
      (h : ∀ later, fs'.Grows later → x later = .error e later) : Settled x fs (.error e fs')

/-- A change that goes on as another one, there and wherever entries have been added. -/
theorem Settled.congr {α : Type} {x y : Change α} {r : EStateM.Result FileError Files α}
    (h : Settled y fs' r) (hg : fs.Grows fs') (he : ∀ later, fs'.Grows later → x later = y later) :
    Settled x fs r := by
  cases h with
  | ok hg' h => exact .ok (hg.trans hg') fun l hl => (he l (hg'.trans hl)).trans (h l hl)
  | error hg' h => exact .error (hg.trans hg') fun l hl => (he l (hg'.trans hl)).trans (h l hl)

section Directories

variable {n : String} {ns : List String}

theorem makeDirectories_up (hn : n = "..") (fs : Files) :
    makeDirectories p (n :: ns) fs = makeDirectories p.dropLast ns fs := by
  rw [makeDirectories, if_pos hn]

theorem makeDirectories_down (hn : n ≠ "..") (fs : Files) :
    makeDirectories p (n :: ns) fs = match fs.contents? (p ++ [n]) with
      | some .directory => makeDirectories (p ++ [n]) ns fs
      | some (.file _) => .error .notDirectory fs
      | none => makeDirectories (p ++ [n]) ns (fs.put (p ++ [n]) .directory) := by
  have hg : (get : Change Files) fs = .ok fs fs := rfl
  rw [makeDirectories, if_neg hn]
  simp only [bind, EStateM.bind, hg]
  split <;> simp_all <;> rfl

/-- The directories that names lead through are there once they were made. -/
theorem makeDirectories_settled : ∀ (ns : List String) (p : Place) (fs : Files),
    Settled (makeDirectories p ns) fs (makeDirectories p ns fs)
  | [], _, fs => .ok (.refl fs) fun _ _ => rfl
  | n :: ns, p, fs => by
    by_cases hn : n = ".."
    · rw [makeDirectories_up hn]
      exact (makeDirectories_settled ns _ fs).congr (.refl fs) fun l _ => makeDirectories_up hn l
    · rw [makeDirectories_down hn]
      rcases hc : fs.contents? (p ++ [n]) with _ | _ | t
      · have hd : (fs.put (p ++ [n]) .directory).contents? (p ++ [n]) = some .directory :=
          contents?_put_self (List.append_ne_nil_of_right_ne_nil _ nofun)
        refine (makeDirectories_settled ns _ _).congr (.put hc) fun l hl => ?_
        rw [makeDirectories_down hn, hl.contents _ _ hd]
      · refine (makeDirectories_settled ns _ fs).congr (.refl fs) fun l hl => ?_
        rw [makeDirectories_down hn, hl.contents _ _ hc]
      · refine .error (.refl fs) fun l hl => ?_
        rw [makeDirectories_down hn, hl.contents _ _ hc]

end Directories

theorem makeWay_settled (path : String) (fs : Files) :
    Settled (makeWay path) fs (makeWay path fs) := by
  have he : ∀ later, fs.Grows later → makeWay path later
      = makeDirectories [] (Path.directories (Path.join fs.workingDirectory path)) later := by
    intro later hl
    have hg : (get : Change Files) later = .ok later later := rfl
    simp only [makeWay, bind, EStateM.bind, hg, hl.directory]
  rw [he fs (.refl fs)]
  exact (makeDirectories_settled _ [] fs).congr (.refl fs) he

theorem create_error {path : String} {x : FileError} (h : create path e fs = .error x fs') :
    fs' = fs := by
  have hg : (get : Change Files) fs = .ok fs fs := rfl
  simp only [create, bind, EStateM.bind, hg] at h
  cases hp : fs.place? path with
  | none =>
    rw [hp] at h
    cases h
    rfl
  | some p =>
    simp only [hp] at h
    rcases hc : fs.contents? p with _ | _ | t <;> rw [hc] at h <;> cases h
    rfl

/-- A file that could not be written cannot be written after that either, and there is nothing more
to do on the way to it. -/
theorem write_again {path text : String} {x : FileError} (h : write path text fs = .error x fs') :
    write path text fs' = .error x fs' := by
  have hs := makeWay_settled path fs
  simp only [write, bind, EStateM.bind] at h ⊢
  generalize hr : makeWay path fs = r at h hs
  cases hs with
  | ok _ hl =>
    simp only at h
    have he := create_error h
    subst he
    rw [hl _ (.refl _)]
    exact h
  | error _ hl =>
    cases h
    rw [hl _ (.refl _)]

end Files

/-- A call that fails on the way ends the telling. -/
theorem Telling.resume_fault {t t' : Telling} {i : Option Nat} {e : StepError}
    (h : t.resume i = (.error e, t')) (he : e.isRejection = false) : t'.isFinished = true := by
  have ha : ∀ {first : Tell Flow}, t.advance first = (.error e, t') → t'.isFinished = true := by
    intro first h
    unfold advance at h
    split at h <;> cases h
    rfl
  unfold resume at h
  split at h
  · exact ha h
  · cases h
    cases he
  · cases h
    cases he
  · split at h
    · exact ha h
    · cases h
      cases he
  · cases h
    cases he

namespace Player

/-- A choice is refused, or the telling is over when it fails. -/
theorem Session.choose_fails {s s' : Session} {i : Nat} {f : Failure}
    (h : s.choose i = (.error f, s')) : ∃ e, f = .step e
      ∧ ((e.isRejection = true ∧ s' = s)
        ∨ (e.isRejection = false ∧ ∃ telling, telling.isFinished = true
          ∧ s' = { s with telling })) := by
  unfold Session.choose at h
  rcases ht : s.telling.resume (some i) with ⟨e | step, telling⟩ <;> rw [ht] at h <;> cases h
  refine ⟨e, rfl, ?_⟩
  cases he : e.isRejection with
  | true =>
    have hr := Telling.resume_rejected (congrArg Prod.fst ht) he
    rw [ht] at hr
    exact .inl ⟨rfl, congrArg (fun telling => { s with telling }) hr⟩
  | false => exact .inr ⟨rfl, telling, Telling.resume_fault ht he, rfl⟩

/-- What is saved of a session does not depend on where its telling stands. -/
theorem Session.save_telling (s : Session) (telling : Telling) (id path : String) (fs : Files) :
    Session.save { s with telling } id path fs = s.save id path fs := by
  unfold Session.save Saved.ofSession
  rfl

/-- A session that could not be saved cannot be saved after that either. -/
theorem Session.save_again {s : Session} {id path : String} {fs fs' : Files} {f : Failure}
    (h : s.save id path fs = (.error f, fs')) : s.save id path fs' = (.error f, fs') := by
  unfold Session.save at h ⊢
  split at h
  · cases h
  · next x files hw =>
    cases h
    rw [Files.write_again hw]

namespace Screen

/-- The screens that typing on leads to. -/
def Types : Screen → Screen → Prop :=
  Relation.ReflTransGen fun s s' => s.advance? = some s'

theorem Types.still {s s' : Screen} (h : s.Types s') (hs : s.isTyping = false) : s' = s := by
  have hn : s.advance? = none := advance?_eq_none.mpr (isTyping_eq_false.mp hs)
  cases Relation.ReflTransGen.cases_head h with
  | inl h => exact h.symm
  | inr h =>
    obtain ⟨_, h, -⟩ := h
    cases hn.symm.trans h

end Screen

namespace Desk

variable {c : Context} {k : Key} {d d' : Desk} {f : Failure} {clock : String}

/-- The keys that can fail, and what is left on the desk then. -/
inductive Fails (c : Context) (d : Desk) (clock : String) : KeyCode → Failure → Desk → Prop
  | restart {f : Failure} (h : Session.start c.book c.seed clock = .error f) :
      Fails c d clock (.char 'r') f d
  | save {f : Failure} {files : Files}
      (h : d.session.save c.book.id c.stateFile d.files = (.error f, files)) :
      Fails c d clock (.char 's') f { d with files }
  | load {f : Failure} (h : Session.load d.files c.book c.stateFile = .error f) :
      Fails c d clock (.char 'l') f d
  | undo {f : Failure} (h : d.session.undo c.book = .error f) : Fails c d clock (.char 'u') f d
  | choose {f : Failure} {item : Item} {session : Session} (ht : d.screen.isTyping = false)
      (hi : d.screen.choices[d.screen.selected]? = some item) (he : item.disabled = false)
      (h : d.session.choose item.index = (.error f, session)) :
      Fails c d clock .enter f { d with session }

section Commands

variable (c : Context) (d : Desk) (control : Bool) (clock : String)

theorem press_restart : d.press c ⟨.char 'r', control⟩ clock = d.restart c clock := by
  simp [press]

theorem press_save : d.press c ⟨.char 's', control⟩ clock = d.save c := by
  simp [press]

theorem press_load : d.press c ⟨.char 'l', control⟩ clock = d.load c := by
  simp [press]

theorem press_undo : d.press c ⟨.char 'u', control⟩ clock = d.undo c := by
  simp [press]

theorem press_enter (h : d.screen.isTyping = false) :
    d.press c ⟨.enter, control⟩ clock = d.take := by
  simp [press, pick, h]

end Commands

theorem save_error {files : Files}
    (h : d.session.save c.book.id c.stateFile d.files = (.error f, files)) :
    d.save c = (.error f, { d with files }) := by
  unfold save
  rw [h]

theorem save_ok {files : Files}
    (h : d.session.save c.book.id c.stateFile d.files = (.ok (), files)) :
    d.save c = { d with files }.say ("saved to " ++ c.stateFile) := by
  unfold save
  rw [h]

theorem moveTo_error {done : String} {r : Except Failure (Session × Boundary)} :
    d.moveTo done r = (.error f, d') ↔ r = .error f ∧ d' = d := by
  rcases r with e | ⟨session, b⟩
  · simp [moveTo, eq_comm]
  · simp [moveTo, say]

theorem Fails.press (h : Fails c d clock k.code f d') : d.press c k clock = (.error f, d') := by
  rcases k with ⟨code, control⟩
  simp only at h
  cases h with
  | restart h =>
    rw [press_restart]
    exact moveTo_error.mpr ⟨h, rfl⟩
  | save h => exact (press_save c d control clock).trans (save_error h)
  | load h =>
    rw [press_load]
    exact moveTo_error.mpr ⟨h, rfl⟩
  | undo h => rw [press_undo, Desk.undo, h]
  | choose ht hi he h =>
    rw [press_enter c d control clock ht]
    simp only [take, hi, he, h, Bool.false_eq_true, if_false]

theorem take_fails (ht : d.screen.isTyping = false) (h : d.take = (.error f, d')) :
    Fails c d clock .enter f d' := by
  unfold take at h
  split at h
  · cases h
  · next item hi =>
    split at h
    · cases h
    · next he =>
      split at h
      · cases h
      · next hc =>
        cases h
        exact .choose ht hi (by simpa using he) hc

theorem press_fails (h : d.press c k clock = (.error f, d')) : Fails c d clock k.code f d' := by
  rcases k with ⟨code, control⟩
  unfold press at h
  split at h
  · cases h
  · simp only at h ⊢
    split at h
    · cases h
    · obtain ⟨hs, rfl⟩ := moveTo_error.mp h
      exact .restart hs
    · unfold save at h
      split at h
      · cases h
      · cases h
        exact .save ‹_›
    · obtain ⟨hl, rfl⟩ := moveTo_error.mp h
      exact .load hl
    · unfold undo at h
      split at h
      · cases h
      · cases h
      · cases h
        exact .undo ‹_›
    · split at h
      · unfold hurry at h
        split at h <;> cases h
      · next ht =>
        unfold pick at h
        split at h
        · split at h <;> cases h
        · split at h <;> cases h
        · next hk =>
          simp only at hk
          subst hk
          exact take_fails (by simpa using ht) h
        · cases h

/-- What comes of a key on two desks that may differ in a telling. A session that was taken over is
the same on both. -/
structure Beside (d d' : Desk) (p p' : Pressed) : Prop where
  outcome : p'.1 = p.1
  files : p'.2.files = p.2.files
  screen : p'.2.screen = p.2.screen
  session : p'.2.session = p.2.session ∨ (p.2.session = d.session ∧ p'.2.session = d'.session)

section Beside

variable {telling : Telling}

theorem beside_moveTo (done : String) (r : Except Failure (Session × Boundary)) :
    Beside d { d with session := { d.session with telling } } (d.moveTo done r)
      ({ d with session := { d.session with telling } }.moveTo done r) := by
  cases r with
  | error f => exact ⟨rfl, rfl, rfl, .inr ⟨rfl, rfl⟩⟩
  | ok p => exact ⟨rfl, rfl, rfl, .inl rfl⟩

theorem beside_save (c : Context) :
    Beside d { d with session := { d.session with telling } } (d.save c)
      ({ d with session := { d.session with telling } }.save c) := by
  rcases h : d.session.save c.book.id c.stateFile d.files with ⟨f | u, files⟩
  all_goals
    have h' := (Session.save_telling d.session telling c.book.id c.stateFile d.files).trans h
  · rw [save_error h, save_error (d := { d with session := { d.session with telling } }) h']
    exact ⟨rfl, rfl, rfl, .inr ⟨rfl, rfl⟩⟩
  · rw [save_ok h, save_ok (d := { d with session := { d.session with telling } }) h']
    exact ⟨rfl, rfl, rfl, .inr ⟨rfl, rfl⟩⟩

/-- Only a choice asks the telling. -/
theorem press_beside (c : Context) (hk : k.code ≠ .enter) (clock : String) :
    Beside d { d with session := { d.session with telling } } (d.press c k clock)
      ({ d with session := { d.session with telling } }.press c k clock) := by
  have same : ∀ (o : Except Failure Bool) (screen : Screen) (files : Files),
      Beside d { d with session := { d.session with telling } }
        (o, ⟨files, d.session, screen⟩) (o, ⟨files, { d.session with telling }, screen⟩) :=
    fun _ _ _ => ⟨rfl, rfl, rfl, .inr ⟨rfl, rfl⟩⟩
  rcases k with ⟨code, control⟩
  unfold press
  split
  · exact same ..
  · simp only
    split
    · exact same ..
    · exact beside_moveTo ..
    · exact beside_save c
    · exact beside_moveTo ..
    · have hu : Session.undo c.book { d.session with telling } = d.session.undo c.book := rfl
      simp only [undo, hu]
      split
      · exact same ..
      · exact beside_moveTo ..
      · exact same ..
    · split
      · unfold hurry
        split <;> exact same ..
      · unfold pick
        split
        · split <;> exact same ..
        · split <;> exact same ..
        · contradiction
        · exact same ..

end Beside

/-- A key that fails leaves the screen, the seed and the decisions. Either it leaves the whole
session, and fails in the same way where it is pressed again, with its message on the screen and
whatever has been typed since; only a restart without a given seed does so for certain just while
the clock says the same. Or it took a choice that stopped at a fault: then the telling is over, the
key says so from there on, and all other keys do as they would have done. -/
theorem press_error (h : (d.press c k clock).1 = .error f) :
    let after := (d.press c k clock).2
    after.screen = d.screen ∧ after.session.seed = d.session.seed
      ∧ after.session.decisions = d.session.decisions
      ∧ ((after.session = d.session
          ∧ ∀ screen clock', (d.screen.setStatus f.message).Types screen →
            (k.code = .char 'r' → c.seed = none → clock' = clock) →
            { after with screen }.press c k clock' = (.error f, { after with screen }))
        ∨ (k.code = .enter ∧ (∃ e, f = .step e ∧ e.isRejection = false)
          ∧ after.session.telling.isFinished = true
          ∧ ∀ screen clock', (d.screen.setStatus f.message).Types screen →
            { after with screen }.press c k clock'
                = (.error (.step .finished), { after with screen })
              ∧ ∀ k' : Key, k'.code ≠ .enter → Beside { d with screen } { after with screen }
                ({ d with screen }.press c k' clock')
                ({ after with screen }.press c k' clock'))) := by
  intro after
  have hf : Fails c d clock k.code f after := press_fails (Prod.ext h rfl)
  clear_value after
  rcases k with ⟨code, control⟩
  simp only at hf
  cases hf with
  | restart h =>
    refine ⟨rfl, rfl, rfl, .inl ⟨rfl, fun _ clock' _ hc => Fails.press (.restart ?_)⟩⟩
    have hseed : c.seed.getD clock' = c.seed.getD clock := by
      rcases hs : c.seed with _ | seed
      · exact hc rfl hs
      · rfl
    rw [Session.start, hseed]
    exact h
  | save h =>
    exact ⟨rfl, rfl, rfl, .inl ⟨rfl, fun _ _ _ _ => Fails.press (.save (Session.save_again h))⟩⟩
  | load h => exact ⟨rfl, rfl, rfl, .inl ⟨rfl, fun _ _ _ _ => Fails.press (.load h)⟩⟩
  | undo h => exact ⟨rfl, rfl, rfl, .inl ⟨rfl, fun _ _ _ _ => Fails.press (.undo h)⟩⟩
  | choose ht hi he h =>
    have still : ∀ screen, (d.screen.setStatus f.message).Types screen →
        screen = d.screen.setStatus f.message := fun _ hs => hs.still ht
    obtain ⟨e, rfl, ⟨hr, rfl⟩ | ⟨hr, telling, ho, rfl⟩⟩ := Session.choose_fails h
    · refine ⟨rfl, rfl, rfl, .inl ⟨rfl, fun screen _ hs _ => ?_⟩⟩
      cases still screen hs
      exact Fails.press (.choose ht hi he h)
    · refine ⟨rfl, rfl, rfl, .inr ⟨rfl, ⟨e, rfl, hr⟩, ho, fun screen clock' hs => ?_⟩⟩
      refine ⟨?_, fun k' hk => press_beside c hk clock'⟩
      cases still screen hs
      refine Fails.press (.choose ht hi he ?_)
      rw [Session.choose, Telling.resume_over ho]

/-! ### A choice that stops at a fault, and a start that depends on the seed -/

/-- The desk when the player begins. -/
def opening (c : Context) (files : Files) (clock : String) : Except Failure Desk :=
  match Session.start c.book c.seed clock with
  | .error f => .error f
  | .ok (session, b) => .ok ⟨files, session, (({} : Screen).setStatus "ready").replace b⟩

def enter : Key := ⟨.enter, false⟩

/-- A story whose only choice stops at a fault. -/
def failing : Context :=
  ⟨⟨"failing", "failing",
    "WTCD 1.3\nsection s then selection [choice \"go\" $ assert::[false]]\n"⟩, "state", "seed"⟩

/-- What is seen of the first choice and of the same key after it. -/
def twice (d : Desk) : Option (String × Bool × String) :=
  match d.press failing enter "1" with
  | (.error f, after) =>
    match { after with screen := d.screen.setStatus f.message }.press failing enter "1" with
    | (.error g, _) => some (f.code, after.session.telling.isFinished, g.code)
    | _ => none
  | _ => none

theorem failing_twice : ∃ d f after g, opening failing (.ofDirectory "/play") "1" = .ok d
    ∧ d.session.telling.isFinished = false ∧ d.press failing enter "1" = (.error f, after)
    ∧ after.session.telling.isFinished = true ∧ f.code = "WTCD_RUNTIME"
    ∧ ({ after with screen := d.screen.setStatus f.message }.press failing enter "1").1 = .error g
    ∧ g.code = "WTCD_FINISHED" := by
  have h : (opening failing (.ofDirectory "/play") "1").toOption.map
      (fun d => (d.session.telling.isFinished, d.twice))
        = some (false, some ("WTCD_RUNTIME", true, "WTCD_FINISHED")) := by
    rw [opening, Session.start, Session.replay, Document.parse_eq_ofChars]
    decide +kernel
  rcases hd : opening failing (.ofDirectory "/play") "1" with f | d <;> rw [hd] at h
  · cases h
  · simp only [Except.toOption, Option.map_some, Option.some.injEq, Prod.mk.injEq] at h
    obtain ⟨hb, h⟩ := h
    unfold twice at h
    split at h
    · next f after hf =>
      split at h
      · next g again hg =>
        simp only [Option.some.injEq, Prod.mk.injEq] at h
        exact ⟨d, f, after, g, rfl, hb, hf, h.2.1, h.1, congrArg Prod.fst hg, h.2.2⟩
      · cases h
    · cases h

/-- A story that begins with a toss, played without a given seed. -/
def tossing : Context :=
  ⟨⟨"tossing", "tossing", "WTCD 1.3\nsection s assert::[randomBoolean::[]] then exit\n"⟩, "state",
    none⟩

/-- The toss is lost with one seed and won with another. -/
theorem tossing_starts : (Session.start tossing.book none "0").isOk = false
    ∧ (Session.start tossing.book none "1").isOk = true := by
  rw [Session.start, Session.replay, Session.start, Session.replay, Document.parse_eq_ofChars]
  decide +kernel

/-- A restart that failed succeeds when it is tried again at another time. -/
theorem tossing_restarts : ∃ d f, opening tossing (.ofDirectory "/play") "1" = .ok d
    ∧ d.press tossing ⟨.char 'r', false⟩ "0" = (.error f, d)
    ∧ ({ d with screen := d.screen.setStatus f.message }.press tossing
      ⟨.char 'r', false⟩ "1").1 = .ok false := by
  obtain ⟨hlost, hwon⟩ := tossing_starts
  rcases h₀ : Session.start tossing.book none "0" with f | p
  · rcases h₁ : Session.start tossing.book none "1" with g | ⟨session, b⟩
    · rw [h₁] at hwon
      cases hwon
    · have hseed : tossing.seed = none := rfl
      refine ⟨⟨.ofDirectory "/play", session, (({} : Screen).setStatus "ready").replace b⟩, f, ?_,
        Fails.press (.restart h₀), ?_⟩
      · rw [opening, hseed, h₁]
      · rw [press_restart, restart, hseed, h₁]
        rfl
  · rw [h₀] at hlost
    cases hlost

/-- A choice changes the session, and the same key gives another error after that. A restart gives
the same error again with the same seed only. -/
theorem press_error_ends :
    (¬ ∀ c files clock d d' k f, opening c files clock = .ok d →
        d.press c k clock = (.error f, d') → d'.session = d.session)
      ∧ (¬ ∀ c files clock d d' k f, opening c files clock = .ok d →
        d.press c k clock = (.error f, d') →
          ({ d' with screen := d.screen.setStatus f.message }.press c k clock).1 = .error f)
      ∧ ¬ ∀ c files clock clock' clock'' d d' k f, opening c files clock = .ok d →
        k.code ≠ .enter → d.press c k clock' = (.error f, d') →
          ({ d' with screen := d.screen.setStatus f.message }.press c k clock'').1 = .error f := by
  obtain ⟨d, f, after, g, hd, hb, hf, ha, hfc, hg, hgc⟩ := failing_twice
  refine ⟨fun h => ?_, fun h => ?_, fun h => ?_⟩
  · rw [h _ _ _ _ _ _ _ hd hf, hb] at ha
    cases ha
  · rw [h _ _ _ _ _ _ _ hd hf] at hg
    cases hg
    exact absurd (hfc.symm.trans hgc) (by decide)
  · obtain ⟨d, f, hd, hf, hagain⟩ := tossing_restarts
    rw [h tossing _ _ "0" "1" d d ⟨.char 'r', false⟩ f hd nofun hf] at hagain
    cases hagain

/-- After the choice that failed the decisions are as they were and the same key is answered by the
end, but help is still shown. -/
theorem press_error_failing : ∃ d f, opening failing (.ofDirectory "/play") "1" = .ok d
    ∧ (d.press failing enter "1").1 = .error f
    ∧ (d.press failing enter "1").2.session.decisions = d.session.decisions
    ∧ ({ (d.press failing enter "1").2 with screen := d.screen.setStatus f.message }.press
        failing enter "2").1 = .error (.step .finished)
    ∧ ({ (d.press failing enter "1").2 with screen := d.screen.setStatus f.message }.press
        failing ⟨.char 'h', false⟩ "2").1 = .ok false := by
  obtain ⟨d, f, after, g, hd, hb, hf, ha, -⟩ := failing_twice
  have hp := press_error (congrArg Prod.fst hf)
  rw [hf] at hp
  obtain ⟨-, -, hds, ⟨hs, -⟩ | ⟨-, -, -, hr⟩⟩ := hp
  · rw [hs, hb] at ha
    cases ha
  · obtain ⟨he, ho⟩ := hr _ "2" .refl
    refine ⟨d, f, hd, congrArg Prod.fst hf, ?_⟩
    rw [hf]
    exact ⟨hds, congrArg Prod.fst he, (ho ⟨.char 'h', false⟩ nofun).outcome⟩

end Desk

end Player

end Tale
