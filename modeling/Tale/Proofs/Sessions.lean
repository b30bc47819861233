import Mathlib
import Tale.Player.Lines
import Tale.Proofs.Replays
import Tale.Proofs.Reread

/-!
# A session's log brings it back

A sitting is a session together with its book and the boundary shown last. The player's moves
change the telling and the log of decisions apart from each other: a choice is logged only once its
step has come about, while the other moves take over a whole session. Between any two moves
replaying the log shows what was shown last (`Logged`). The live telling is then the replayed one,
or it is over after a fault, so that no choice is taken from there on.

What is saved is found again because a file that is written over no directory leaves every way
where it was, and because what is printed is read again.
-/

namespace Tale

/-! ## Files -/

namespace Files

variable {fs fs' : Files} {p : Place} {e : Entry}

theorem contents?_put_self (hp : p ≠ []) : (fs.put p e).contents? p = some e := by
  cases p with
  | nil => exact absurd rfl hp
  | cons n ns => simp [contents?, put]

theorem contents?_put_ne {q : Place} (h : q ≠ p) : (fs.put p e).contents? q = fs.contents? q := by
  cases q with
  | nil => rfl
  | cons n ns =>
    have hq : (n :: ns == p) = false := by simpa using h
    have hf : (n :: ns != p) = true := by simpa using h
    simp only [contents?, put, List.lookup_cons, hq, lookup_filter (f := (· != p)) hf]

theorem walk_congr (h : ∀ p, fs'.isDirectoryAt p = fs.isDirectoryAt p) :
    ∀ (ns : List String) (p : Place), fs'.walk p ns = fs.walk p ns
  | [], _ => rfl
  | n :: ns, p => by
    simp only [walk, h, walk_congr h ns]

/-- A file in the place of no directory leaves every way where it was. -/
theorem place?_put (hd : fs.contents? p ≠ some .directory) {t : Option String} (path : String) :
    (fs.put p (.file t)).place? path = fs.place? path := by
  have hp : p ≠ [] := by
    rintro rfl
    exact hd rfl
  have h : ∀ q, (fs.put p (.file t)).isDirectoryAt q = fs.isDirectoryAt q := by
    intro q
    by_cases hq : q = p
    · subst hq
      simp [isDirectoryAt, contents?_put_self hp, hd]
    · simp only [isDirectoryAt, contents?_put_ne hq]
  simp only [place?, walk_congr h]
  rfl

theorem create_ok {path : String} (h : create path e fs = .ok () fs') :
    ∃ p, fs.place? path = some p ∧ fs.contents? p ≠ some .directory ∧ fs' = fs.put p e := by
  have hw : (get : Change Files) fs = .ok fs fs := rfl
  simp only [create, bind, EStateM.bind, hw] at h
  cases hp : fs.place? path with
  | none =>
    rw [hp] at h
    cases h
  | some p =>
    rw [hp] at h
    refine ⟨p, rfl, ?_⟩
    cases hc : fs.contents? p with
    | none =>
      simp only [hc] at h
      cases h
      exact ⟨by rintro ⟨⟩, rfl⟩
    | some e' =>
      cases e' with
      | directory =>
        simp only [hc] at h
        cases h
      | file t =>
        simp only [hc] at h
        cases h
        exact ⟨by rintro ⟨⟩, rfl⟩

/-- What was written at a path is found there. -/
theorem find?_write {path text : String} (h : write path text fs = .ok () fs') :
    fs'.find? path = some (.file (some text)) := by
  simp only [write, bind, EStateM.bind] at h
  split at h
  · obtain ⟨p, hp, hd, rfl⟩ := create_ok h
    have hn : p ≠ [] := by
      rintro rfl
      exact hd rfl
    rw [find?, place?_put hd, hp]
    exact contents?_put_self hn
  · cases h

end Files

/-! ## Saved sessions -/

namespace Player

namespace Saved

theorem natBelow?_nat {limit n : Nat} (h : n < limit) : (Json.nat n).natBelow? limit = some n := by
  rw [Json.nat, Json.natBelow?.eq_def]
  exact if_pos h

theorem list?_nats {ds : List Nat} (h : ∀ i ∈ ds, i < Text.word64) :
    Json.list? Json.size? (.arr (ds.map .nat)) = some ds := by
  simp only [Json.list?, Json.arr?, Option.bind_some]
  induction ds with
  | nil => rfl
  | cons i is ih =>
    have hi := natBelow?_nat (h i (.head _))
    have his := ih fun i hi => h i (.tail _ hi)
    simp only [List.map_cons, List.mapM_cons, Json.size?, hi, his, bind, Option.bind_some, pure]

theorem exactElements_nats {ds : List Nat} (h : ∀ i ∈ ds, i < Text.word64) :
    Json.exactElements (ds.map .nat) = true := by
  induction ds with
  | nil => rfl
  | cons i is ih =>
    have hi : i < 2 ^ 64 := h i (.head _)
    have his := ih fun i hi => h i (.tail _ hi)
    simp only [List.map_cons, Json.exactElements, Json.isExact, Json.nat, his, Bool.and_true,
      Bool.and_eq_true, decide_eq_true_eq]
    omega

theorem depthElements_nats (ds : List Nat) : Json.depthElements (ds.map .nat) ≤ 1 := by
  induction ds with
  | nil => exact Nat.zero_le 1
  | cons i is ih => exact Nat.max_le.mpr ⟨Nat.le_refl 1, ih⟩

/-- What is saved is read again if the machine holds each decision in a word. -/
theorem ofText?_toJson {s : Saved} (h : ∀ i ∈ s.decisions, i < Text.word64) :
    ofText? s.toJson.pretty = some s := by
  have hp : Json.parseRecord? members s.toJson.pretty = some s.toJson := by
    refine Json.parseRecord?_pretty ?_ ?_ ?_
    · simp only [Json.exactMembers, Json.isExact, exactElements_nats h, Bool.and_self]
    · have hd := depthElements_nats s.decisions
      simp only [Json.depthMembers, Json.depth, Json.recordLevels]
      omega
    · simp [members]
  let ms : List (String × Json) := [("schemaVersion", .str s.schema), ("storyId", .str s.storyId),
    ("randomSeed", .str s.seed), ("decisions", .arr (s.decisions.map .nat))]
  have hm : Json.strictRecord? members 4 (.obj ms) = some ms := rfl
  have hd : Json.needed? (Json.list? Json.size?) "decisions" ms = some s.decisions := list?_nats h
  have ho : ofJson? (.obj ms) = some s := by
    simp only [ofJson?, hm, hd, bind, Option.bind_some]
    rfl
  rw [ofText?, hp, Option.bind_some]
  exact ho

theorem lt_of_size? {j : Json} {n : Nat} (h : j.size? = some n) : n < Text.word64 := by
  unfold Json.size? Json.natBelow? at h
  split at h
  · split at h
    · cases h
      assumption
    · cases h
  · cases h

theorem lt_of_list? : ∀ {xs : List Json} {ds : List Nat}, xs.mapM Json.size? = some ds →
    ∀ i ∈ ds, i < Text.word64
  | [], _, rfl, i, hi => absurd hi List.not_mem_nil
  | x :: xs, ds, h, i, hi => by
    simp only [List.mapM_cons, bind, Option.bind_eq_some_iff, pure, Option.some.injEq] at h
    obtain ⟨n, hn, ns, hns, rfl⟩ := h
    rcases List.mem_cons.mp hi with rfl | hi
    · exact lt_of_size? hn
    · exact lt_of_list? hns i hi

/-- Decisions that were read are words. -/
theorem read_lt {fs : Files} {path : String} {s : Saved} (h : Saved.read fs path = .ok s) :
    ∀ i ∈ s.decisions, i < Text.word64 := by
  have hj : ∀ {j}, ofJson? j = some s → ∀ i ∈ s.decisions, i < Text.word64 := by
    intro j hj
    simp only [ofJson?, bind, Option.bind_eq_some_iff, pure, Option.some.injEq] at hj
    obtain ⟨ms, -, _, -, _, -, _, -, ds, hd, rfl⟩ := hj
    obtain ⟨j, -, hd⟩ := Option.bind_eq_some_iff.mp hd
    obtain ⟨xs, -, hx⟩ := Option.bind_eq_some_iff.mp hd
    exact lt_of_list? hx
  unfold Saved.read at h
  split at h
  · cases h
  · split at h
    · cases h
    · split at h
      · cases h
      · next ht =>
        split at h
        · cases h
          obtain ⟨j, -, hs⟩ := Option.bind_eq_some_iff.mp ht
          exact hj hs
        · cases h

end Saved

/-! ## Replays of a log -/

end Player

namespace Telling

theorem follow_append (js : List Nat) : ∀ (is : List Nat) (t : Telling) (s : Step),
    t.follow s (is ++ js) = (t.follow s is).bind fun p => p.2.follow p.1 js
  | [], _, _ => rfl
  | i :: is, t, s => by
    rw [List.cons_append, follow, follow]
    rcases t.resume (some i) with ⟨_ | s', t'⟩
    · rfl
    · exact follow_append js is t' s'

theorem replay_append (t : Telling) (is js : List Nat) :
    t.replay (is ++ js) = (t.replay is).bind fun p => p.2.follow p.1 js := by
  rw [replay, replay]
  rcases t.resume none with ⟨_ | s, t'⟩
  · rfl
  · exact follow_append js is t' s

theorem follow_single {t t' : Telling} (s : Step) {s' : Step} {i : Nat}
    (h : t.resume (some i) = (.ok s', t')) : t.follow s [i] = .ok (s', t') := by
  rw [follow, h]
  rfl

/-- A call that brings no step leaves the telling as it was, or over. -/
theorem resume_error {t : Telling} {i : Option Nat} {e : StepError}
    (h : (t.resume i).1 = .error e) :
    (t.resume i).2 = t ∨ (t.resume i).2.isFinished = true := by
  have ha : ∀ {first : Tell Flow}, (t.advance first).1 = .error e →
      (t.advance first).2.isFinished = true := by
    intro first h
    unfold advance at h ⊢
    split at h
    · cases h
    · rfl
  unfold resume at h ⊢
  split at h
  · exact .inr (ha h)
  · exact .inl rfl
  · exact .inl rfl
  · split at h
    · exact .inr (ha h)
    · exact .inl rfl
  · exact .inl rfl

theorem resume_over {t : Telling} (h : t.isFinished = true) (i : Option Nat) :
    t.resume i = (.error .finished, t) := by
  have hs : t.stage = .finished := by
    unfold isFinished at h
    split at h
    · assumption
    · cases h
  rw [resume.eq_def, hs]

end Telling

namespace Player

namespace Session

variable {book : Book} {seed : String} {ds : List Nat} {p : Session × Boundary}

/-- A replay is one of the story's telling. -/
theorem replay_iff : replay book seed ds = .ok p ↔ ∃ story step telling,
    Document.parse {} book.source = .ok story
      ∧ (Telling.ofStory story seed).replay ds = .ok (step, telling)
      ∧ p = (⟨telling, seed, ds⟩, .ofStep step telling) := by
  constructor
  · intro h
    unfold replay at h
    split at h
    · cases h
    · next story hp =>
      split at h
      · cases h
      · next step telling hr =>
        cases h
        exact ⟨story, step, telling, hp, hr, rfl⟩
  · rintro ⟨story, step, telling, hp, hr, rfl⟩
    simp only [replay, hp, hr]

theorem replay_log (h : replay book seed ds = .ok p) : p.1.seed = seed ∧ p.1.decisions = ds := by
  obtain ⟨story, step, telling, -, -, rfl⟩ := replay_iff.mp h
  exact ⟨rfl, rfl⟩

/-- A choice that is taken after a replay is the next decision of a longer one. -/
theorem replay_choose {s : Session} {b : Boundary} {i : Nat}
    (h : replay book seed ds = .ok p) (hs : s = p.1) (hc : (s.choose i).1 = .ok b) :
    replay book seed (ds ++ [i]) = .ok ((s.choose i).2, b) := by
  obtain ⟨story, step, telling, hp, hr, rfl⟩ := replay_iff.mp h
  subst hs
  unfold choose at hc ⊢
  rcases ht : telling.resume (some i) with ⟨e | step', telling'⟩
  · simp only [ht] at hc
    cases hc
  · simp only [ht] at hc ⊢
    cases hc
    refine replay_iff.mpr ⟨story, step', telling', hp, ?_, rfl⟩
    rw [Telling.replay_append, hr]
    exact Telling.follow_single step ht

theorem undo_snoc {s : Session} {i : Nat} (h : s.decisions = ds ++ [i]) :
    s.undo book = (replay book s.seed ds).map some := by
  unfold undo
  split
  · next hd =>
    rw [hd] at h
    exact absurd h.symm (List.append_ne_nil_of_right_ne_nil ds (List.cons_ne_nil i []))
  · rw [h, List.dropLast_concat]

theorem load_eq {fs : Files} {path : String} {saved : Saved}
    (h : Saved.read fs path = .ok saved) : load fs book path =
      if saved.storyId ≠ book.id then .error (.otherStory book.id saved.storyId)
      else replay book saved.seed saved.decisions := by
  rw [load, h]
  rfl

/-- What was saved is read as long as its file stays as it is. -/
theorem read_save {s : Session} {id path : String} {files files' later : Files}
    (h : s.save id path files = (.ok (), files')) (hl : later.find? path = files'.find? path)
    (hd : ∀ i ∈ s.decisions, i < Text.word64) :
    Saved.read later path = .ok (Saved.ofSession s id) := by
  have hw : Files.write path (Saved.ofSession s id).toJson.pretty files = .ok () files' := by
    unfold save at h
    split at h <;> cases h
    assumption
  rw [Files.find?_write hw] at hl
  have hr : later.read path = .ok (Saved.ofSession s id).toJson.pretty := by
    rw [Files.read, hl]
  have hh : later.holds path = true := by
    rw [Files.holds, hl]
    rfl
  simp only [Saved.read, hh, hr, Saved.ofText?_toJson (s := Saved.ofSession s id) hd]
  rfl

/-- A choice that fails changes nothing but the telling, and that only if it is over. -/
theorem choose_error {s : Session} {i : Nat} {f : Failure} (h : (s.choose i).1 = .error f) :
    (s.choose i).2 = s
      ∨ ∃ telling, telling.isFinished = true ∧ (s.choose i).2 = { s with telling } := by
  unfold choose at h ⊢
  rcases ht : s.telling.resume (some i) with ⟨e | step, telling⟩
  · have he : (s.telling.resume (some i)).1 = .error e := by rw [ht]
    have hr := Telling.resume_error he
    rw [ht] at hr
    rcases hr with rfl | hr
    · exact .inl rfl
    · exact .inr ⟨telling, hr, rfl⟩
  · rw [ht] at h
    cases h

/-- Where a telling is over no choice is taken. -/
theorem choose_over {s : Session} (h : s.telling.isFinished = true) (i : Nat) (b : Boundary) :
    (s.choose i).1 ≠ .ok b := by
  rw [choose, Telling.resume_over h]
  rintro ⟨⟩

end Session

/-! ## Sittings -/

/-- A session on the way, with its book and the boundary that was shown last. -/
structure Sitting where
  book : Book
  session : Session
  shown : Boundary

/-- What a player does with a session. -/
inductive Move
  | choose (index : UInt64)
  | undo
  | restart (seed : Option String) (clock : String)
  | load (files : Files) (path : String)

namespace Sitting

/-- Goes over to another session, if there is one. -/
def goTo (s : Sitting) : Except Failure (Session × Boundary) → Sitting
  | .ok (session, shown) => { s with session, shown }
  | .error _ => s

/-- The sitting after a move. One that fails shows nothing new. -/
def move (s : Sitting) : Move → Sitting
  | .choose i =>
    match s.session.choose i.toNat with
    | (.ok shown, session) => { s with session, shown }
    | (.error _, session) => { s with session }
  | .undo =>
    match s.session.undo s.book with
    | .ok (some p) => s.goTo (.ok p)
    | _ => s
  | .restart seed clock => s.goTo (Session.start s.book seed clock)
  | .load files path => s.goTo (Session.load files s.book path)

/-- The sittings that moves lead to, from a session that was started or opened. -/
inductive Reached : Sitting → Prop
  | started {book : Book} {seed : Option String} {clock : String} {session : Session}
      {shown : Boundary} (h : Session.start book seed clock = .ok (session, shown)) :
      Reached ⟨book, session, shown⟩
  | opened {files : Files} {path : String} {book : Book} {session : Session} {shown : Boundary}
      (h : Session.loadAny files path = .ok (book, session, shown)) :
      Reached ⟨book, session, shown⟩
  | moved {s : Sitting} (h : Reached s) (m : Move) : Reached (s.move m)

/-- Whether a session and a boundary are those of the sitting, as far as they can be seen. -/
def Shows (s : Sitting) (p : Session × Boundary) : Prop :=
  p.1.seed = s.session.seed ∧ p.1.decisions = s.session.decisions ∧ p.2 = s.shown

/-- Replaying the log shows what was shown last. The live telling is the replayed one unless it is
over. -/
structure Logged (s : Sitting) : Prop where
  replays : ∃ p, Session.replay s.book s.session.seed s.session.decisions = .ok p ∧ p.2 = s.shown
    ∧ (s.session = p.1 ∨ s.session.telling.isFinished = true)
  words : ∀ i ∈ s.session.decisions, i < Text.word64

variable {s : Sitting}

theorem logged_of_replay {book : Book} {seed : String} {ds : List Nat} {p : Session × Boundary}
    (h : Session.replay book seed ds = .ok p) (hd : ∀ i ∈ ds, i < Text.word64) :
    Logged ⟨book, p.1, p.2⟩ := by
  obtain ⟨h₁, h₂⟩ := Session.replay_log h
  refine ⟨⟨p, ?_, rfl, .inl rfl⟩, ?_⟩
  · rw [h₁, h₂]
    exact h
  · rw [h₂]
    exact hd

theorem Logged.shows (h : s.Logged) :
    ∃ p, Session.replay s.book s.session.seed s.session.decisions = .ok p ∧ s.Shows p := by
  obtain ⟨p, hp, hb, -⟩ := h.replays
  obtain ⟨h₁, h₂⟩ := Session.replay_log hp
  exact ⟨p, hp, h₁, h₂, hb⟩

/-- A choice that is taken is logged. -/
theorem Logged.chosen (h : s.Logged) {i : UInt64} {b : Boundary}
    (hc : (s.session.choose i.toNat).1 = .ok b) :
    Session.replay s.book s.session.seed (s.session.decisions ++ [i.toNat])
      = .ok ((s.session.choose i.toNat).2, b) := by
  obtain ⟨p, hp, -, ht⟩ := h.replays
  rcases ht with ht | ht
  · exact Session.replay_choose hp ht hc
  · exact absurd hc (Session.choose_over ht i.toNat b)

theorem move_choose_ok {i : UInt64} {b : Boundary} (hc : (s.session.choose i.toNat).1 = .ok b) :
    s.move (.choose i) = ⟨s.book, (s.session.choose i.toNat).2, b⟩ := by
  simp only [move]
  rcases h : s.session.choose i.toNat with ⟨e | b', session⟩
  · rw [h] at hc
    cases hc
  · rw [h] at hc
    cases hc
    rfl

theorem move_choose_error {i : UInt64} {f : Failure}
    (hc : (s.session.choose i.toNat).1 = .error f) :
    s.move (.choose i) = { s with session := (s.session.choose i.toNat).2 } := by
  simp only [move]
  rcases h : s.session.choose i.toNat with ⟨e | b', session⟩
  · rfl
  · rw [h] at hc
    cases hc

/-- A choice is logged if its step comes about; otherwise the log stays as it is. -/
theorem Logged.choose (h : s.Logged) (i : UInt64) : (s.move (.choose i)).Logged := by
  rcases hc : (s.session.choose i.toNat).1 with f | b
  · rw [move_choose_error hc]
    rcases Session.choose_error hc with hs | ⟨telling, ht, hs⟩
    · rw [hs]
      exact h
    · obtain ⟨p, hp, hb, -⟩ := h.replays
      rw [hs]
      exact ⟨⟨p, hp, hb, .inr ht⟩, h.words⟩
  · rw [move_choose_ok hc]
    refine logged_of_replay (h.chosen hc) ?_
    intro j hj
    rcases List.mem_append.mp hj with hj | hj
    · exact h.words j hj
    · rw [List.mem_singleton.mp hj]
      exact i.toNat_lt

theorem Logged.goTo (h : s.Logged) {seed : String} {ds : List Nat}
    (hd : ∀ i ∈ ds, i < Text.word64) : (s.goTo (Session.replay s.book seed ds)).Logged := by
  cases hp : Session.replay s.book seed ds with
  | error f => exact h
  | ok p => exact logged_of_replay hp hd

theorem Logged.undo (h : s.Logged) : (s.move .undo).Logged := by
  simp only [move, Session.undo]
  split
  · next p hu =>
    split at hu
    · cases hu
    · next ds hne =>
      cases hr : Session.replay s.book s.session.seed s.session.decisions.dropLast with
      | error f =>
        rw [hr] at hu
        cases hu
      | ok q =>
        rw [hr] at hu
        cases hu
        exact logged_of_replay hr fun i hi => h.words i (List.mem_of_mem_dropLast hi)
  · exact h

theorem Logged.load (h : s.Logged) (fs : Files) (path : String) :
    (s.move (.load fs path)).Logged := by
  rw [move]
  cases hr : Saved.read fs path with
  | error f =>
    rw [Session.load, hr]
    exact h
  | ok saved =>
    rw [Session.load_eq hr]
    split
    · exact h
    · exact h.goTo (Saved.read_lt hr)

/-- What one move keeps. -/
theorem Logged.move (h : s.Logged) : ∀ m, (s.move m).Logged
  | .choose i => h.choose i
  | .undo => h.undo
  | .restart _ _ => by
    rw [Sitting.move, Session.start]
    exact h.goTo fun _ hi => absurd hi List.not_mem_nil
  | .load fs path => h.load fs path

theorem logged_of_loadAny {fs : Files} {path : String} {book : Book} {session : Session}
    {shown : Boundary} (h : Session.loadAny fs path = .ok (book, session, shown)) :
    Logged ⟨book, session, shown⟩ := by
  simp only [Session.loadAny, bind, Except.bind] at h
  split at h
  · cases h
  · next saved hs =>
    split at h
    · cases h
    · split at h
      · cases h
      · next p hp =>
        cases h
        exact logged_of_replay hp (Saved.read_lt hs)

/-- What moves keep. -/
theorem Reached.logged (h : s.Reached) : s.Logged := by
  induction h with
  | started h => exact logged_of_replay h fun _ hi => absurd hi List.not_mem_nil
  | opened h => exact logged_of_loadAny h
  | moved _ m ih => exact ih.move m

/-- A session that is saved is loaded again, as long as its file stays as it is. -/
theorem Logged.load_save (h : s.Logged) {path : String} {files files' later : Files}
    (hs : s.session.save s.book.id path files = (.ok (), files'))
    (hl : later.find? path = files'.find? path) :
    ∃ p, Session.load later s.book path = .ok p ∧ s.Shows p := by
  obtain ⟨p, hp, hv⟩ := h.shows
  refine ⟨p, ?_, hv⟩
  rw [Session.load_eq (Session.read_save hs hl h.words), if_neg (fun hne => hne rfl)]
  exact hp

/-- After a choice was taken, undoing it shows what was shown before. -/
theorem Logged.undo_choose (h : s.Logged) {i : UInt64} {b : Boundary}
    (hc : (s.session.choose i.toNat).1 = .ok b) :
    ∃ p, (s.move (.choose i)).session.undo s.book = .ok (some p) ∧ s.Shows p := by
  obtain ⟨h₁, h₂⟩ := Session.replay_log (h.chosen hc)
  obtain ⟨p, hp, hv⟩ := h.shows
  refine ⟨p, ?_, hv⟩
  rw [move_choose_ok hc, Session.undo_snoc h₂, h₁, hp]
  rfl

/-- After any moves, replaying the log from scratch, loading what was just saved, and undoing the
choice that comes next all bring back the seed, the decisions and the boundary shown last. -/
theorem log_brings_back (h : s.Reached) :
    (∃ p, Session.replay s.book s.session.seed s.session.decisions = .ok p ∧ s.Shows p)
      ∧ (∀ path files files' later, s.session.save s.book.id path files = (.ok (), files') →
        later.find? path = files'.find? path →
          ∃ p, Session.load later s.book path = .ok p ∧ s.Shows p)
      ∧ ∀ (i : UInt64) b, (s.session.choose i.toNat).1 = .ok b →
        ∃ p, (s.move (.choose i)).session.undo s.book = .ok (some p) ∧ s.Shows p :=
  ⟨h.logged.shows, fun _ _ _ _ hs hl => h.logged.load_save hs hl,
    fun _ _ hc => h.logged.undo_choose hc⟩

/-- A book that goes on as long as its reader likes. -/
def again : Book :=
  ⟨"again", "again", "WTCD 1.0 section s then selection[choice \"on\"goto s choice \"off\"exit]"⟩

theorem log_brings_back_again : ∃ s : Sitting, s.Reached ∧ s.session.decisions = [0, 0]
    ∧ (∃ p, Session.replay s.book s.session.seed s.session.decisions = .ok p ∧ s.Shows p)
    ∧ (∃ files p, s.session.save s.book.id "state" (.ofDirectory "/play") = (.ok (), files)
      ∧ Session.load files s.book "state" = .ok p ∧ s.Shows p)
    ∧ ∃ b p, (s.session.choose 1).1 = .ok b
      ∧ (s.move (.choose 1)).session.undo s.book = .ok (some p) ∧ s.Shows p := by
  let twice (p : Session × Boundary) : Sitting :=
    ((⟨again, p.1, p.2⟩ : Sitting).move (.choose 0)).move (.choose 0)
  let save (p : Session × Boundary) :=
    (twice p).session.save (twice p).book.id "state" (.ofDirectory "/play")
  have h : (Session.start again "seed").toOption.map (fun p => ((twice p).session.decisions,
      (save p).1.isOk, ((twice p).session.choose 1).1.isOk)) = some ([0, 0], true, true) := by
    rw [Session.start, Session.replay, Document.parse_eq_ofChars]
    decide +kernel
  rcases hs : Session.start again "seed" with f | p <;> rw [hs] at h
  · cases h
  · simp only [Except.toOption, Option.map_some, Option.some.injEq, Prod.mk.injEq] at h
    obtain ⟨hd, hw, hc⟩ := h
    have hr : (twice p).Reached := ((Reached.started hs).moved _).moved _
    obtain ⟨h₁, h₂, h₃⟩ := log_brings_back hr
    rcases hf : save p with ⟨f | u, files⟩ <;> rw [hf] at hw
    · cases hw
    rcases hb : ((twice p).session.choose 1).1 with f | b <;> rw [hb] at hc
    · cases hc
    obtain ⟨q, hq⟩ := h₂ _ _ files files hf rfl
    obtain ⟨r, hr'⟩ := h₃ 1 b hb
    exact ⟨twice p, hr, hd, h₁, ⟨files, q, hf, hq⟩, b, r, hb, hr'⟩

end Sitting

/-! ## Playing by lines -/

namespace Lines

theorem numeral?_lt {limit n : Nat} {s : List Char} (h : Text.numeral? limit s = some n) :
    n < limit := by
  simp only [Text.numeral?] at h
  split at h
  · cases h
  · split at h
    · cases h
      assumption
    · cases h

end Lines

namespace Sitting

variable {s : Sitting} {c : Context}

@[simp]
theorem goTo_book (r : Except Failure (Session × Boundary)) : (s.goTo r).book = s.book := by
  cases r <;> rfl

@[simp]
theorem move_book (m : Move) : (s.move m).book = s.book := by
  cases m with
  | choose i =>
    simp only [move]
    split <;> rfl
  | undo =>
    simp only [move]
    split <;> simp
  | restart seed clock => exact goTo_book _
  | load files path => exact goTo_book _

/-- Whether a turn leaves the session of a sitting behind, and shows its boundary if that is not
the one shown before. -/
def Follows (s s' : Sitting) (t : Lines.Turn) : Prop :=
  (s' = s ∨ ∃ m, s' = s.move m) ∧ t.session = s'.session
    ∧ (s'.shown = s.shown ∨ ∃ before, t.output = before ++ Lines.present s'.shown)

theorem follows_moveTo {m : Move} {files : Files} {done : String}
    {r : Except Failure (Session × Boundary)} (h : s.move m = s.goTo r) :
    ∃ s', s.Follows s' (Lines.moveTo s.session files done r) := by
  cases r with
  | error f => exact ⟨s, .inl rfl, rfl, .inl rfl⟩
  | ok p => exact ⟨s.move m, .inr ⟨m, rfl⟩, by rw [h]; rfl, .inr ⟨_, by rw [h]; rfl⟩⟩

theorem follows_choose (i : UInt64) (files : Files) :
    ∃ s', s.Follows s' (Lines.choose s.session files i.toNat) := by
  refine ⟨s.move (.choose i), .inr ⟨_, rfl⟩, ?_⟩
  unfold Lines.choose
  split
  · next b session hc =>
    rw [move_choose_ok (congrArg Prod.fst hc), hc]
    exact ⟨rfl, .inr ⟨[], rfl⟩⟩
  · next j session hc =>
    rw [move_choose_error (congrArg Prod.fst hc), hc]
    exact ⟨rfl, .inl rfl⟩
  · next f session _ hc =>
    rw [move_choose_error (congrArg Prod.fst hc), hc]
    exact ⟨rfl, .inl rfl⟩

/-- Whatever the line, the player makes a move or none. -/
theorem respond_follows (hb : s.book = c.book) (files : Files) (raw clock : String) :
    ∃ s', s.Follows s' (Lines.respond c s.session files raw clock) := by
  have hs : ∀ {files output ending}, s.Follows s ⟨s.session, files, output, ending⟩ :=
    ⟨.inl rfl, rfl, .inl rfl⟩
  unfold Lines.respond
  split
  · exact ⟨s, hs⟩
  · split <;> exact ⟨s, hs⟩
  · exact follows_moveTo (m := .load files c.stateFile) (by rw [move, hb])
  · split
    · exact ⟨s, hs⟩
    · next session b hu =>
      rw [← hb] at hu
      exact follows_moveTo (m := .undo) (r := .ok (session, b)) (by simp only [move, hu])
    · exact ⟨s, hs⟩
  · exact follows_moveTo (m := .restart c.seed clock) (by rw [move, hb])
  · exact ⟨s, hs⟩
  · split
    · next i hi =>
      have hn : (UInt64.ofNat i).toNat = i :=
        UInt64.toNat_ofNat_of_lt' (Lines.numeral?_lt hi)
      exact hn ▸ follows_choose (UInt64.ofNat i) files
    · exact ⟨s, hs⟩

/-- Whatever the lines, a play ends in a session that moves lead to. -/
theorem goOn_reached (lines : List (List Char)) (output : String) (t : Lines.Turn)
    (clock : Nat → String) (hr : s.Reached) (hb : s.book = c.book) (hs : t.session = s.session) :
    ∃ s' : Sitting, s'.Reached ∧ s'.book = c.book
      ∧ (Lines.goOn c lines output t clock).session = s'.session := by
  induction lines generalizing output s t clock with
  | nil =>
    unfold Lines.goOn
    cases t.ending <;> exact ⟨s, hr, hb, hs⟩
  | cons line rest ih =>
    unfold Lines.goOn
    cases t.ending with
    | some ending => exact ⟨s, hr, hb, hs⟩
    | none =>
      obtain ⟨s', hm, ht, -⟩ := respond_follows hb t.files (Lines.withoutEnd line) (clock 0)
      have hr' : s'.Reached ∧ s'.book = c.book := by
        rcases hm with rfl | ⟨m, rfl⟩
        · exact ⟨hr, hb⟩
        · exact ⟨hr.moved m, (move_book m).trans hb⟩
      rw [hs]
      exact ih _ _ _ hr'.1 hr'.2 ht

/-- Whatever is read during a play, the log of the session that it leaves can be replayed. -/
theorem run_replays {session : Session} {b : Boundary} {now : String}
    (h : Session.start c.book c.seed now = .ok (session, b)) (files : Files) (input : String)
    (clock : Nat → String) :
    let after := (Lines.run c session files b input clock).session
    ∃ p, Session.replay c.book after.seed after.decisions = .ok p := by
  obtain ⟨s, hr, hb, hs⟩ := goOn_reached (c := c) (Lines.inputLines input) ""
    (Lines.arrive session files (Lines.greeting c) b) clock (.started h) rfl rfl
  obtain ⟨p, hp, -⟩ := hr.logged.shows
  refine ⟨p, ?_⟩
  rw [Lines.run, hs, ← hb]
  exact hp

end Sitting

end Player

end Tale
