import Tale.Language.Parser.Logic
import Tale.Proofs.FreeNames

/-!
# What reading does to the names in sight

While a document is read, names are looked up and names are declared. `Traced ss xs ns ss'` says
that scopes `ss` became `ss'` by looking up the names `xs`, all of which were in sight, and
declaring the names `ns` in the innermost scope. Looking a name up only adds captures, so such
passages compose: what is looked up later and was not declared in between could have been looked
up in the first place.

`Reads` is what holds of the outcome of a parser that succeeds.
-/

namespace Tale

namespace LexicalScopes

/-- The names in sight. -/
def names (ss : LexicalScopes) : List String :=
  ss.flatMap (·.declared)

/-- The scopes after names were looked up one after the other. -/
def resolveAll (xs : List String) (ss : LexicalScopes) : LexicalScopes :=
  xs.foldl (fun ss x => (ss.resolve x).2) ss

end LexicalScopes

def LexicalScope.captureAll (xs : List String) (s : LexicalScope) : LexicalScope :=
  xs.foldl capture s

namespace LexicalScope

@[simp]
theorem capture_declared (s : LexicalScope) (x : String) : (s.capture x).declared = s.declared :=
  rfl

@[simp]
theorem captureAll_declared : ∀ (xs : List String) (s : LexicalScope),
    (s.captureAll xs).declared = s.declared
  | [], _ => rfl
  | x :: xs, s => captureAll_declared xs (s.capture x)

theorem captureAll_loop : ∀ (xs cs : List String) (s : LexicalScope), s.captures = some cs.reverse →
    (s.captureAll xs).captures = some (List.eraseDupsBy.loop (· == ·) xs cs)
  | [], _, _, h => h
  | x :: xs, cs, s, h => by
    have hx : (s.capture x).captures
        = some (if cs.contains x then cs.reverse else (x :: cs).reverse) := by
      simp [capture, h]
    rw [List.eraseDupsBy.loop, List.any_beq]
    cases hc : cs.contains x <;> rw [hc] at hx
    · exact captureAll_loop xs (x :: cs) (s.capture x) hx
    · exact captureAll_loop xs cs (s.capture x) hx

/-- Captures come in the order of their first use. -/
theorem captureAll_captures {s : LexicalScope} (h : s.captures = some []) (xs : List String) :
    (s.captureAll xs).captures = some xs.eraseDups :=
  captureAll_loop xs [] s h

end LexicalScope

namespace LexicalScopes

theorem resolve_found {x : String} : ∀ {ss : LexicalScopes}, (ss.resolve x).1 = true → x ∈ ss.names
  | [], h => by simp [resolve] at h
  | s :: ss, h => by
    rw [names, List.flatMap_cons, List.mem_append]
    simp only [resolve] at h
    split at h
    · exact .inl (List.contains_iff_mem.mp ‹_›)
    · exact .inr (resolve_found h)

theorem resolve_names (x : String) : ∀ ss : LexicalScopes, (ss.resolve x).2.names = ss.names
  | [] => rfl
  | s :: ss => by
    simp only [resolve]
    split
    · rfl
    · simpa [names] using resolve_names x ss

@[simp]
theorem resolveAll_names : ∀ (xs : List String) (ss : LexicalScopes),
    (ss.resolveAll xs).names = ss.names
  | [], _ => rfl
  | x :: xs, ss => (resolveAll_names xs (ss.resolve x).2).trans (resolve_names x ss)

theorem resolveAll_append (xs ys : List String) (ss : LexicalScopes) :
    ss.resolveAll (xs ++ ys) = (ss.resolveAll xs).resolveAll ys :=
  List.foldl_append

@[simp]
theorem resolveAll_nil : ∀ xs : List String, resolveAll xs [] = []
  | [] => rfl
  | _ :: xs => resolveAll_nil xs

/-- Only what is not declared in a scope is captured by it and looked up further out. -/
theorem resolveAll_cons : ∀ (xs : List String) (s : LexicalScope) (ss : LexicalScopes),
    resolveAll xs (s :: ss)
      = s.captureAll (xs.removeAll s.declared) :: resolveAll (xs.removeAll s.declared) ss
  | [], _, _ => rfl
  | x :: xs, s, ss => by
    rw [resolveAll, List.foldl_cons, ← resolveAll]
    by_cases hx : x ∈ s.declared
    · rw [show (resolve x (s :: ss)).2 = s :: ss by simp [resolve, hx], resolveAll_cons xs s ss]
      simp [List.removeAll, hx]
    · rw [show (resolve x (s :: ss)).2 = s.capture x :: (resolve x ss).2 by simp [resolve, hx],
        resolveAll_cons xs]
      simp [List.removeAll, hx, LexicalScope.captureAll, resolveAll]

theorem declareAll_cons : ∀ (ns : List String) (s : LexicalScope) (ss : LexicalScopes),
    declareAll ns (s :: ss) = { s with declared := ns.reverse ++ s.declared } :: ss
  | [], _, _ => rfl
  | n :: ns, s, ss => by
    rw [declareAll, List.foldl_cons, ← declareAll, declare, declareAll_cons ns]
    simp

@[simp]
theorem declareAll_nil : ∀ ns : List String, declareAll ns [] = []
  | [] => rfl
  | _ :: ns => declareAll_nil ns

theorem declareAll_append (ns ms : List String) (ss : LexicalScopes) :
    ss.declareAll (ns ++ ms) = (ss.declareAll ns).declareAll ms :=
  List.foldl_append

theorem declareAll_names (ns : List String) : ∀ ss : LexicalScopes,
    (ss.declareAll ns).names ⊆ ns ++ ss.names
  | [] => by simp [names]
  | s :: ss => by
    rw [declareAll_cons]
    simp [names, List.subset_def]

theorem captureAll_declare (ds : List String) : ∀ (xs : List String) (s : LexicalScope),
    LexicalScope.captureAll xs { s with declared := ds }
      = { s.captureAll xs with declared := ds }
  | [], _ => rfl
  | x :: xs, s => captureAll_declare ds xs (s.capture x)

/-- What was not declared just now could have been looked up before. -/
theorem resolveAll_declareAll (xs ns : List String) : ∀ ss : LexicalScopes,
    (ss.declareAll ns).resolveAll xs = (ss.resolveAll (xs.removeAll ns)).declareAll ns
  | [] => by simp
  | s :: ss => by
    have h : xs.removeAll (ns.reverse ++ s.declared) = (xs.removeAll ns).removeAll s.declared := by
      simp [List.removeAll, List.filter_filter, Bool.and_comm]
    rw [declareAll_cons, resolveAll_cons, resolveAll_cons, declareAll_cons, captureAll_declare]
    simp only [h, LexicalScope.captureAll_declared]

end LexicalScopes

open Grammar (switchName)

/-- A passage of reading. No name that is written in a document is that of the parameter of a
switch. -/
structure Traced (ss : LexicalScopes) (xs ns : List String) (ss' : LexicalScopes) : Prop where
  sighted : xs ⊆ ss.names
  written : switchName ∉ xs
  scopes : ss' = (ss.resolveAll xs).declareAll ns

namespace Traced

variable {ss ss₁ ss₂ : LexicalScopes} {xs ys ns ms : List String}

theorem refl (ss : LexicalScopes) : Traced ss [] [] ss :=
  ⟨by simp, by simp, rfl⟩

theorem declared (ns : List String) (ss : LexicalScopes) : Traced ss [] ns (ss.declareAll ns) :=
  ⟨by simp, by simp, rfl⟩

theorem bind (h : Traced ss xs ns ss₁) (h' : Traced ss₁ ys ms ss₂) :
    Traced ss (xs ++ ys.removeAll ns) (ns ++ ms) ss₂ where
  sighted := by
    refine List.append_subset.mpr ⟨h.sighted, removeAll_subset_iff.mpr ?_⟩
    refine List.Subset.trans h'.sighted ?_
    rw [h.scopes]
    simpa using LexicalScopes.declareAll_names ns (ss.resolveAll xs)
  written := by
    have := h.written
    have := h'.written
    simp_all [List.removeAll]
  scopes := by
    rw [h'.scopes, h.scopes, LexicalScopes.resolveAll_declareAll, LexicalScopes.resolveAll_append,
      LexicalScopes.declareAll_append]

/-- Where nothing is declared, one looks up after the other. -/
theorem trans (h : Traced ss xs [] ss₁) (h' : Traced ss₁ ys [] ss₂) :
    Traced ss (xs ++ ys) [] ss₂ := by
  simpa using h.bind h'

theorem names (h : Traced ss xs ns ss₁) : ss₁.names ⊆ ns ++ ss.names := by
  rw [h.scopes]
  simpa using LexicalScopes.declareAll_names ns (ss.resolveAll xs)

/-- A scope in which nothing was declared at first lets all lookups pass. -/
theorem exit {s : LexicalScope} (hs : s.declared = []) (h : Traced (s :: ss) xs ns ss₁) :
    Traced ss xs [] ss₁.exit where
  sighted := by
    have := h.sighted
    rwa [LexicalScopes.names, List.flatMap_cons, hs, List.nil_append] at this
  written := h.written
  scopes := by
    rw [h.scopes, LexicalScopes.resolveAll_cons, LexicalScopes.declareAll_cons, hs]
    simp [LexicalScopes.exit, LexicalScopes.declareAll]

theorem captures {s : LexicalScope} (hs : s.declared = []) (hc : s.captures = some [])
    (h : Traced (s :: ss) xs ns ss₁) : ss₁.captures = xs.eraseDups := by
  rw [h.scopes, LexicalScopes.resolveAll_cons, LexicalScopes.declareAll_cons, hs]
  simp [LexicalScopes.captures, LexicalScope.captureAll_captures hc]

end Traced

/-! ## Parsers -/

/-- An identifier, unlike the parameter of a switch, begins like a name. -/
def Token.Named (t : Token) : Prop :=
  t.kind = .identifier → t.content ≠ switchName

def Reading.Named (r : Reading) : Prop :=
  ∀ t ∈ r.tokens, t.Named

/-- What holds of a result, and of the scopes then, of a parser that starts with scopes `ss` and
does not fail. -/
def Reads {α : Type} (ss : LexicalScopes) (p : Parser α) (Q : α → LexicalScopes → Prop) : Prop :=
  ∀ r, r.Named → r.scopes = ss → ∀ a r', p r = .ok (a, r') → r'.Named ∧ Q a r'.scopes

/-- A parser that looks nothing up and declares nothing. -/
def Passes {α : Type} (p : Parser α) (V : α → Prop) : Prop :=
  ∀ ss, Reads ss p fun a ss' => V a ∧ ss' = ss

variable {α β : Type}

namespace Reads

variable {ss : LexicalScopes} {p : Parser α} {Q : α → LexicalScopes → Prop}
  {R : β → LexicalScopes → Prop}

theorem bind {f : α → Parser β} (h : Reads ss p Q) (hf : ∀ a ss', Q a ss' → Reads ss' (f a) R) :
    Reads ss (p >>= f) R := by
  intro r hr hs b r'' hb
  simp only [Bind.bind, StateT.bind, Except.bind] at hb
  split at hb
  · cases hb
  · obtain ⟨hr', hq⟩ := h r hr hs _ _ ‹_›
    exact hf _ _ hq _ hr' rfl b r'' hb

theorem mono {Q' : α → LexicalScopes → Prop} (h : Reads ss p Q) (hq : ∀ a ss', Q a ss' → Q' a ss') :
    Reads ss p Q' := by
  intro r hr hs a r' ha
  obtain ⟨hr', hq'⟩ := h r hr hs a r' ha
  exact ⟨hr', hq _ _ hq'⟩

theorem pure {a : α} (h : Q a ss) : Reads ss (pure a) Q := by
  rintro r hr rfl b r' hb
  cases hb
  exact ⟨hr, h⟩

theorem throw {e : SourceError} : Reads ss (throw e : Parser α) Q := by
  intro r hr hs a r' ha
  cases ha

theorem map {f : α → β} (h : Reads ss p Q) (hf : ∀ a ss', Q a ss' → R (f a) ss') :
    Reads ss (f <$> p) R :=
  bind h fun _ _ hq => pure (hf _ _ hq)

theorem get_bind {f : Reading → Parser α} (h : ∀ r, r.Named → r.scopes = ss → Reads ss (f r) Q) :
    Reads ss (get >>= f) Q :=
  fun r hr hs => h r hr hs r hr hs

theorem modifyScopes {f : LexicalScopes → LexicalScopes} {Q : Unit → LexicalScopes → Prop}
    (h : Q () (f ss)) : Reads ss (Parser.modifyScopes f) Q := by
  rintro r hr rfl _ _ ⟨⟩
  exact ⟨hr, h⟩

/-- What does not touch the scopes may go first. -/
theorem pass {q : Parser β} {V : β → Prop} {f : β → Parser α} (h : Passes q V)
    (hf : ∀ b, V b → Reads ss (f b) Q) : Reads ss (q >>= f) Q :=
  bind (h ss) fun b _ hb => hb.2 ▸ hf b hb.1

/-- A parser that fails first if it has to. -/
theorem guard {c : Prop} [Decidable c] {q : Parser PUnit} {k : PUnit → Parser α}
    (hq : Passes q fun _ => False) (h : ¬ c → Reads ss (k ⟨⟩) Q) :
    Reads ss (if c then q >>= k else k ⟨⟩) Q := by
  split
  · exact pass hq fun _ hf => hf.elim
  · exact h ‹_›

theorem of_passes {V : α → Prop} (h : Passes p V) (hq : ∀ a, V a → Q a ss) : Reads ss p Q :=
  (h ss).mono fun a _ ha => ha.2 ▸ hq a ha.1

end Reads

namespace Passes

variable {V : α → Prop} {U : β → Prop} {p : Parser α}

theorem pure {a : α} (h : V a) : Passes (pure a) V :=
  fun _ => .pure ⟨h, rfl⟩

theorem throw {e : SourceError} : Passes (throw e : Parser α) V :=
  fun _ => .throw

theorem bind {f : α → Parser β} (h : Passes p V) (hf : ∀ a, V a → Passes (f a) U) :
    Passes (p >>= f) U :=
  fun ss => .pass h fun a ha => hf a ha ss

theorem get_bind {f : Reading → Parser α} (h : ∀ r, r.Named → Passes (f r) V) :
    Passes (get >>= f) V :=
  fun ss => .get_bind fun r hr _ => h r hr ss

end Passes

end Tale
