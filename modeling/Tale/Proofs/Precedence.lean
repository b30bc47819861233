import Tale.Proofs.Pace

/-!
# How operators group

An expression without brackets around its operators is a row of operands with an operator between
any two. Many trees read the same from left to right; the one that is meant has no looser operator
below a tighter one, and on the right none of the same level (`OperatorTree.Ordered`). There is no
more than one such tree (`OperatorTree.Ordered.unique`), and this is what is read
(`Grammar.operand_joined`).
-/

namespace Tale

variable {α β : Type}

theorem BinaryOp.precedence_pos (op : BinaryOp) : 0 < op.precedence := by
  cases op <;> decide

/-! ## Trees of operators -/

/-- An operator between two operands, and the one after it. -/
structure Link where
  token : Token
  op : BinaryOp
  operand : Expr Unit

/-- Operands joined by operators. -/
inductive OperatorTree
  | leaf (e : Expr Unit)
  | node (token : Token) (op : BinaryOp) (left right : OperatorTree)

namespace OperatorTree

/-- The operand on the left of all operators. -/
def first : OperatorTree → Expr Unit
  | leaf e => e
  | node _ _ left _ => left.first

/-- The operators from left to right, each with the operand after it. -/
def links : OperatorTree → List Link
  | leaf _ => []
  | node token op left right => left.links ++ ⟨token, op, right.first⟩ :: right.links

def root? : OperatorTree → Option BinaryOp
  | leaf _ => none
  | node _ op _ _ => some op

/-- No operator has a looser one below it, nor one as loose on its right. -/
def Ordered : OperatorTree → Prop
  | leaf _ => True
  | node _ op left right => (∀ o ∈ left.root?, op.precedence ≤ o.precedence)
      ∧ (∀ o ∈ right.root?, op.precedence < o.precedence) ∧ left.Ordered ∧ right.Ordered

/-- The expression that a tree stands for. Each operation has the place of its operator. -/
def expr (mapped : Bool) : OperatorTree → Expr Unit
  | leaf e => e
  | node token op left right => ⟨.binary op (left.expr mapped) (right.expr mapped),
      if mapped then some token.location else none⟩

/-- Of two places to part a row, neither is before the other if only tighter operators come after
the one and none looser comes before the other. -/
theorem length_le_of_parted {as bs as' bs' : List Link} {l l' : Link}
    (h : as ++ l :: bs = as' ++ l' :: bs')
    (hb : ∀ b ∈ bs, l.op.precedence < b.op.precedence)
    (ha : ∀ a ∈ as', l'.op.precedence ≤ a.op.precedence) : as'.length ≤ as.length := by
  rcases List.append_eq_append_iff.mp h with ⟨cs, rfl, hcs⟩ | ⟨cs, rfl, -⟩
  · rcases cs with _ | ⟨c, cs⟩
    · simp
    · obtain ⟨rfl, rfl⟩ := List.cons.inj hcs
      have hl := ha l (by simp)
      have hl' := hb l' (by simp)
      omega
  · rw [List.length_append]
    exact Nat.le_add_right _ _

namespace Ordered

variable {tree tree' : OperatorTree}

/-- The root is one of the loosest operators. -/
theorem le_links (h : tree.Ordered) {n : Nat} (hn : ∀ o ∈ tree.root?, n ≤ o.precedence) :
    ∀ link ∈ tree.links, n ≤ link.op.precedence := by
  induction tree generalizing n with
  | leaf e => exact nofun
  | node token op left right hl hr =>
    obtain ⟨hleft, hright, hol, hor⟩ := h
    have hop : n ≤ op.precedence := hn op rfl
    refine List.forall_mem_append.mpr ⟨?_, List.forall_mem_cons.mpr ⟨hop, ?_⟩⟩
    · exact hl hol fun o ho => Nat.le_trans hop (hleft o ho)
    · exact hr hor fun o ho => Nat.le_trans hop (Nat.le_of_lt (hright o ho))

/-- A row of operands and operators has one tree: its root is the last of the loosest operators. -/
theorem unique (h : tree.Ordered) (h' : tree'.Ordered) (hf : tree.first = tree'.first)
    (hl : tree.links = tree'.links) : tree = tree' := by
  induction tree generalizing tree' with
  | leaf e =>
    cases tree' with
    | leaf e' => exact congrArg leaf hf
    | node => exact absurd hl.symm (List.append_ne_nil_of_right_ne_nil _ (List.cons_ne_nil _ _))
  | node token op left right ihl ihr =>
    cases tree' with
    | leaf e' => exact absurd hl (List.append_ne_nil_of_right_ne_nil _ (List.cons_ne_nil _ _))
    | node token' op' left' right' =>
      obtain ⟨hleft, hright, hol, hor⟩ := h
      obtain ⟨hleft', hright', hol', hor'⟩ := h'
      have hlength : left.links.length = left'.links.length := Nat.le_antisymm
        (length_le_of_parted hl.symm (hor'.le_links hright') (hol.le_links hleft))
        (length_le_of_parted hl (hor.le_links hright) (hol'.le_links hleft'))
      obtain ⟨hll, hr⟩ := List.append_inj hl hlength
      obtain ⟨hlink, hrl⟩ := List.cons.inj hr
      obtain ⟨rfl, rfl, hrf⟩ := Link.mk.inj hlink
      rw [ihl hol hol' hf hll, ihr hor hor' hrf hrl]

end Ordered

/-! ## Climbing -/

/-- A tree takes up the operators after it as long as these bind tighter than `min`. What comes
after an operator is first read up to the next one that binds no tighter than it. -/
inductive Climbs : (tree : OperatorTree) → (min : Nat) → (links : List Link) →
    (tree' : OperatorTree) → (links' : List Link) → Prop
  | stop {tree : OperatorTree} {min : Nat} {links : List Link}
    (h : ∀ link ∈ links.head?, link.op.precedence ≤ min) : Climbs tree min links tree links
  | step {tree right tree' : OperatorTree} {min : Nat} {link : Link}
    {links links₁ links₂ : List Link} (h : min < link.op.precedence)
    (hr : Climbs (leaf link.operand) link.op.precedence links right links₁)
    (ht : Climbs (node link.token link.op tree right) min links₁ tree' links₂) :
    Climbs tree min (link :: links) tree' links₂

/-- What is taken up is put in order. -/
theorem Climbs.ordered {tree tree' : OperatorTree} {min : Nat} {links links' : List Link}
    (h : Climbs tree min links tree' links') (ho : tree.Ordered)
    (hl : ∀ link ∈ links.head?, ∀ o ∈ tree.root?, link.op.precedence ≤ o.precedence)
    (hm : ∀ o ∈ tree.root?, min < o.precedence) :
    tree'.Ordered ∧ (∀ o ∈ tree'.root?, min < o.precedence)
      ∧ (∀ link ∈ links'.head?, link.op.precedence ≤ min)
      ∧ tree'.first = tree.first ∧ tree'.links ++ links' = tree.links ++ links := by
  induction h with
  | stop h => exact ⟨ho, hm, h, rfl, rfl⟩
  | @step tree right tree' min link links links₁ links₂ h hr ht ihr iht =>
    obtain ⟨hor, hmr, hlr, hfr, hlinks⟩ := ihr trivial (fun _ _ => nofun) nofun
    have hnode : (node link.token link.op tree right).Ordered := ⟨hl link rfl, hmr, ho, hor⟩
    obtain ⟨ho', hm', hl', hf', hlinks'⟩ := iht hnode
      (fun l hl o ho => by cases ho; exact hlr l hl) (fun o ho => by cases ho; exact h)
    refine ⟨ho', hm', hl', hf', hlinks'.trans ?_⟩
    have hlinks : right.links ++ links₁ = links := hlinks
    have hfr : right.first = link.operand := hfr
    simp only [OperatorTree.links, List.append_assoc, List.cons_append, hlinks, hfr]

end OperatorTree

/-! ## Operands that end by themselves -/

/-- A text goes on, or at least can be read to its end. -/
def Readable (rest : List Token) (ending : Except SourceError Location) : Prop :=
  rest = [] → ∃ location, ending = .ok location

/-- A parser that takes no tokens, and does not ask for any. -/
def Still (p : Parser α) : Prop :=
  ∀ r a r', p r = .ok (a, r') →
    r'.tokens = r.tokens ∧ ∀ s, p (r.followed s) = .ok (a, r'.followed s)

/-- What takes all that is there, and something is, takes just this if more follows. Less than
`k + d` is left where `k` bounds the levels and the turns. -/
def Shuts (d : Nat) (p : Production α) : Prop :=
  ∀ ⦃r r' : Reading⦄ ⦃a : α⦄ ⦃k n : Nat⦄ ⦃rest : List Token⦄
    ⦃ending : Except SourceError Location⦄, r.left < k + d →
    p (Grammar.operand k) k r = .ok (a, r') → r'.tokens = [] → Readable rest ending →
    r.left + rest.length < n + d →
      r.tokens ≠ [] ∧ p (Grammar.operand n) n (r.followed (some (rest, ending)))
        = .ok (a, r'.followed (some (rest, ending)))

/-- A production with tokens to spare comes to the same if more follow. -/
theorem Paced.followed {p : Production α} {d b : Nat} (h : ∀ n, Paced (n + d) n b p)
    {r r' : Reading} {a : α} {k : Nat} (hk : r.left < k + d)
    (ha : p (Grammar.operand k) k r = .ok (a, r')) :
    r'.left + b ≤ r.left ∧ r'.mapped = r.mapped
      ∧ (r'.tokens ≠ [] → ∀ {rest ending n}, r.left + rest.length < n + d →
        p (Grammar.operand n) n (r.followed (some (rest, ending)))
          = .ok (a, r'.followed (some (rest, ending)))) := by
  obtain ⟨x, cs, hx⟩ := h (r.left + 1 - d) r (by omega)
  obtain rfl : x = .ok (a, r') := by
    refine (hx.run (by omega) (.operand hx.decreasing fun c hc => ?_)).symm.trans ha
    have := (hx.within c hc).2
    omega
  refine ⟨(hx.takes a r' rfl).1, (hx.keeps a r' rfl).2, fun hne rest ending n hn => ?_⟩
  refine hx.runs _ (.inr ⟨a, r', rfl, hne⟩) _ n (by omega) (.operand ?_ ?_)
  · refine List.pairwise_map.mpr (hx.decreasing.imp fun {c d} hcd => ?_)
    simp only [Call.followed, Reading.left_followed]
    exact Nat.add_lt_add_right hcd _
  · refine List.forall_mem_map.mpr fun c hc => ?_
    have := (hx.within c hc).2
    simp only [Call.followed, Reading.left_followed, Option.elim_some]
    omega

namespace Shuts

variable {d b : Nat} {p : Production α}

theorem bind {q : Production β} {f : β → Production α} (hd : d ≤ b)
    (hq : ∀ n, Paced (n + d) n b q) (hf : ∀ v, Shuts 0 (f v)) :
    Shuts d fun sub turns => q sub turns >>= fun v => f v sub turns := by
  intro r r' a k n rest ending hk ha ht hr hn
  simp only [Bind.bind, StateT.bind, Except.bind] at ha ⊢
  split at ha
  · cases ha
  · rename_i v hv
    obtain ⟨hl, -, hfollowed⟩ := Paced.followed hq hk hv
    obtain ⟨hne, hshut⟩ := hf v.1 (n := n) (by omega) ha ht hr (by omega)
    have hpos : 0 < v.2.left := List.length_pos_iff.mpr hne
    rw [hfollowed hne hn]
    exact ⟨List.ne_nil_of_length_pos (Nat.lt_of_lt_of_le hpos (Nat.le_of_add_right_le hl)), hshut⟩

/-- What is left to do when all is taken. -/
theorem still {k : α → Parser β} (h : Shuts d p) (hk : ∀ a, Still (k a)) :
    Shuts d fun sub turns => p sub turns >>= k := by
  intro r r' a n₁ n rest ending hk₁ ha ht hr hn
  simp only [Bind.bind, StateT.bind, Except.bind] at ha ⊢
  split at ha
  · cases ha
  · rename_i v hv
    obtain ⟨ht', hfollowed⟩ := hk v.1 v.2 a r' ha
    obtain ⟨hne, hshut⟩ := h hk₁ hv (ht'.symm.trans ht) hr hn
    rw [hshut]
    exact ⟨hne, hfollowed _⟩

theorem next : Shuts d fun _ _ => Parser.next := by
  rintro ⟨_ | ⟨t, _ | ⟨u, ts⟩⟩, e | l, mapped, scopes, targets⟩ r' a k n rest ending - ha ht hr -
  all_goals cases ha
  · refine ⟨List.cons_ne_nil _ _, ?_⟩
    rcases rest with _ | ⟨u, us⟩
    · obtain ⟨l, rfl⟩ := hr rfl
      rfl
    · rfl
  · cases ht
  · cases ht

theorem expect {kind : TokenKind} {content : String} :
    Shuts d fun _ _ => Parser.expect kind content := by
  rintro ⟨_ | ⟨t, ts⟩, ending', mapped, scopes, targets⟩ r' a k n rest ending hk ha ht hr hn
  · cases ha
  · have hexpect : ∀ ts ending,
        Parser.expect kind content ⟨t :: ts, ending, mapped, scopes, targets⟩
          = (if (t.kind == kind && t.content == content) = true then Parser.next
            else Parser.unexpected (kind.name ++ " " ++ Text.inQuotes content))
              ⟨t :: ts, ending, mapped, scopes, targets⟩ := fun _ _ => rfl
    replace ha := (hexpect ts ending').symm.trans ha
    split at ha
    · rename_i h
      obtain ⟨hne, hshut⟩ := next hk ha ht hr hn
      refine ⟨hne, (hexpect _ _).trans ?_⟩
      rw [if_pos h]
      exact hshut
    · cases ha

/-- What stands between two brackets. -/
theorem brackets {γ : Type} {o : Parser β} {q : Production γ} {k : β → γ → Parser α}
    {kind : TokenKind} {content : String} (ho : ∀ n, Paced (n + 1) n 1 fun _ _ => o)
    (hq : ∀ n, Paced n n 0 q) (hk : ∀ a b, Still (k a b)) : Shuts 1 (fun sub turns => do
      let a ← o
      let b ← q sub turns
      let _ ← Parser.expect kind content
      k a b) :=
  .bind (Nat.le_refl 1) ho fun a => .bind (Nat.le_refl 0) hq fun b => .still .expect fun _ => hk a b

end Shuts

namespace Still

theorem pure {a : α} : Still (pure a) := by
  rintro r _ _ ⟨⟩
  exact ⟨rfl, fun _ => rfl⟩

theorem bind {p : Parser α} {k : α → Parser β} (h : Still p) (hk : ∀ a, Still (k a)) :
    Still (p >>= k) := by
  intro r b r' hb
  simp only [Bind.bind, StateT.bind, Except.bind] at hb ⊢
  split at hb
  · cases hb
  · rename_i v hv
    obtain ⟨ht, hf⟩ := h r v.1 v.2 hv
    obtain ⟨ht', hf'⟩ := hk v.1 v.2 b r' hb
    refine ⟨ht'.trans ht, fun s => ?_⟩
    rw [hf s]
    exact hf' s

theorem located {t : Token} : Still (Parser.located t) := by
  rintro r _ _ ⟨⟩
  exact ⟨rfl, fun _ => rfl⟩

theorem resolve {name : String} : Still (Parser.resolve name) := by
  rintro r _ _ ⟨⟩
  exact ⟨rfl, fun _ => rfl⟩

theorem fail {cause : SourceError.Cause} {location : Option Location} :
    Still (Parser.fail cause location : Parser α) := by
  rintro r _ _ ⟨⟩

end Still

namespace Grammar

open Tale.Parser

/-- Whether a token can begin an operand that ends by itself: a literal, a name, a tag, or a bracket
that has to be closed. -/
def opens (t : Token) : Bool :=
  match t.kind with
  | .number | .string | .tag | .identifier => true
  | .keyword => ["true", "false", "null"].contains t.content
  | .punctuation => ["(", "[", "\x7b"].contains t.content
  | .operator => false

section Operands

variable {r r' : Reading} {e : Expr Unit} {k n : Nat} {rest : List Token}
  {ending : Except SourceError Location}

/-- What begins like an operand that ends by itself does so. -/
theorem atom_shuts {t : Token} (ht : opens t = true) (hr : r.tokens.head? = some t)
    (hk : r.left ≤ k) (h : atom (operand k) k r = .ok (e, r')) (hnil : r'.tokens = [])
    (hrest : Readable rest ending) (hn : r.left + rest.length ≤ n) :
    atom (operand n) n (r.followed (some (rest, ending)))
      = .ok (e, r'.followed (some (rest, ending))) := by
  obtain ⟨_ | ⟨t', ts⟩, ending', mapped, scopes, targets⟩ := r
  · cases hr
  · cases hr
    obtain ⟨kind, content, place⟩ := t
    have shuts {p : Production (Expr Unit)} (hp : Shuts 1 p) (heq : ∀ sub turns ts ending,
        atom sub turns ⟨⟨kind, content, place⟩ :: ts, ending, mapped, scopes, targets⟩
          = p sub turns ⟨⟨kind, content, place⟩ :: ts, ending, mapped, scopes, targets⟩) :
        atom (operand n) n (Reading.followed ⟨⟨kind, content, place⟩ :: ts, ending', mapped, scopes,
          targets⟩ (some (rest, ending))) = .ok (e, r'.followed (some (rest, ending))) := by
      rw [heq] at h
      have hfollowed := (hp (Nat.lt_succ_of_le hk) h hnil hrest (Nat.lt_succ_of_le hn)).2
      exact (heq _ _ _ _).trans hfollowed
    let location := if mapped then some place else none
    have literal (shape : Shape Unit) : Shuts 1 (fun _ _ => do
        let _ ← next
        return (⟨shape, location⟩ : Expr Unit)) :=
      .still .next fun _ => .pure
    cases kind with
    | number => exact shuts (literal (.number (numberValue content))) fun _ _ _ _ => rfl
    | string => exact shuts (literal (.string content)) fun _ _ _ _ => rfl
    | tag => exact shuts (literal (.tag content)) fun _ _ _ _ => rfl
    | identifier =>
      have name : Shuts 1 (fun _ _ => do
          let _ ← next
          if !(← resolve content) then
            failAt ⟨.identifier, content, place⟩ (.variableUnknown content)
          return (⟨.reference content, location⟩ : Expr Unit)) := by
        refine .still .next fun _ => .bind .resolve fun found => ?_
        split
        · exact .bind .fail fun _ => .pure
        · exact .pure
      exact shuts name fun _ _ _ _ => rfl
    | keyword =>
      have hc : content ∈ ["true", "false", "null"] := List.contains_iff_mem.mp ht
      simp only [List.mem_cons, List.not_mem_nil, or_false] at hc
      rcases hc with rfl | rfl | rfl
      · exact shuts (literal (.boolean true)) fun _ _ _ _ => rfl
      · exact shuts (literal (.boolean false)) fun _ _ _ _ => rfl
      · exact shuts (literal .null) fun _ _ _ _ => rfl
    | operator => cases ht
    | punctuation =>
      have hc : content ∈ ["(", "[", "\x7b"] := List.contains_iff_mem.mp ht
      simp only [List.mem_cons, List.not_mem_nil, or_false] at hc
      rcases hc with rfl | rfl | rfl
      · have group : Shuts 1 (fun sub _ => do
            let _ ← next
            let e ← expression sub
            let _ ← expect .punctuation ")"
            return e) :=
          .brackets (fun _ => next_paced) (fun n => (operand_paced n _ _).some_taken)
            fun _ _ => .pure
        exact shuts group fun _ _ _ _ => rfl
      · have list : Shuts 1 fun sub turns => list sub turns :=
          .brackets (fun _ => expect_paced)
            (fun n => upTo_paced (element_paced (operand_paced n)))
            fun _ _ => .bind .located fun _ => .pure
        exact shuts list fun _ _ _ _ => rfl
      · have block : Shuts 1 fun sub turns => block sub turns location :=
          .brackets (fun _ => expect_paced)
            (fun n => inScope_paced (upTo_paced (statement_paced (operand_paced n))))
            fun _ _ => .pure
        exact shuts block fun _ _ _ _ => rfl

end Operands

/-! ## Rows of operands -/

/-- Tokens that are an operand by themselves: a literal, a name in sight, a tag, or what stands
between brackets and is read up to its end. -/
structure Atom (r : Reading) (ws : List Token) (e : Expr Unit) (r' : Reading) : Prop where
  opens : ∃ t ∈ ws.head?, opens t = true
  read : atom (operand ws.length) ws.length { r with tokens := ws, ending := .ok .start }
    = .ok (e, r')
  all : r'.tokens = []

/-- Operators between operands, and what is read of them, operand after operand. -/
inductive Joined : Reading → List Token → List Link → Reading → Prop
  | nil {r : Reading} : Joined r [] [] r
  | cons {r r₁ r₂ : Reading} {t : Token} {op : BinaryOp} {e : Expr Unit} {ws ws' : List Token}
    {links : List Link} (hk : t.kind = .operator) (ho : BinaryOp.ofSymbol? t.content = some op)
    (ha : Atom r ws e r₁) (h : Joined r₁ ws' links r₂) :
    Joined r (t :: (ws ++ ws')) (⟨t, op, e⟩ :: links) r₂

section Rows

variable {r r' r₂ : Reading} {t : Token} {e : Expr Unit} {ws rest : List Token} {links : List Link}
  {ending : Except SourceError Location} {min max n : Nat}

/-- An operand in front of anything. -/
theorem Atom.before (h : Atom r ws e r') (hrest : Readable rest ending)
    (hn : ws.length + rest.length ≤ n) :
    atom (operand n) n { r with tokens := ws ++ rest, ending }
      = .ok (e, { r' with tokens := rest, ending }) := by
  obtain ⟨t, ht, hopens⟩ := h.opens
  have hread := atom_shuts hopens ht (Nat.le_refl ws.length) h.read h.all hrest hn
  refine hread.trans ?_
  rw [Reading.followed, h.all]
  rfl

theorem Atom.mapped (h : Atom r ws e r') : r'.mapped = r.mapped :=
  (Paced.followed (fun n => atom_paced (operand_paced n)) (Nat.lt_succ_self ws.length) h.read).2.1

/-- What is read up to a closing bracket is an operand in brackets. -/
theorem Atom.group (ws : List Token) {u : Token} (ht : t.kind = .punctuation ∧ t.content = "(")
    (hu : u.kind = .punctuation ∧ u.content = ")")
    (h : operand (ws.length + 2) 0 unbounded { r with tokens := ws ++ [u], ending := .ok .start }
      = .ok (e, { r' with tokens := [u], ending := .ok .start })) :
    Atom r (t :: (ws ++ [u])) e { r' with tokens := [], ending := .ok .start } := by
  obtain ⟨kind, content, location⟩ := t
  obtain ⟨rfl, rfl⟩ := ht
  obtain ⟨kind', content', location'⟩ := u
  obtain ⟨rfl, rfl⟩ := hu
  refine ⟨⟨_, rfl, by simp [Grammar.opens]⟩, ?_, rfl⟩
  rw [List.length_cons, List.length_append, List.length_singleton]
  obtain ⟨v, vs, hvs⟩ : ∃ v vs, ws ++ [⟨.punctuation, ")", location'⟩] = v :: vs :=
    List.exists_cons_of_ne_nil (List.append_ne_nil_of_right_ne_nil ws (List.cons_ne_nil _ _))
  rw [hvs] at h ⊢
  change (do
    let e ← operand (ws.length + 2) 0 unbounded
    let _ ← expect .punctuation ")"
    return e : Parser _) _ = _
  simp only [Bind.bind, StateT.bind, Except.bind, h]
  rfl

theorem binding?_stop (h : ∀ t ∈ r.tokens.head?, t.kind ≠ .operator) :
    binding? min max r = .ok (none, r) := by
  obtain ⟨_ | ⟨t, ts⟩, ending, mapped, scopes, targets⟩ := r
  · rfl
  · exact congrFun (if_pos (h t rfl)) _

theorem binding?_operator {ts : List Token} {op : BinaryOp} (hr : r.tokens = t :: ts)
    (hk : t.kind = .operator) (ho : BinaryOp.ofSymbol? t.content = some op) :
    binding? min max r = .ok (if min < op.precedence then some (.binary op) else none, r) := by
  obtain ⟨_, ending, mapped, scopes, targets⟩ := r
  cases hr
  refine (congrFun (if_neg fun h => h hk) _).trans ?_
  simp only [ho]
  rfl

section Climb

variable {sub : Operand} {turns : Nat} {left right : Expr Unit}

theorem climb_stop (h : binding? min max r = .ok (none, r)) :
    climb sub turns left min max r = .ok (left, r) := by
  rw [climb]
  simp only [Bind.bind, StateT.bind, Except.bind, h]
  rfl

theorem climb_step {op : BinaryOp} (h : binding? min max r = .ok (some (.binary op), r))
    (hn : next r = .ok (t, r')) (hs : sub op.precedence max r' = .ok (right, r₂)) :
    climb sub (turns + 1) left min max r = climb sub turns
      ⟨.binary op left right, if r'.mapped then some t.location else none⟩ min max r₂ := by
  have hl : located t r' = .ok (if r'.mapped then some t.location else none, r') := rfl
  rw [climb]
  simp only [Bind.bind, StateT.bind, Except.bind, h, hn, hl, hs]

end Climb

theorem next_cons {ts : List Token} (h : ts ≠ []) : next { r with tokens := t :: ts, ending }
    = .ok (t, { r with tokens := ts, ending }) := by
  obtain ⟨u, us, rfl⟩ := List.exists_cons_of_ne_nil h
  rfl

theorem operand_step {k : Nat} (h : atom (operand k) k r = .ok (e, r')) :
    operand (k + 1) min max r = climb (operand k) k e min max r' := by
  rw [operand]
  simp only [Bind.bind, StateT.bind, Except.bind, h]

/-- A row of operators is climbed up to one that binds no tighter than `min`, or up to its end. What
is read as the operand after an operator is a part of the row after it, and so is the row that is
climbed on from there, so both have fewer operators. -/
theorem climb_joined (hrest : ∀ t ∈ rest.head?, t.kind ≠ .operator) (hend : Readable rest ending)
    (hj : Joined r ws links r₂) {mapped : Bool} (hm : r.mapped = mapped) (tree : OperatorTree)
    (min max : Nat) {n turns : Nat}
    (hn : ws.length + rest.length ≤ n) (hturns : ws.length + rest.length ≤ turns) :
    ∃ tree' links' r₁ ws', tree.Climbs min links tree' links' ∧ Joined r₁ ws' links' r₂
      ∧ links'.length ≤ links.length ∧ ws'.length ≤ ws.length ∧ r₁.mapped = mapped
      ∧ climb (operand n) turns (tree.expr mapped) min max { r with tokens := ws ++ rest, ending }
        = .ok (tree'.expr mapped, { r₁ with tokens := ws' ++ rest, ending }) := by
  induction hcount : links.length using Nat.strongRecOn
    generalizing r ws links tree min n turns with
  | _ count ih =>
  cases hj with
  | nil =>
    exact ⟨tree, [], _, [], .stop nofun, .nil, Nat.zero_le _, Nat.le_refl _, hm,
      climb_stop (binding?_stop hrest)⟩
  | @cons r r₁ _ t op e ws ws' links hk ho ha hj =>
    have hbinding : binding? min max { r with tokens := t :: (ws ++ ws') ++ rest, ending }
        = .ok (if min < op.precedence then some (.binary op) else none, _) :=
      binding?_operator rfl hk ho
    have hlinks : links.length < count := Nat.lt_of_succ_le (Nat.le_of_eq hcount)
    by_cases hop : min < op.precedence
    · rw [if_pos hop] at hbinding
      simp only [List.length_cons, List.length_append] at hn hturns
      obtain ⟨k, rfl⟩ : ∃ k, n = k + 1 := ⟨n - 1, by omega⟩
      obtain ⟨turns, rfl⟩ : ∃ k, turns = k + 1 := ⟨turns - 1, by omega⟩
      have hne : (ws ++ ws') ++ rest ≠ [] := by
        obtain ⟨u, hu, -⟩ := ha.opens
        intro h
        rw [List.append_assoc, List.append_eq_nil_iff] at h
        rw [h.1] at hu
        cases hu
      have hlength : ws.length + (ws' ++ rest).length ≤ k := by
        rw [List.length_append]
        omega
      have hlength' : ws'.length + rest.length ≤ k := by omega
      have hatom := ha.before (fun h => hend (List.append_eq_nil_iff.mp h).2) hlength
      obtain ⟨right, links₁, r₃, ws₁, hright, hj₁, hlinks₁, hws₁, hm₁, hclimb₁⟩ :=
        ih links.length hlinks hj (ha.mapped.trans hm) (.leaf e) op.precedence hlength' hlength' rfl
      have hoperand : operand (k + 1) op.precedence max
          { r with tokens := (ws ++ ws') ++ rest, ending }
          = .ok (right.expr mapped, { r₃ with tokens := ws₁ ++ rest, ending }) := by
        rw [List.append_assoc]
        exact (operand_step hatom).trans hclimb₁
      have hlength₁ : ws₁.length + rest.length ≤ k + 1 := by omega
      have hlength₂ : ws₁.length + rest.length ≤ turns := by omega
      obtain ⟨tree', links₂, r₄, ws₂, htree, hj₂, hlinks₂, hws₂, hm₂, hclimb₂⟩ :=
        ih links₁.length (Nat.lt_of_le_of_lt hlinks₁ hlinks) hj₁ hm₁ (.node t op tree right) min
          hlength₁ hlength₂ rfl
      refine ⟨tree', links₂, r₄, ws₂, .step hop hright htree, hj₂, ?_, ?_, hm₂, ?_⟩
      · exact Nat.le_of_lt (Nat.lt_of_le_of_lt (Nat.le_trans hlinks₂ hlinks₁) hlinks)
      · simp only [List.length_cons, List.length_append]
        omega
      · subst hm
        exact (climb_step hbinding (next_cons hne) hoperand).trans hclimb₂
    · rw [if_neg hop] at hbinding
      refine ⟨tree, _, r, _, .stop ?_, .cons hk ho ha hj, Nat.le_of_eq hcount, Nat.le_refl _, hm,
        climb_stop hbinding⟩
      rintro _ ⟨⟩
      exact Nat.le_of_not_lt hop

/-- Operands with operators between them, in front of what is no operator, are read as the one tree
of them that is in order, each operation at the place of its operator, and nothing else is. -/
theorem operand_joined {r₀ r₁ : Reading} {a : Expr Unit} {ws₀ : List Token} (ha : Atom r ws₀ a r₀)
    (hj : Joined r₀ ws links r₁) (hrest : ∀ t ∈ rest.head?, t.kind ≠ .operator)
    (hend : Readable rest ending) (hn : (ws₀ ++ (ws ++ rest)).length < n) (max : Nat) :
    ∃ tree : OperatorTree, tree.Ordered ∧ tree.first = a ∧ tree.links = links
      ∧ (∀ tree' : OperatorTree, tree'.Ordered → tree'.first = a → tree'.links = links →
        tree' = tree)
      ∧ operand n 0 max { r with tokens := ws₀ ++ (ws ++ rest), ending }
        = .ok (tree.expr r.mapped, { r₁ with tokens := rest, ending }) := by
  rw [List.length_append] at hn
  obtain ⟨k, rfl⟩ : ∃ k, n = k + 1 := Nat.exists_eq_add_one.mpr (Nat.zero_lt_of_lt hn)
  have hk : ws₀.length + (ws ++ rest).length ≤ k := Nat.le_of_lt_succ hn
  have hk' : ws.length + rest.length ≤ k := by
    rw [List.length_append] at hk
    omega
  have hatom := ha.before (fun h => hend (List.append_eq_nil_iff.mp h).2) hk
  obtain ⟨tree, links', r', ws', hclimbs, hj', -, -, -, hclimb⟩ :=
    climb_joined hrest hend hj ha.mapped (.leaf a) 0 max hk' hk'
  obtain ⟨ho, -, hl, hf, hlinks⟩ := hclimbs.ordered trivial (fun _ _ => nofun) nofun
  cases hj' with
  | nil =>
    rw [List.append_nil] at hlinks
    exact ⟨tree, ho, hf, hlinks, fun tree' ho' hf' hl' =>
      ho'.unique ho (hf'.trans hf.symm) (hl'.trans hlinks.symm), (operand_step hatom).trans hclimb⟩
  | cons => exact absurd (hl _ rfl) (Nat.not_le.mpr (BinaryOp.precedence_pos _))

/-- A comparison between two operators that are looser: the latter of these is the root, and what
is in brackets is an operand like any other. -/
theorem operand_joined_comparison :
    let token (kind : TokenKind) (content : String) (column : Nat) : Token :=
      ⟨kind, content, ⟨1, column⟩⟩
    let expr (shape : Shape Unit) (column : Nat) : Expr Unit := ⟨shape, some ⟨1, column⟩⟩
    let r : Reading :=
      { tokens := [], ending := .ok .start, mapped := true, scopes := [{ declared := ["x"] }] }
    let ws := [token .operator "??" 6, token .identifier "x" 9, token .operator "==" 11,
      token .punctuation "(" 14, token .keyword "true" 15, token .punctuation ")" 19,
      token .operator "??" 21, token .tag "t" 24]
    let links : List Link := [⟨token .operator "??" 6, .nullish, expr (.reference "x") 9⟩,
      ⟨token .operator "==" 11, .eq, expr (.boolean true) 15⟩,
      ⟨token .operator "??" 21, .nullish, expr (.tag "t") 24⟩]
    Atom r [token .keyword "null" 1] (expr .null 1) r ∧ Joined r ws links r
      ∧ operand 12 0 unbounded
          { r with tokens := token .keyword "null" 1 :: (ws ++ [token .keyword "then" 27]) }
        = .ok (expr (.binary .nullish
            (expr (.binary .nullish (expr .null 1)
              (expr (.binary .eq (expr (.reference "x") 9) (expr (.boolean true) 15)) 11)) 6)
            (expr (.tag "t") 24)) 21, { r with tokens := [token .keyword "then" 27] }) := by
  intro token expr r ws links
  have ha : Atom r [token .keyword "null" 1] (expr .null 1) r := ⟨⟨_, rfl, by decide⟩, rfl, rfl⟩
  have hname : Atom r [token .identifier "x" 9] (expr (.reference "x") 9) r :=
    ⟨⟨_, rfl, by decide⟩, rfl, rfl⟩
  have htrue : atom (operand 2) 2
      { r with tokens := [token .keyword "true" 15, token .punctuation ")" 19] }
      = .ok (expr (.boolean true) 15, { r with tokens := [token .punctuation ")" 19] }) := rfl
  have hclose : ∀ t ∈ [token .punctuation ")" 19].head?, t.kind ≠ .operator := by decide
  have hbracket : operand 3 0 unbounded
      { r with tokens := [token .keyword "true" 15] ++ [token .punctuation ")" 19] }
      = .ok (expr (.boolean true) 15, { r with tokens := [token .punctuation ")" 19] }) :=
    (operand_step htrue).trans (climb_stop (binding?_stop hclose))
  have hgroup : Atom r [token .punctuation "(" 14, token .keyword "true" 15,
      token .punctuation ")" 19] (expr (.boolean true) 15) r :=
    .group [token .keyword "true" 15] ⟨rfl, rfl⟩ ⟨rfl, rfl⟩ hbracket
  have htag : Atom r [token .tag "t" 24] (expr (.tag "t") 24) r := ⟨⟨_, rfl, by decide⟩, rfl, rfl⟩
  have hj : Joined r ws links r :=
    .cons rfl (by decide) hname (.cons rfl (by decide) hgroup (.cons rfl (by decide) htag .nil))
  have hrest : ∀ t ∈ [token .keyword "then" 27].head?, t.kind ≠ .operator := by decide
  have hend : Readable [token .keyword "then" 27] (.ok .start) := fun h => absurd h (by decide)
  have hn : ([token .keyword "null" 1] ++ (ws ++ [token .keyword "then" 27])).length < 12 := by
    decide
  obtain ⟨tree, -, -, -, hunique, hread⟩ := operand_joined ha hj hrest hend hn unbounded
  let tree' : OperatorTree := .node (token .operator "??" 21) .nullish
    (.node (token .operator "??" 6) .nullish (.leaf (expr .null 1))
      (.node (token .operator "==" 11) .eq (.leaf (expr (.reference "x") 9))
        (.leaf (expr (.boolean true) 15)))) (.leaf (expr (.tag "t") 24))
  have ho : tree'.Ordered := by
    simp [tree', OperatorTree.Ordered, OperatorTree.root?, BinaryOp.precedence]
  obtain rfl := hunique tree' ho rfl rfl
  exact ⟨ha, hj, hread⟩

end Rows

end Grammar

end Tale
