import Tale.Document.Parse
import Tale.Language.Tree.Json
import Tale.Proofs.ReadBack

/-!
# Trees that are read back from JSON

The JSON of a tree spells out every part of it, so a reader that is deep enough can only lose the
numbers: a double that is not finite is written `null`, and a natural number has to fit the word
of the machine that its member is read as. `quantities` lists all numbers of a tree, and each
reader gives back what was written if all of them survive, and nothing otherwise (`kept`).
-/

namespace Tale

variable {α β : Type}

/-- A number in a tree. -/
inductive Quantity
  | number (x : Float)
  /-- A natural number, and the limit that it has to stay below. -/
  | word (n limit : Nat)

namespace Quantity

def survives : Quantity → Bool
  | number x =>
    match Decimal.magnitude x with
    | .finite _ => true
    | _ => false
  | word n limit => n < limit

/-- What is read of a value with some numbers. -/
def kept (qs : List Quantity) (a : α) : Option α :=
  if qs.all survives then some a else none

variable {qs rs : List Quantity} {a : α} {b : β}

theorem kept_pure {f : α → β} : (kept qs a >>= fun a => pure (f a)) = kept qs (f a) := by
  unfold kept
  split <;> rfl

theorem kept_bind {f : α → β} :
    (kept qs a >>= fun a => kept rs (f a)) = kept (qs ++ rs) (f a) := by
  unfold kept
  rw [List.all_append]
  cases qs.all survives <;> rfl

theorem kept_map {f : α → β} : (kept qs a).map f = kept qs (f a) := by
  unfold kept
  split <;> rfl

theorem kept_eq_some : kept qs a = some a ↔ ∀ q ∈ qs, q.survives = true := by
  unfold kept
  rw [← List.all_eq_true]
  split <;> simp_all

theorem kept_eq_none (h : ¬ ∀ q ∈ qs, q.survives = true) : kept qs a = none := by
  unfold kept
  rw [← List.all_eq_true] at h
  exact if_neg h

end Quantity

open Quantity

def quantitiesOfPlace : Option Location → List Quantity
  | none => []
  | some l => [.word l.line Text.word64, .word l.column Text.word64]

mutual

def Expr.quantities : Expr Unit → List Quantity
  | ⟨shape, location⟩ => shape.quantities ++ quantitiesOfPlace location

def Shape.quantities : Shape Unit → List Quantity
  | .number x => [.number x]
  | .binary _ l r => l.quantities ++ r.quantities
  | .unary _ e => e.quantities
  | .conditional c y o => c.quantities ++ (y.quantities ++ o.quantities)
  | .selection e => e.quantities
  | .choice t a => t.quantities ++ a.quantities
  | .block ss => quantitiesOfStatements ss
  | .function f => f.quantities
  | .list es => quantitiesOfElements es
  | .switch e cs d => e.quantities ++ (quantitiesOfCases cs ++ quantitiesOfOption d)
  | .loop b c a => quantitiesOfOption b ++ (c.quantities ++ quantitiesOfOption a)
  | .cond c y o => c.quantities ++ (y.quantities ++ quantitiesOfOption o)
  | .boolean _ | .string _ | .null | .goto _ | .exit | .reference _ | .tag _ => []

def quantitiesOfOption : Option (Expr Unit) → List Quantity
  | none => []
  | some e => e.quantities

def FunctionExpr.quantities : FunctionExpr Unit → List Quantity
  | ⟨_, ps, _, _, body⟩ => quantitiesOfParameters ps ++ body.quantities

def quantitiesOfParameters : List (Parameter Unit) → List Quantity
  | [] => []
  | ⟨_, _, fallback, location⟩ :: ps =>
    quantitiesOfOption fallback ++ quantitiesOfPlace location ++ quantitiesOfParameters ps

def quantitiesOfElements : List (Element Unit) → List Quantity
  | [] => []
  | .item e :: es => e.quantities ++ quantitiesOfElements es
  | .spread e location :: es =>
    e.quantities ++ quantitiesOfPlace location ++ quantitiesOfElements es

def quantitiesOfCases : List (SwitchCase Unit) → List Quantity
  | [] => []
  | ⟨p, r⟩ :: cs => p.quantities ++ r.quantities ++ quantitiesOfCases cs

def quantitiesOfStatements : List (Statement Unit) → List Quantity
  | [] => []
  | ⟨shape, location⟩ :: ss =>
    shape.quantities ++ quantitiesOfPlace location ++ quantitiesOfStatements ss

def StatementShape.quantities : StatementShape Unit → List Quantity
  | .declare ds => quantitiesOfDeclarations ds
  | .expression e => e.quantities
  | .leave _ e => e.quantities
  | .set _ e => e.quantities
  | .continue => []

def quantitiesOfDeclarations : List (Declaration Unit) → List Quantity
  | [] => []
  | ⟨_, _, initial, location⟩ :: ds =>
    quantitiesOfOption initial ++ quantitiesOfPlace location ++ quantitiesOfDeclarations ds

end

def Bounds.quantities (b : Bounds) : List Quantity :=
  (b.lower.toList ++ b.upper.toList).map fun n => .word n Text.word64

def Section.quantities (s : Section Unit) : List Quantity :=
  quantitiesOfOption s.executes ++ (s.next.quantities
    ++ (s.contents.flatMap (·.bounds.quantities) ++ quantitiesOfPlace s.location))

def Story.quantities (s : Story Unit) : List Quantity :=
  .word s.version.major Text.word32 :: .word s.version.minor Text.word32
    :: (quantitiesOfStatements s.init ++ s.sections.flatMap Section.quantities)

/-! ## Members of an object -/

namespace Json

variable {decode : Json → Option α} {name : String} {ms : List (String × Json)}

/-- A place stands last and has a name of its own, so all other members are found without it. -/
theorem member?_append_location (h : name ≠ "location") (l : Option Location) :
    member? name (ms ++ locationMember l) = member? name ms := by
  cases l with
  | none => rw [locationMember, List.append_nil]
  | some l =>
    rw [member?, List.foldl_append]
    exact if_neg h.symm

theorem needed?_append_location (h : name ≠ "location") (l : Option Location) :
    needed? decode name (ms ++ locationMember l) = needed? decode name ms := by
  rw [needed?, member?_append_location h, needed?]

theorem possible?_append_location (h : name ≠ "location") (l : Option Location) :
    possible? decode name (ms ++ locationMember l) = possible? decode name ms := by
  rw [possible?, member?_append_location h, possible?]

theorem depthMembers_append (ms ns : List (String × Json)) :
    depthMembers (ms ++ ns) = max (depthMembers ms) (depthMembers ns) := by
  induction ms with
  | nil => simp [depthMembers]
  | cons m ms ih => simp only [List.cons_append, depthMembers, ih, Nat.max_assoc]

theorem strings?_strings (ss : List String) : strings? (strings ss) = pure ss := by
  rw [strings?, strings, arr?, Option.bind_some]
  induction ss with
  | nil => rfl
  | cons s ss ih => simp only [List.map_cons, List.mapM_cons, ih, str?]; rfl

theorem optional?_some {j : Json} (h : j ≠ .null) :
    optional? decode (some j) = (decode j).map some := by
  cases j with
  | null => exact absurd rfl h
  | _ => rfl

theorem number_kept (x : Float) : float? (number x) = kept [.number x] x := by
  unfold number kept survives
  cases h : Decimal.magnitude x <;> simp [float?, h]

theorem natBelow?_kept (n limit : Nat) : natBelow? limit (nat n) = kept [.word n limit] n := by
  simp only [nat, natBelow?, kept, survives, List.all_cons, List.all_nil, Bool.and_true,
    decide_eq_true_eq]

end Json

namespace Tree

open Json

variable {n : Nat} {ms : List (String × Json)}

theorem shape?_append_location (expr? : Json → Option (Expr Unit)) (l : Option Location) :
    shape? expr? (ms ++ locationMember l) = shape? expr? ms := by
  simp only [shape?, needed?_append_location, possible?_append_location, ne_eq, String.reduceEq,
    not_false_eq_true]

theorem statementShape?_append_location (expr? : Json → Option (Expr Unit)) (l : Option Location) :
    statementShape? expr? (ms ++ locationMember l) = statementShape? expr? ms := by
  simp only [statementShape?, needed?_append_location, ne_eq, String.reduceEq, not_false_eq_true]

theorem toJson_ne_null (l : Location) : l.toJson ≠ .null := nofun

theorem location?_kept (l : Location) :
    location? l.toJson = kept (quantitiesOfPlace (some l)) l := by
  have hl : needed? size? "line" [("line", nat l.line), ("column", nat l.column)]
      = kept [.word l.line Text.word64] l.line := natBelow?_kept l.line _
  have hc : needed? size? "column" [("line", nat l.line), ("column", nat l.column)]
      = kept [.word l.column Text.word64] l.column := natBelow?_kept l.column _
  simp only [location?, Location.toJson, record?, Option.bind_eq_bind, Option.bind_some, hl, hc]
  simp only [← Option.bind_eq_bind, kept_pure, kept_bind]
  rfl

theorem place_kept (l : Option Location) :
    possible? location? "location" (locationMember l) = kept (quantitiesOfPlace l) l := by
  cases l with
  | none => rfl
  | some l =>
    have hl : possible? location? "location" (locationMember (some l))
        = (location? l.toJson).map some := optional?_some (toJson_ne_null l)
    rw [hl, location?_kept, kept_map]

/-- A place is found behind members that have other names. -/
theorem possible?_location {ms : List (String × Json)} (h : member? "location" ms = none)
    (l : Option Location) :
    possible? location? "location" (ms ++ locationMember l) = kept (quantitiesOfPlace l) l := by
  have hm : member? "location" (ms ++ locationMember l)
      = member? "location" (locationMember l) := by
    rw [member?, List.foldl_append, ← member?, h, member?]
  rw [possible?, hm, ← place_kept, possible?]

theorem bound?_kept (b : TypeBound) : optional? bound? (some b.toJson) = pure b := by
  cases b with
  | none => rfl
  | some ts =>
    have hw : ∀ t : ValueType, (word? (.str t.name)).bind ValueType.ofName? = some t := fun t => by
      cases t <;> rfl
    have ht : list? (fun t => (word? t).bind ValueType.ofName?) (.strings (ts.map ValueType.name))
        = some ts := by
      rw [list?, strings, arr?, Option.bind_some, List.map_map]
      induction ts with
      | nil => rfl
      | cons t ts ih => rw [List.map_cons, List.mapM_cons, ih, Function.comp_apply, hw]; rfl
    have hj : strings (ts.map ValueType.name) ≠ .null := nofun
    rw [TypeBound.toJson, option, optional?_some hj, bound?, ht]
    rfl

theorem binaryOp_kept (op : BinaryOp) :
    (word? (.str op.symbol)).bind BinaryOp.ofSymbol? = pure op := by
  cases op <;> rfl

theorem unaryOp_kept (op : UnaryOp) :
    (word? (.str op.symbol)).bind UnaryOp.ofSymbol? = pure op := by
  cases op <;> rfl

/-! ## Trees -/

/-- The name that JSON gives to the kind of a shape. -/
def kind : Shape Unit → String
  | .number _ => "numberLiteral"
  | .boolean _ => "booleanLiteral"
  | .string _ => "stringLiteral"
  | .null => "nullLiteral"
  | .binary .. => "binaryExpression"
  | .unary .. => "unaryExpression"
  | .conditional .. => "conditionalExpression"
  | .goto _ => "gotoAction"
  | .exit => "exitAction"
  | .selection _ => "selection"
  | .choice .. => "choiceExpression"
  | .block _ => "block"
  | .reference _ => "variableReference"
  | .function _ => "function"
  | .list _ => "list"
  | .switch .. => "switch"
  | .loop .. => "while"
  | .cond .. => "if"
  | .tag _ => "tag"

theorem type_member (s : Shape Unit) :
    needed? (tag? exprTags) "type" s.members = some (kind s) := by
  cases s with
  | function f => cases f; rfl
  | _ => rfl

section

variable {read : Json → Option (Expr Unit)}
  (h : ∀ e : Expr Unit, e.toJson.depth ≤ n → read e.toJson = kept e.quantities e)

include h

theorem option_kept (e : Option (Expr Unit)) (hn : (optionJson e).depth ≤ n) :
    optional? read (some (optionJson e)) = kept (quantitiesOfOption e) e := by
  cases e with
  | none => rfl
  | some e =>
    have he : e.toJson ≠ .null := by
      cases e
      exact nofun
    rw [optionJson, optional?_some he, h e hn, kept_map, quantitiesOfOption]

theorem parameters_kept : ∀ ps : List (Parameter Unit), depthElements (parametersJson ps) ≤ n →
    (parametersJson ps).mapM (parameter? read) = kept (quantitiesOfParameters ps) ps
  | [], _ => rfl
  | ⟨name, bound, fallback, location⟩ :: ps, hn => by
    simp only [parametersJson, depthElements, depth, depthMembers_append, depthMembers] at hn
    have hf := option_kept h fallback (by omega)
    have hps := parameters_kept ps (by omega)
    have hp : parameter? read (.obj ([("name", .str name), ("type", bound.toJson),
        ("defaultValue", optionJson fallback)] ++ locationMember location))
        = (do
          return ⟨name, ← optional? bound? (some bound.toJson),
            ← optional? read (some (optionJson fallback)),
            ← possible? location? "location" (locationMember location)⟩) := by
      cases location <;> rfl
    rw [parametersJson, List.mapM_cons, hp, hps, hf, bound?_kept, place_kept, pure_bind]
    simp only [kept_pure, kept_bind, quantitiesOfParameters]

theorem declarations_kept : ∀ ds : List (Declaration Unit),
    depthElements (declarationsJson ds) ≤ n →
    (declarationsJson ds).mapM (declaration? read) = kept (quantitiesOfDeclarations ds) ds
  | [], _ => rfl
  | ⟨name, bound, initial, location⟩ :: ds, hn => by
    simp only [declarationsJson, depthElements, depth, depthMembers_append, depthMembers] at hn
    have hi := option_kept h initial (by omega)
    have hds := declarations_kept ds (by omega)
    have hd : declaration? read (.obj ([("variableName", .str name),
        ("variableType", bound.toJson), ("initialValue", optionJson initial)]
          ++ locationMember location))
        = (do
          return ⟨name, ← optional? bound? (some bound.toJson),
            ← optional? read (some (optionJson initial)),
            ← possible? location? "location" (locationMember location)⟩) := by
      cases location <;> rfl
    rw [declarationsJson, List.mapM_cons, hd, hds, hi, bound?_kept, place_kept, pure_bind]
    simp only [kept_pure, kept_bind, quantitiesOfDeclarations]

theorem elements_kept : ∀ es : List (Element Unit), depthElements (elementsJson es) ≤ n →
    (elementsJson es).mapM (element? read) = kept (quantitiesOfElements es) es
  | [], _ => rfl
  | .item e :: es, hn => by
    simp only [elementsJson, depthElements, depth, depthMembers] at hn
    have he := h e (by omega)
    have hes := elements_kept es (by omega)
    have hi : element? read (.obj [("kind", .str "item"), ("expression", e.toJson)])
        = (do return .item (← read e.toJson)) := rfl
    rw [elementsJson, List.mapM_cons, hi, he, hes]
    simp only [kept_pure, kept_bind, quantitiesOfElements]
  | .spread e location :: es, hn => by
    simp only [elementsJson, depthElements, depth, depthMembers_append, depthMembers] at hn
    have he := h e (by omega)
    have hes := elements_kept es (by omega)
    have hs : element? read (.obj ([("kind", .str "spread"), ("expression", e.toJson)]
        ++ locationMember location))
        = (do
          return .spread (← read e.toJson)
            (← possible? location? "location" (locationMember location))) := by
      cases location <;> rfl
    rw [elementsJson, List.mapM_cons, hs, he, hes, place_kept]
    simp only [kept_pure, kept_bind, quantitiesOfElements]

theorem cases_kept : ∀ cs : List (SwitchCase Unit), depthElements (casesJson cs) ≤ n →
    (casesJson cs).mapM (case? read) = kept (quantitiesOfCases cs) cs
  | [], _ => rfl
  | ⟨p, r⟩ :: cs, hn => by
    simp only [casesJson, depthElements, depth, depthMembers] at hn
    have hp := h p (by omega)
    have hr := h r (by omega)
    have hcs := cases_kept cs (by omega)
    have hc : case? read (.obj [("matches", p.toJson), ("returns", r.toJson)])
        = (do return ⟨← read p.toJson, ← read r.toJson⟩) := rfl
    rw [casesJson, List.mapM_cons, hc, hp, hr, hcs]
    simp only [kept_pure, kept_bind, quantitiesOfCases]

theorem statementShape_kept (s : StatementShape Unit) (hn : depthMembers s.members ≤ n) :
    statementShape? read s.members = kept s.quantities s := by
  cases s with
  | declare ds =>
    simp only [StatementShape.members, depthMembers, depth] at hn
    have hd : statementShape? read (StatementShape.members (.declare ds))
      = (do return .declare (← (declarationsJson ds).mapM (declaration? read))) := rfl
    rw [hd, declarations_kept h ds (by omega), kept_pure, StatementShape.quantities]
  | expression e =>
    simp only [StatementShape.members, depthMembers, depth] at hn
    have he : statementShape? read (StatementShape.members (.expression e))
      = (do return .expression (← read e.toJson)) := rfl
    rw [he, h e (by omega), kept_pure, StatementShape.quantities]
  | leave r e =>
    have hr : statementShape? read (StatementShape.members (.leave r e))
      = (do return .leave r (← read e.toJson)) := by cases r <;> rfl
    have he : e.toJson.depth ≤ n := by
      cases r <;> simp only [StatementShape.members, depthMembers] at hn <;> omega
    rw [hr, h e he, kept_pure, StatementShape.quantities]
  | set r e =>
    have hr : statementShape? read (StatementShape.members (.set r e))
      = (do return .set r (← read e.toJson)) := by cases r <;> rfl
    have he : e.toJson.depth ≤ n := by
      cases r <;> simp only [StatementShape.members, depthMembers] at hn <;> omega
    rw [hr, h e he, kept_pure, StatementShape.quantities]
  | «continue» => rfl

theorem statements_kept : ∀ ss : List (Statement Unit), depthElements (statementsJson ss) ≤ n →
    (statementsJson ss).mapM (statement? read) = kept (quantitiesOfStatements ss) ss
  | [], _ => rfl
  | ⟨shape, location⟩ :: ss, hn => by
    simp only [statementsJson, depthElements, depth, depthMembers_append] at hn
    have hs := statementShape_kept h shape (by omega)
    have hss := statements_kept ss (by omega)
    have hl : member? "location" shape.members = none := by
      rcases shape with _ | _ | ⟨_ | _⟩ | ⟨_ | _⟩ | _ <;> rfl
    have hs : statement? read (.obj (shape.members ++ locationMember location))
        = kept (shape.quantities ++ quantitiesOfPlace location) ⟨shape, location⟩ := by
      have hr : statement? read (.obj (shape.members ++ locationMember location)) = (do
          return ⟨← statementShape? read (shape.members ++ locationMember location),
            ← possible? location? "location" (shape.members ++ locationMember location)⟩) := rfl
      rw [hr, statementShape?_append_location, hs, possible?_location hl]
      simp only [kept_pure, kept_bind]
    rw [statementsJson, List.mapM_cons, hs, hss]
    simp only [kept_pure, kept_bind, quantitiesOfStatements]

theorem shape?_kept (s : Shape Unit) (hn : depthMembers s.members ≤ n) :
    shape? read s.members = kept s.quantities s := by
  have hlist : ∀ {α : Type} (decode : Json → Option α) (xs : List Json),
      list? decode (.arr xs) = xs.mapM decode := fun _ _ => rfl
  rw [shape?, type_member, Option.bind_eq_bind, Option.bind_some]
  cases s
  case null => rfl
  case exit => rfl
  case tag name => rfl
  case boolean b => rfl
  case string s => rfl
  case reference name => rfl
  case function f =>
    obtain ⟨_, ps, restName, captures, body⟩ := f
    have hr : optional? str? (some (option .str restName)) = pure restName := by
      cases restName <;> rfl
    simp only [kind, Shape.members, depthMembers, depth, needed?, possible?, member?,
      List.foldl_cons, List.foldl_nil, String.reduceEq, reduceIte, Option.bind_some] at hn ⊢
    rw [hlist, parameters_kept h ps (by omega), hr, strings?_strings, h body (by omega)]
    simp only [pure_bind, kept_pure, kept_bind, Shape.quantities, FunctionExpr.quantities]
  all_goals
    simp only [kind, Shape.members, depthMembers, depth, needed?, possible?, member?,
      List.foldl_cons, List.foldl_nil, String.reduceEq, reduceIte, Option.bind_some,
      Shape.quantities] at hn ⊢
  case number x => rw [number_kept, kept_pure]
  case goto sections => rw [strings?_strings]; rfl
  case binary op l r =>
    rw [binaryOp_kept, h l (by omega), h r (by omega)]
    simp only [pure_bind, kept_pure, kept_bind]
  case unary op e =>
    rw [unaryOp_kept, h e (by omega)]
    simp only [pure_bind, kept_pure]
  case conditional c y o =>
    rw [h c (by omega), h y (by omega), h o (by omega)]
    simp only [kept_pure, kept_bind]
  case selection e => rw [h e (by omega), kept_pure]
  case choice t a =>
    rw [h t (by omega), h a (by omega)]
    simp only [kept_pure, kept_bind]
  case block ss => rw [hlist, statements_kept h ss (by omega), kept_pure]
  case list es => rw [hlist, elements_kept h es (by omega), kept_pure]
  case switch e cs d =>
    rw [h e (by omega), hlist, cases_kept h cs (by omega), option_kept h d (by omega)]
    simp only [kept_pure, kept_bind]
  case loop b c a =>
    rw [option_kept h b (by omega), h c (by omega), option_kept h a (by omega)]
    simp only [kept_pure, kept_bind]
  case cond c y o =>
    rw [h c (by omega), h y (by omega), option_kept h o (by omega)]
    simp only [kept_pure, kept_bind]

end

/-- A reader loses nothing but numbers, if it is as deep as what it reads. -/
theorem expr?_kept : ∀ (n : Nat) (e : Expr Unit), e.toJson.depth ≤ n →
    expr? n e.toJson = kept e.quantities e
  | n, ⟨shape, location⟩, hn => by
    rw [Expr.toJson, depth, depthMembers_append] at hn
    obtain ⟨n, rfl⟩ : ∃ k, n = k + 1 := ⟨n - 1, by omega⟩
    have hl : member? "location" shape.members = none := by
      cases shape with
      | function f => cases f; rfl
      | _ => rfl
    have hr : expr? (n + 1) (Expr.toJson ⟨shape, location⟩) = (do
        return ⟨← shape? (expr? n) (shape.members ++ locationMember location),
          ← possible? location? "location" (shape.members ++ locationMember location)⟩) := rfl
    rw [hr, shape?_append_location, shape?_kept (expr?_kept n) shape (by omega),
      possible?_location hl]
    simp only [kept_pure, kept_bind, Expr.quantities]

/-! ## Stories -/

variable {n : Nat}

theorem placeholder?_kept (ps : List Document.Placeholder) :
    list? placeholder? (.arr (ps.map fun p =>
      .obj [("elementClass", .str p.elementClass), ("variableName", .str p.variableName)]))
      = pure ps := by
  rw [list?, arr?, Option.bind_some]
  induction ps with
  | nil => rfl
  | cons p ps ih =>
    rw [List.map_cons, List.mapM_cons, ih]
    rfl

theorem bound_kept (n : Option Nat) : optional? size? (some (option nat n))
    = kept (n.toList.map fun n => .word n Text.word64) n := by
  cases n with
  | none => rfl
  | some n =>
    have hn : nat n ≠ .null := nofun
    rw [option, optional?_some hn, size?, natBelow?_kept, kept_map]
    rfl

theorem content?_kept (c : Content) : content? c.toJson = kept c.bounds.quantities c := by
  have hc : content? c.toJson = (do
      return ⟨c.html, ← list? placeholder? (.arr (c.placeholders.map fun p =>
          .obj [("elementClass", .str p.elementClass), ("variableName", .str p.variableName)])),
        ⟨← optional? size? (some (option nat c.bounds.lower)),
          ← optional? size? (some (option nat c.bounds.upper))⟩⟩) := rfl
  rw [hc, placeholder?_kept, bound_kept, bound_kept, pure_bind]
  simp only [kept_pure, kept_bind, Bounds.quantities, List.map_append]

theorem mapM_kept {f : α → Json} {decode : Json → Option α} {quantities : α → List Quantity}
    (as : List α) (h : ∀ a ∈ as, decode (f a) = kept (quantities a) a) :
    (as.map f).mapM decode = kept (as.flatMap quantities) as := by
  induction as with
  | nil => rfl
  | cons a as ih =>
    rw [List.forall_mem_cons] at h
    rw [List.map_cons, List.mapM_cons, h.1, ih h.2]
    simp only [kept_pure, kept_bind, List.flatMap_cons]

theorem section?_kept (s : Section Unit)
    (hn : s.toJson.depth ≤ n + 1) : section? n s.toJson = kept s.quantities s := by
  obtain ⟨name, executes, next, contents, location⟩ := s
  simp only [Section.toJson, depth, depthMembers_append, depthMembers] at hn
  have hs : section? n (Section.toJson ⟨name, executes, next, contents, location⟩) = (do
      return ⟨name, ← optional? (expr? n) (some (optionJson executes)), ← expr? n next.toJson,
        ← (contents.map Content.toJson).mapM content?,
        ← possible? location? "location" (locationMember location)⟩) := by
    cases location <;> rfl
  rw [hs, option_kept (expr?_kept n) executes (by omega), expr?_kept n next (by omega),
    mapM_kept contents fun c _ => content?_kept c, place_kept]
  simp only [kept_pure, kept_bind, Section.quantities]

theorem version?_kept (v : Version) :
    version? (.obj [("major", .nat v.major), ("minor", .nat v.minor)])
      = kept [.word v.major Text.word32, .word v.minor Text.word32] v := by
  have hv : version? (.obj [("major", .nat v.major), ("minor", .nat v.minor)]) = (do
      return ⟨← natBelow? Text.word32 (.nat v.major), ← natBelow? Text.word32 (.nat v.minor)⟩) :=
    rfl
  rw [hv, natBelow?_kept, natBelow?_kept]
  simp only [kept_pure, kept_bind, List.cons_append, List.nil_append]

end Tree

open Tale.Tree Json

theorem depth_le_elements {j : Json} : ∀ {js : List Json}, j ∈ js → j.depth ≤ depthElements js
  | k :: js, h => by
    rw [depthElements]
    rcases List.mem_cons.mp h with rfl | h
    · exact Nat.le_max_left _ _
    · exact Nat.le_trans (depth_le_elements h) (Nat.le_max_right _ _)

theorem Story.ofJson?_kept (s : Story Unit) : Story.ofJson? s.toJson = kept s.quantities s := by
  obtain ⟨v, init, sections⟩ := s
  generalize hn : (Story.toJson ⟨v, init, sections⟩).depth = n
  have hs : Story.ofJson? (Story.toJson ⟨v, init, sections⟩) = (do
      return ⟨← version? (.obj [("major", .nat v.major), ("minor", .nat v.minor)]),
        ← (statementsJson init).mapM (statement? (expr? n)),
        ← (sections.map Section.toJson).mapM (Tree.section? n)⟩) := by
    rw [← hn]
    rfl
  simp only [Story.toJson, depth, depthMembers] at hn
  rw [hs, version?_kept, statements_kept (expr?_kept n) init (by omega),
    mapM_kept sections fun x hx => section?_kept x ?_]
  · simp only [kept_pure, kept_bind]
    rfl
  · have := depth_le_elements (List.mem_map_of_mem (f := Section.toJson) hx)
    omega

/-- The numbers that say where something stands, when it is shown and in which version fit the
words of the machine that they are kept in. -/
def Story.Fits (s : Story Unit) : Prop :=
  ∀ n limit, .word n limit ∈ s.quantities → n < limit

/-- All number literals are finite. -/
def Story.Finite (s : Story Unit) : Prop :=
  ∀ x, .number x ∈ s.quantities → ∃ b, Decimal.magnitude x = .finite b

theorem number_survives (x : Float) :
    (Quantity.number x).survives = true ↔ ∃ b, Decimal.magnitude x = .finite b := by
  rw [survives]
  cases Decimal.magnitude x <;> simp

theorem Story.finite_iff {s : Story Unit} (h : s.Fits) :
    s.Finite ↔ ∀ q ∈ s.quantities, q.survives = true := by
  constructor
  · rintro hf (x | ⟨n, limit⟩) hq
    · exact (number_survives x).mpr (hf x hq)
    · exact decide_eq_true (h n limit hq)
  · exact fun hs x hq => (number_survives x).mp (hs _ hq)

theorem Story.ofJson?_infinite {s : Story Unit} (h : ¬ s.Finite) :
    Story.ofJson? s.toJson = none := by
  rw [Story.ofJson?_kept]
  exact kept_eq_none fun hs => h fun x hq => (number_survives x).mp (hs _ hq)

/-! ## Numbers that are too large -/

namespace Logic

open Words Tale.Parser Grammar

/-- The words of a story whose only section comes to a number. -/
def counting (digits : String) : List Word :=
  [identifier "WTCD", (.number, Version.numeral ⟨1, 3⟩), keyword "section", identifier "s",
    keyword "then", (.number, digits)]

theorem number_operand {targets : List String} {digits : String} {P : Levels}
    {room min max : Nat} :
    Leads targets ⟨[(.number, digits)], P⟩ ⟨[], P⟩ (operand (room + 1) min max)
      (·.shape = .number (numberValue digits)) := by
  refine .bind (V := (·.shape = .number (numberValue digits))) ?_
    fun e he => climb_stops (fun _ => nofun) he
  exact peeked fun _ => .bind located_leads fun _ _ => .bind next_leads fun _ ht => by
    exact .pure rfl

theorem counting_section {targets : List String} {digits : String} {P : Levels} {room : Nat} :
    Leads targets ⟨[keyword "section", identifier "s", keyword "then", (.number, digits)], P⟩
      ⟨[], P⟩ («section» (operand (room + 1)) [])
      (·.next.shape = .number (numberValue digits)) := by
  refine .bind expect_leads fun word _ => .bind take_leads fun t _ => .no (by simp) ?_
  refine seen rfl (.yes rfl (.bind (.pure (V := fun _ => True) trivial) fun _ _ => ?_))
  refine .bind expect_leads fun _ _ => .bind number_operand fun e he => ?_
  exact .bind located_leads fun _ _ => .pure he

theorem counting_blocks {digits : String} {room : Nat} :
    Leads [] ⟨[keyword "section", identifier "s", keyword "then", (.number, digits)], .initial⟩
      ⟨[], .initial⟩ (blocks (operand (room + 1)) (room + 1) []) fun p =>
        p.2.map (·.next.shape) = [.number (numberValue digits)] := by
  rw [blocks]
  refine peeked fun _ => .no Bool.false_ne_true (unseen ?_ (.no Bool.false_ne_true ?_))
  · simp [keyword]
  refine seen rfl (.yes rfl (.bind counting_section fun s hs => ?_))
  refine .bind (V := fun p => p.2 = []) ?_ fun p hp => .pure ?_
  · rw [blocks.eq_def]
    refine .bind peek?_leads fun t ht => .yes ?_ (.pure rfl)
    rw [Option.map_eq_none_iff.mp ht, Option.isNone_none]
  · rw [List.map_cons, hs, hp, List.map_nil]

theorem counting_leads (digits : String) (room : Nat) :
    Leads [] ⟨counting digits, .initial⟩ ⟨[], .initial⟩ (logic (room + 1)) fun l =>
      l.story.sections.map (·.next.shape) = [.number (numberValue digits)] := by
  refine .bind (version_leads (v := ⟨1, 3⟩) (by decide) (by decide)) fun _ _ => ?_
  refine .bind counting_blocks fun p hp => .get_bind fun r hr => ?_
  refine .bind (forIn_leads fun t ht => ?_) fun _ _ => .pure hp
  exact absurd (hr.targets t (List.mem_reverse.mp ht)) List.not_mem_nil

theorem number_mem {s : Story Unit} {x : Float}
    (h : s.sections.map (·.next.shape) = [.number x]) : .number x ∈ s.quantities := by
  obtain ⟨t, ht, hx⟩ : ∃ t ∈ s.sections, t.next.shape = .number x := by
    rw [← List.mem_map, h]
    exact .head _
  refine .tail _ (.tail _ (List.mem_append_right _ (List.mem_flatMap.mpr ⟨t, ht, ?_⟩)))
  refine List.mem_append_right _ (List.mem_append_left _ ?_)
  obtain ⟨_, _, ⟨shape, location⟩, _, _⟩ := t
  subst hx
  exact .head _

/-- A text with these words is read as such a story. -/
theorem parse_counting {source digits : String} {location : Location}
    (hw : (Tokens.ofText source).tokens.map Token.word = counting digits)
    (he : (Tokens.ofText source).ending = .ok location) (mapped : Bool) :
    ∃ l, Logic.parse source mapped = .ok l
      ∧ l.story.sections.map (·.next.shape) = [.number (numberValue digits)] := by
  obtain ⟨l, r', hr, -, hl⟩ := counting_leads digits (Tokens.ofText source).tokens.length
    { tokens := (Tokens.ofText source).tokens, ending := .ok location, mapped }
    ⟨hw, ⟨location, rfl⟩, rfl, fun _ => nofun⟩
  refine ⟨l, ?_, hl⟩
  simp only [Logic.parse, he]
  split
  · rename_i hend
    cases hend
  · simp only [StateT.run', hr, Functor.map, Except.map]

end Logic

/-- Without a header, a document is its logic. -/
theorem Document.parse_headless {options : Document.Options} {cs : List Char} {l : Logic}
    (hs : splitFrom 0 true (Text.replaceAll ['\r', '\n'] ['\n'] cs) = (cs, []))
    (hl : Logic.parse (String.ofList cs) options.mapped = .ok l) :
    Document.parse options (String.ofList cs) = .ok l.story := by
  simp only [Document.parse, split, String.toList_ofList, hs, hl, attachAll]
  rfl

/-- The digits of a number that is too large for a double. -/
def overlong : List Char :=
  List.replicate 310 '9'

theorem numberValue_overlong :
    Decimal.magnitude (Grammar.numberValue (String.ofList overlong)) = .infinite := by
  rw [Grammar.numberValue, String.toList_ofList]
  decide +kernel

/-- A story that comes to this number. -/
def countingFar : List Char :=
  "WTCD 1.3 section s then ".toList ++ overlong

theorem split_countingFar :
    Document.splitFrom 0 true (Text.replaceAll ['\r', '\n'] ['\n'] countingFar)
      = (countingFar, []) := by
  decide +kernel

theorem words_countingFar :
    (Tokens.ofText (String.ofList countingFar)).tokens.map Token.word
      = Logic.counting (String.ofList overlong) := by
  rw [Tokens.ofText, Cursor.ofText, String.toList_ofList]
  decide +kernel

theorem ending_countingFar :
    ∃ location, (Tokens.ofText (String.ofList countingFar)).ending = .ok location := by
  have h : (Tokens.ofText (String.ofList countingFar)).ending.toOption.isSome := by
    rw [Tokens.ofText, Cursor.ofText, String.toList_ofList]
    decide +kernel
  rcases hn : (Tokens.ofText (String.ofList countingFar)).ending with e | location
  · rw [hn] at h
    cases h
  · exact ⟨location, rfl⟩

theorem parse_overlong :
    ∃ source story, Document.parse {} source = .ok story ∧ ¬ story.Finite := by
  obtain ⟨location, hn⟩ := ending_countingFar
  obtain ⟨l, hl, hm⟩ := Logic.parse_counting words_countingFar hn true
  refine ⟨_, l.story, Document.parse_headless split_countingFar hl, fun hf => ?_⟩
  obtain ⟨b, hb⟩ := hf _ (Logic.number_mem hm)
  rw [numberValue_overlong] at hb
  cases hb

theorem interchange {s : Story Unit} (h : s.Fits) :
    (Story.ofJson? s.toJson = some s ↔ s.Finite)
      ∧ (¬ s.Finite → Story.ofJson? s.toJson = none)
      ∧ ∃ source story, Document.parse {} source = .ok story ∧ ¬ story.Finite
        ∧ Story.ofJson? story.toJson = none := by
  refine ⟨?_, Story.ofJson?_infinite, ?_⟩
  · rw [Story.ofJson?_kept, Story.finite_iff h]
    exact kept_eq_some
  · obtain ⟨source, story, hp, hf⟩ := parse_overlong
    exact ⟨source, story, hp, hf, Story.ofJson?_infinite hf⟩

/-- A story with a function, a place and contents that are shown from the second visit on. -/
def revisited : Story Unit where
  version := ⟨1, 2⟩
  init := [⟨.declare [⟨"f", none, some ⟨.function ⟨(),
    [⟨"x", some [.number], some ⟨.number 3, none⟩, some ⟨2, 5⟩⟩], some "rest", ["outer"],
    ⟨.block [⟨.leave .return ⟨.number 1.5, none⟩, some ⟨2, 9⟩⟩], none⟩⟩, none⟩, none⟩], none⟩]
  sections := [⟨"start", none, ⟨.exit, none⟩,
    [⟨"<p>hi</p>", [⟨"wtcd-variable-a", "f"⟩], ⟨some 2, none⟩⟩], some ⟨3, 1⟩⟩]

/-- A story that comes to infinity. -/
def boundless : Story Unit where
  version := ⟨1, 3⟩
  init := []
  sections := [⟨"start", none, ⟨.number (Float.ofBits 0x7FF0000000000000), none⟩, [], none⟩]

theorem interchange_revisited :
    (revisited.Fits ∧ revisited.Finite ∧ Story.ofJson? revisited.toJson = some revisited)
      ∧ boundless.Fits ∧ ¬ boundless.Finite ∧ Story.ofJson? boundless.toJson = none := by
  have h : revisited.quantities.all survives = true := by decide +kernel
  rw [List.all_eq_true] at h
  have hw : revisited.Fits := fun n limit hq => of_decide_eq_true (h _ hq)
  have hf := (Story.finite_iff hw).mpr h
  have hq : boundless.quantities = [.word 1 Text.word32, .word 3 Text.word32,
    .number (Float.ofBits 0x7FF0000000000000)] := rfl
  have hw' : boundless.Fits := by
    intro n limit hn
    simp only [hq, List.mem_cons, Quantity.word.injEq, reduceCtorEq, List.not_mem_nil,
      or_false] at hn
    rcases hn with ⟨rfl, rfl⟩ | ⟨rfl, rfl⟩ <;> decide
  have hf' : ¬ boundless.Finite := by
    intro hf
    obtain ⟨b, hb⟩ := hf (Float.ofBits 0x7FF0000000000000) (hq ▸ .tail _ (.tail _ (.head _)))
    have hi : Decimal.magnitude (Float.ofBits 0x7FF0000000000000) = .infinite := by decide +kernel
    rw [hi] at hb
    cases hb
  exact ⟨⟨hw, hf, (interchange hw).1.mpr hf⟩, hw', hf', (interchange hw').2.1 hf'⟩

end Tale
