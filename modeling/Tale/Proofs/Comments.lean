import Mathlib.Algebra.Group.Nat.Even
import Tale.Proofs.Positions

/-!
# Comments

A block comment ends at the first `*/`, if an even number of stars stands before it. A star takes
the next character along, so after an odd number of them the end is passed over, and the comment
goes on as one that begins there (`Tokens.scan_comment`). Other than that nothing in a comment
matters: what comes after it is read as if it stood there alone, at its own place. A line comment
ends at its line break, which is a gap of its own.
-/

namespace Tale

/-- The number of stars a text ends in. -/
def starsAtEnd (s : List Char) : Nat :=
  (s.reverse.takeWhile (· = '*')).length

theorem starsAtEnd_cons (c : Char) (cs : List Char) :
    starsAtEnd (c :: cs)
      = if c = '*' ∧ starsAtEnd cs = cs.length then cs.length + 1 else starsAtEnd cs := by
  rw [starsAtEnd, starsAtEnd, List.reverse_cons, List.takeWhile_append, List.length_reverse]
  by_cases hall : (cs.reverse.takeWhile (· = '*')).length = cs.length
  · by_cases hc : c = '*' <;> simp [hall, hc]
  · simp only [hall, if_false, and_false]

/-- Two characters, the first one a star, are a pair of stars or end what stars there are. -/
theorem even_starsAtEnd (c : Char) (cs : List Char) :
    Even (starsAtEnd ('*' :: c :: cs)) ↔ Even (starsAtEnd cs) := by
  rw [starsAtEnd_cons, starsAtEnd_cons c]
  by_cases hall : c = '*' ∧ starsAtEnd cs = cs.length
  · simp [hall, Nat.even_add_one]
  · have hle : starsAtEnd cs ≤ cs.length := by
      have hr := (List.takeWhile_sublist (· = '*') (l := cs.reverse)).length_le
      rwa [List.length_reverse] at hr
    have hne : starsAtEnd cs ≠ cs.length + 1 := by omega
    simp [hall, hne]

/-- A text in which no block comment ends. -/
def Endless (body : List Char) : Prop :=
  ¬ ['*', '/'] <:+: body

instance : DecidablePred Endless :=
  fun _ => inferInstanceAs (Decidable (¬ _))

theorem Endless.of_cons {c : Char} {cs : List Char} (h : Endless (c :: cs)) : Endless cs :=
  fun hcs => h (hcs.trans (List.suffix_cons c cs).isInfix)

theorem Endless.not_slash {c : Char} {cs : List Char} (h : Endless ('*' :: c :: cs)) : c ≠ '/' := by
  rintro rfl
  exact h ⟨[], cs, rfl⟩

namespace Lexeme

/-- A block comment up to the first end in it. -/
theorem blockComment_append {body : List Char} (h : Endless body) (rest : List Char) :
    blockComment (body ++ '*' :: '/' :: rest)
      = if Even (starsAtEnd body) then some (body.length + 2)
        else (blockComment rest).map (· + (body.length + 2)) := by
  fun_induction blockComment body with
  | case1 => rfl
  | case2 =>
    show ((blockComment rest).map (· + 1)).map (· + 2) = (blockComment rest).map (· + 3)
    rw [Option.map_map]
    rfl
  | case3 => exact absurd rfl h.not_slash
  | case4 c cs hc ih =>
    rw [List.cons_append, List.cons_append, blockComment, if_neg hc, ih h.of_cons.of_cons]
    simp only [even_starsAtEnd, apply_ite (Option.map (· + 2)), Option.map_map]
    rfl
  | case5 c cs hone htwo ih =>
    have hc : c ≠ '*' := by
      rintro rfl
      rcases cs with _ | ⟨d, cs⟩
      · exact hone rfl rfl
      · exact htwo d cs rfl rfl
    have hstars : starsAtEnd (c :: cs) = starsAtEnd cs := by
      rw [starsAtEnd_cons, if_neg fun hs => hc hs.1]
    rw [List.cons_append, blockComment.eq_4 _ _ (fun hs => absurd hs hc) fun _ _ hs => absurd hs hc,
      ih h.of_cons, hstars, apply_ite (Option.map (· + 1)), Option.map_map]
    rfl

/-- A line comment up to its line break, and the break with it. -/
theorem lineComment_append {body : List Char} (h : '\n' ∉ body) (rest : List Char) :
    lineComment (body ++ rest) = body.length + lineComment rest := by
  induction body with
  | nil => exact (Nat.zero_add _).symm
  | cons c cs ih =>
    rw [List.mem_cons, not_or] at h
    rw [List.cons_append, lineComment, if_neg (Ne.symm h.1), ih h.2, List.length_cons]
    omega

end Lexeme

namespace Tokens

variable {l : Location} {cs rest : List Char} {n : Nat}

theorem scan_block (h : Lexeme.blockComment cs = some n) :
    scan ⟨l, '/' :: '*' :: cs⟩
      = scan ⟨l.past ('/' :: '*' :: cs.take n), cs.drop n⟩ := by
  have hr : Lexeme.read '/' ('*' :: cs) = .ok (.gap, n + 1) := by
    rw [Lexeme.read, if_neg (by decide), if_pos ⟨rfl, rfl⟩, List.tail_cons, h]
  exact scan_gap hr

theorem scan_unclosed (h : Lexeme.blockComment cs = none) :
    scan ⟨l, '/' :: '*' :: cs⟩
      = ⟨[], .error ⟨.character none none, some (l.past ('/' :: '*' :: cs))⟩⟩ := by
  have hr : Lexeme.read '/' ('*' :: cs) = .error ⟨.character none none, cs.length + 2⟩ := by
    rw [Lexeme.read, if_neg (by decide), if_pos ⟨rfl, rfl⟩, List.tail_cons, h]
    rfl
  rw [scan_misread hr]
  simp [Cursor.skip]

theorem scan_line (cs : List Char) :
    scan ⟨l, '/' :: '/' :: cs⟩ = scan ⟨l.past ('/' :: '/' :: cs.take (Lexeme.lineComment cs)),
      cs.drop (Lexeme.lineComment cs)⟩ := by
  have hr : Lexeme.read '/' ('/' :: cs) = .ok (.gap, Lexeme.lineComment cs + 1) := rfl
  exact scan_gap hr

/-- A block comment with an even number of stars before its end is skipped. -/
theorem scan_block_even {body : List Char} (h : Endless body) (he : Even (starsAtEnd body)) :
    scan ⟨l, ['/', '*'] ++ body ++ ['*', '/'] ++ rest⟩
      = scan ⟨l.past (['/', '*'] ++ body ++ ['*', '/']), rest⟩ := by
  have hb := Lexeme.blockComment_append h rest
  rw [if_pos he] at hb
  simp only [List.append_assoc, List.cons_append, List.nil_append, scan_block hb,
    List.take_length_add_append, List.drop_length_add_append]
  rfl

/-- A block comment that is passed over at its end goes on as one that begins there; an end is as
wide as a beginning. -/
theorem scan_block_odd {body : List Char} (h : Endless body) (hodd : ¬ Even (starsAtEnd body)) :
    scan ⟨l, ['/', '*'] ++ body ++ ['*', '/'] ++ rest⟩
      = scan ⟨l.past (['/', '*'] ++ body), ['/', '*'] ++ rest⟩ := by
  have hb := Lexeme.blockComment_append h rest
  rw [if_neg hodd] at hb
  simp only [List.append_assoc, List.cons_append, List.nil_append]
  have hwide (s : List Char) : l.past ('/' :: '*' :: (body ++ '*' :: '/' :: s))
      = (l.past ('/' :: '*' :: body)).past ('/' :: '*' :: s) := by
    rw [← List.cons_append, ← List.cons_append, Location.past_append]
    rfl
  rcases hr : Lexeme.blockComment rest with _ | n
  · rw [hr] at hb
    rw [scan_unclosed hb, scan_unclosed hr, hwide]
  · rw [hr] at hb
    rw [scan_block (n := body.length + 2 + n) (by simpa [Nat.add_comm] using hb), scan_block hr,
      Nat.add_assoc, List.take_length_add_append, List.drop_length_add_append, Nat.add_comm 2 n,
      List.take_succ_cons, List.take_succ_cons, List.drop_succ_cons, List.drop_succ_cons, hwide]

/-- A line comment is skipped up to its line break or the end of the text. It takes the line break
along, which would be a gap of its own. -/
theorem scan_line_body {body : List Char} (h : '\n' ∉ body) (hr : ∀ c ∈ rest.head?, c = '\n') :
    scan ⟨l, ['/', '/'] ++ body ++ rest⟩ = scan ⟨l.past (['/', '/'] ++ body), rest⟩ := by
  simp only [List.cons_append, List.nil_append, scan_line, Lexeme.lineComment_append h,
    List.take_length_add_append, List.drop_length_add_append]
  rcases rest with _ | ⟨c, rest⟩
  · rw [List.take_nil, List.drop_nil, List.append_nil]
  · rw [hr c rfl, scan_gap (c := '\n') (n := 0) rfl]
    show scan ⟨l.past (('/' :: '/' :: body) ++ ['\n']), rest⟩ = _
    rw [Location.past_append]
    rfl

/-- Comments are transparent, whatever stands in them, but for a block comment with an odd number
of stars before its end: what is read in front of a comment is what is read behind it, where it is.
A comment whose end is passed over goes on as one that begins there. -/
theorem scan_comment (l : Location) (body rest : List Char) :
    (Endless body → (Even (starsAtEnd body) →
        scan ⟨l, ['/', '*'] ++ body ++ ['*', '/'] ++ rest⟩
          = scan ⟨l.past (['/', '*'] ++ body ++ ['*', '/']), rest⟩)
      ∧ (¬ Even (starsAtEnd body) →
        scan ⟨l, ['/', '*'] ++ body ++ ['*', '/'] ++ rest⟩
          = scan ⟨l.past (['/', '*'] ++ body), ['/', '*'] ++ rest⟩))
    ∧ ('\n' ∉ body → (∀ c ∈ rest.head?, c = '\n') →
      scan ⟨l, ['/', '/'] ++ body ++ rest⟩ = scan ⟨l.past (['/', '/'] ++ body), rest⟩) :=
  ⟨fun h => ⟨scan_block_even h, scan_block_odd h⟩, scan_line_body⟩

/-- Both kinds of comments, with signs in them that could begin or end a comment or a text. -/
theorem scan_comment_signs :
    let block := ['/', '*', '*', '\'', '\n', '"', '/', '/', '*', '*']
    let line := ['*', '/', '"', '/', '*']
    Endless block ∧ Even (starsAtEnd block) ∧ '\n' ∉ line
      ∧ scan ⟨.start, ['/', '*'] ++ block ++ ['*', '/'] ++ ['a']⟩ = scan ⟨⟨2, 8⟩, ['a']⟩
      ∧ scan ⟨.start, ['/', '/'] ++ line ++ ['\n', 'a']⟩ = scan ⟨⟨1, 8⟩, ['\n', 'a']⟩
      ∧ scan ⟨.start, ['/', '*'] ++ ['*'] ++ ['*', '/'] ++ ['a']⟩
        = scan ⟨⟨1, 4⟩, ['/', '*', 'a']⟩ := by
  intro block line
  have hblock : Endless block := by decide
  have heven : Even (starsAtEnd block) := by decide
  have hline : '\n' ∉ line := by decide
  refine ⟨hblock, heven, hline, ?_, ?_, ?_⟩
  · exact ((scan_comment .start block ['a']).1 hblock).1 heven
  · have hbreak : ∀ c ∈ ['\n', 'a'].head?, c = '\n' := by
      rintro c ⟨⟩
      rfl
    exact (scan_comment .start line ['\n', 'a']).2 hline hbreak
  · exact ((scan_comment .start ['*'] ['a']).1 (by decide)).2 (by decide)

/-- A comment of three stars does not end: the name behind it is not read. -/
theorem scan_comment_starred :
    Endless ['*'] ∧ (scan ⟨.start, ['/', '*'] ++ ['*'] ++ ['*', '/'] ++ [' ', 'a']⟩).tokens = []
      ∧ (scan ⟨Location.start.past (['/', '*'] ++ ['*'] ++ ['*', '/']), [' ', 'a']⟩).tokens
        = [⟨.identifier, "a", ⟨1, 7⟩⟩] := by
  refine ⟨by decide, congrArg Tokens.tokens (scan_unclosed rfl), ?_⟩
  have ha : Spelled .identifier ['a'] ['a'] := .identifier (by decide) nofun (by decide)
  have hs : scan ⟨⟨1, 7⟩, ['a'] ++ []⟩ = _ := scan_spelled ha fun _ => nofun
  rw [List.append_nil] at hs
  show (scan ⟨⟨1, 6⟩, [' ', 'a']⟩).tokens = _
  rw [scan_blank]
  show (scan ⟨⟨1, 7⟩, ['a']⟩).tokens = _
  rw [hs, scan]
  rfl

end Tokens

end Tale
