import Mathlib.Data.Bool.AllAny
import Mathlib.Data.List.DropRight
import Mathlib.Data.List.Infix
import Mathlib.Data.List.Nodup
import Tale.Proofs.Scanning
import Tale.Text.Blank
import Tale.Text.Markup

/-!
# Entities

A character that means something in markup is written as an entity: an ampersand, a name and a
semicolon, with neither of these two in the name. So two entities at one place are the same, none
begins inside another, and replacing one of them leaves all other characters of an escaped text as
they are (`replaceAll_flatMap`). Read back one after the other they give the text again
(`unescape_escape`), and no ampersand is left in an escaped text but those that begin one of them
(`ampersand_escape`).

An entity begins and ends with characters of no class that is taken off the ends of a text, so a
text may be trimmed before or after it is escaped (`trim_escape`).
-/

namespace Tale.Text

/-! ## Entities -/

/-- The characters that are written as entities. -/
def special : List Char :=
  ['&', '<', '>', '"', '\'']

/-- An ampersand, a name and a semicolon. -/
def IsEntity (s : List Char) : Prop :=
  ∃ name, s = '&' :: (name ++ [';']) ∧ '&' ∉ name ∧ ';' ∉ name

variable {c d : Char} {s t : List Char}

/-- Of two entities that begin at one place neither is longer. -/
theorem IsEntity.eq_of_prefix (hs : IsEntity s) (ht : IsEntity t) {r : List Char}
    (h : s <+: t ++ r) : s = t := by
  obtain ⟨m, rfl, -, hm⟩ := hs
  obtain ⟨n, rfl, -, hn⟩ := ht
  obtain ⟨r', h⟩ := h
  simp only [List.cons_append, List.append_assoc, List.nil_append, List.cons.injEq, true_and] at h
  rw [(append_sep_inj hm hn h).1]

theorem isEntity_entity (h : c ∈ special) : IsEntity (entity c) := by
  simp only [special, List.mem_cons, List.not_mem_nil, or_false] at h
  rcases h with rfl | rfl | rfl | rfl | rfl
  · exact ⟨"amp".toList, by decide⟩
  · exact ⟨"lt".toList, by decide⟩
  · exact ⟨"gt".toList, by decide⟩
  · exact ⟨"quot".toList, by decide⟩
  · exact ⟨"#39".toList, by decide⟩

theorem entity_plain (h : c ∉ special) : entity c = [c] := by
  simp only [special, List.mem_cons, List.not_mem_nil, or_false, not_or] at h
  obtain ⟨h₁, h₂, h₃, h₄, h₅⟩ := h
  rw [entity, if_neg h₁, if_neg h₂, if_neg h₃, if_neg h₄, if_neg h₅]

theorem IsEntity.ne_singleton (h : IsEntity s) : s ≠ [c] := by
  obtain ⟨n, rfl, -, -⟩ := h
  simp

theorem entity_inj (h : entity c = entity d) : c = d := by
  by_cases hc : c ∈ special <;> by_cases hd : d ∈ special
  · exact List.inj_on_of_nodup_map (by decide : (special.map entity).Nodup) hc hd h
  · rw [entity_plain hd] at h
    exact absurd h (isEntity_entity hc).ne_singleton
  · rw [entity_plain hc] at h
    exact absurd h.symm (isEntity_entity hd).ne_singleton
  · rw [entity_plain hc, entity_plain hd] at h
    exact List.singleton_inj.mp h

/-- An escaped text has its own characters, if these are not special, and those of entities. -/
theorem mem_escape (h : d ∈ escape s) :
    d ∈ s ∧ d ∉ special ∨ d ∈ special.flatMap entity := by
  obtain ⟨c, hc, hd⟩ := List.mem_flatMap.mp h
  by_cases hs : c ∈ special
  · exact .inr (List.mem_flatMap.mpr ⟨c, hs, hd⟩)
  · rw [entity_plain hs, List.mem_singleton] at hd
    exact .inl ⟨hd ▸ hc, hd ▸ hs⟩

/-- Escaped text opens and closes nothing. -/
theorem not_mem_escape {d : Char} (h : d ∈ ['<', '>', '"', '\'']) (s : List Char) :
    d ∉ escape s := by
  intro hd
  rcases mem_escape hd with ⟨-, hn⟩ | hn
  · exact hn (List.mem_cons_of_mem _ h)
  · have hapart : ∀ d ∈ ['<', '>', '"', '\''], d ∉ special.flatMap entity :=
      List.all_iff_forall_prop.mp (by decide)
    exact hapart d h hn

/-! ## Reading entities back -/

/-- An entity is replaced exactly where it was written for a character. -/
theorem replaceAll_flatMap {pat new : List Char} (hp : IsEntity pat) {e : Char → List Char}
    (he : ∀ c, IsEntity (e c) ∨ e c = [c] ∧ c ≠ '&') (s : List Char) :
    replaceAll pat new (s.flatMap e) = s.flatMap fun c => if e c = pat then new else e c := by
  obtain ⟨n, hn, -, -⟩ := id hp
  induction s with
  | nil => rw [hn]; rfl
  | cons c s ih =>
    rw [List.flatMap_cons, List.flatMap_cons, ← ih]
    rcases he c with hc | ⟨hc, hne⟩
    · by_cases h : e c = pat
      · rw [if_pos h, h, hn]
        exact replaceAll_here
      · have hfirst : ¬ pat <+: e c ++ s.flatMap e := fun hpre => h (hp.eq_of_prefix hc hpre).symm
        obtain ⟨m, hm, hamp, -⟩ := hc
        rw [if_neg h]
        rw [hm, hn, List.cons_append] at hfirst ⊢
        rw [replaceAll_cons hfirst, replaceAll_append, List.cons_append]
        simp [hamp]
    · rw [if_neg (hc ▸ hp.ne_singleton.symm), hc, hn]
      refine replaceAll_append _ ?_
      rw [List.mem_singleton]
      exact hne.symm

/-- The text of a character where the entities of some have been read back. -/
def entityBut (read : List Char) (c : Char) : List Char :=
  if c ∈ read then [c] else entity c

theorem entityBut_cases {read : List Char} (h : '&' ∉ read) (c : Char) :
    IsEntity (entityBut read c) ∨ entityBut read c = [c] ∧ c ≠ '&' := by
  unfold entityBut
  split_ifs with hr
  · exact .inr ⟨rfl, ne_of_mem_of_not_mem hr h⟩
  · by_cases hc : c ∈ special
    · exact .inl (isEntity_entity hc)
    · refine .inr ⟨entity_plain hc, ?_⟩
      rintro rfl
      exact hc List.mem_cons_self

theorem replaceAll_entity {read : List Char} (hd : d ∈ special) (h : '&' ∉ read) (s : List Char) :
    replaceAll (entity d) [d] (s.flatMap (entityBut read)) = s.flatMap (entityBut (d :: read)) := by
  rw [replaceAll_flatMap (isEntity_entity hd) (entityBut_cases h)]
  congr 1
  funext c
  have hne : [c] ≠ entity d := (isEntity_entity hd).ne_singleton.symm
  by_cases hr : c ∈ read
  · simp [entityBut, hr, hne]
  · by_cases hcd : c = d
    · subst hcd
      simp [entityBut, hr]
    · simp [entityBut, hr, hcd, mt entity_inj hcd]

/-- A text is read back from its escaped form, whatever it looks like itself. -/
theorem unescape_escape (s : List Char) : unescape (escape s) = s := by
  have hnbsp : IsEntity "&nbsp;".toList := ⟨"nbsp".toList, by decide⟩
  have hwritten : ∀ c ∈ special, entity c ≠ "&nbsp;".toList :=
    List.all_iff_forall_prop.mp (by decide)
  have hkept (read : List Char) (c : Char) : entityBut read c ≠ "&nbsp;".toList := by
    unfold entityBut
    split_ifs with hr
    · exact hnbsp.ne_singleton.symm
    · by_cases hc : c ∈ special
      · exact hwritten c hc
      · exact entity_plain hc ▸ hnbsp.ne_singleton.symm
  have hfirst : entityBut [] = entity := funext fun _ => if_neg List.not_mem_nil
  calc unescape (escape s)
      = replaceAll (entity '&') ['&'] (replaceAll "&nbsp;".toList [' ']
          (replaceAll (entity '\'') ['\''] (replaceAll (entity '"') ['"']
            (replaceAll (entity '>') ['>'] (replaceAll (entity '<') ['<']
              (s.flatMap (entityBut []))))))) := by
        rw [hfirst]
        rfl
    _ = s.flatMap (entityBut ['&', '\'', '"', '>', '<']) := by
        rw [replaceAll_entity (by decide) (by decide), replaceAll_entity (by decide) (by decide),
          replaceAll_entity (by decide) (by decide), replaceAll_entity (by decide) (by decide),
          replaceAll_flatMap hnbsp (entityBut_cases (by decide))]
        simp only [hkept, if_false]
        rw [replaceAll_entity (by decide) (by decide)]
    _ = s.flatMap fun c => [c] := by
        congr 1
        funext c
        unfold entityBut
        split_ifs with hr
        · rfl
        · exact entity_plain fun hc => hr ((by decide : special ⊆ ['&', '\'', '"', '>', '<']) hc)
    _ = s := List.flatMap_singleton' s

/-! ## Escaped texts -/

/-- An entity has no ampersand but the one it begins with. -/
theorem IsEntity.front_eq_nil (h : IsEntity s) {front rest : List Char}
    (hs : s = front ++ '&' :: rest) : front = [] := by
  obtain ⟨n, rfl, hamp, -⟩ := h
  rcases front with _ | ⟨c, front⟩
  · rfl
  · have hmem : '&' ∈ n ++ [';'] := by
      rw [(List.cons.inj hs).2]
      exact List.mem_append_right front (.head _)
    rw [List.mem_append, List.mem_singleton] at hmem
    exact absurd hmem (not_or.mpr ⟨hamp, by decide⟩)

/-- The text of a character has an ampersand at its head or nowhere. -/
theorem special_of_ampersand {front rest : List Char} (h : entity c = front ++ '&' :: rest) :
    front = [] ∧ c ∈ special := by
  by_cases hc : c ∈ special
  · exact ⟨(isEntity_entity hc).front_eq_nil h, hc⟩
  · rw [entity_plain hc, List.singleton_eq_append_iff] at h
    rcases h with ⟨-, h⟩ | ⟨-, h⟩
    · cases h
      exact absurd (List.mem_cons_self : '&' ∈ special) hc
    · cases h

/-- An ampersand in an escaped text was written for a character of the text, with which an entity
begins in its place. It is past what is written for the first character, right after it, or in
it. -/
theorem ampersand_escape : ∀ {s front rest : List Char}, escape s = front ++ '&' :: rest →
    ∃ a c b, s = a ++ c :: b ∧ c ∈ special ∧ front = escape a
      ∧ '&' :: rest = entity c ++ escape b
  | [], front, rest, h => by
    have h : [] = front ++ '&' :: rest := h
    simp at h
  | c :: s, front, rest, h => by
    have onward : ∀ front', front = entity c ++ front' → escape s = front' ++ '&' :: rest →
        ∃ a d b, c :: s = a ++ d :: b ∧ d ∈ special ∧ front = escape a
          ∧ '&' :: rest = entity d ++ escape b := by
      rintro front' rfl hs
      obtain ⟨a, d, b, rfl, hd, rfl, hr⟩ := ampersand_escape hs
      exact ⟨c :: a, d, b, rfl, hd, rfl, hr⟩
    have hs : entity c ++ escape s = front ++ '&' :: rest := h
    rcases List.append_eq_append_iff.mp hs with ⟨front', hf, hr⟩ | ⟨_ | ⟨d, r⟩, hc, hr⟩
    · exact onward front' hf hr
    · exact onward [] (by simpa using hc.symm) hr.symm
    · obtain ⟨rfl, rfl⟩ := List.cons.inj hr
      obtain ⟨rfl, hspecial⟩ := special_of_ampersand hc
      exact ⟨[], c, s, rfl, hspecial, rfl, by rw [hc]; rfl⟩

theorem entity_written (h : c ∈ special) :
    ∃ e ∈ ["&amp;", "&lt;", "&gt;", "&quot;", "&#39;"], e.toList = entity c := by
  simp only [special, List.mem_cons, List.not_mem_nil, or_false] at h
  rcases h with rfl | rfl | rfl | rfl | rfl
  · exact ⟨"&amp;", by simp, rfl⟩
  · exact ⟨"&lt;", by simp, rfl⟩
  · exact ⟨"&gt;", by simp, rfl⟩
  · exact ⟨"&quot;", by simp, rfl⟩
  · exact ⟨"&#39;", by simp, rfl⟩

/-- An escaped text has no character that means something in markup, but for ampersands that begin
one of five entities, and it is read back as the text, whatever that looks like. -/
theorem escape_undone (s : List Char) :
    (∀ d ∈ ['<', '>', '"', '\''], d ∉ escape s)
    ∧ (∀ front rest, escape s = front ++ '&' :: rest →
      ∃ e ∈ ["&amp;", "&lt;", "&gt;", "&quot;", "&#39;"], e.toList <+: '&' :: rest)
    ∧ unescape (escape s) = s := by
  refine ⟨fun d hd => not_mem_escape hd s, fun front rest h => ?_, unescape_escape s⟩
  obtain ⟨a, c, b, -, hc, -, hr⟩ := ampersand_escape h
  obtain ⟨e, he, hec⟩ := entity_written hc
  exact ⟨e, he, hec ▸ ⟨escape b, hr.symm⟩⟩

/-- A text that looks escaped itself, once and twice over. -/
theorem escape_undone_escaped :
    let s := "&lt;&amp;lt;&nbsp;".toList
    '<' ∉ escape s
      ∧ escape s = "&amp;lt;".toList ++ '&' :: "amp;amp;lt;&amp;nbsp;".toList
      ∧ (∃ e ∈ ["&amp;", "&lt;", "&gt;", "&quot;", "&#39;"],
        e.toList <+: '&' :: "amp;amp;lt;&amp;nbsp;".toList)
      ∧ unescape (escape s) = s := by
  intro s
  have hs : escape s = "&amp;lt;".toList ++ '&' :: "amp;amp;lt;&amp;nbsp;".toList := by
    decide +kernel
  have h := escape_undone s
  exact ⟨h.1 '<' (by decide), hs, h.2.1 _ _ hs, h.2.2⟩

/-! ## Trimming -/

section Trimming

variable {p : Char → Bool}

theorem dropEndWhile_concat (p : Char → Bool) (s : List Char) (c : Char) :
    dropEndWhile p (s ++ [c]) = if p c then dropEndWhile p s else s ++ [c] :=
  List.rdropWhile_concat p s c

/-- What is taken off the end of a text, and where it stops. -/
theorem dropEndWhile_append (p : Char → Bool) (s : List Char) :
    ∃ tail, s = dropEndWhile p s ++ tail ∧ (∀ c ∈ tail, p c = true)
      ∧ ∀ c ∈ (dropEndWhile p s).getLast?, p c = false := by
  induction s using List.reverseRecOn with
  | nil => exact ⟨[], rfl, nofun, nofun⟩
  | append_singleton s c ih =>
    rw [dropEndWhile_concat]
    split_ifs with hc
    · obtain ⟨tail, hs, ht, hl⟩ := ih
      refine ⟨tail ++ [c], ?_, ?_, hl⟩
      · rw [← List.append_assoc, ← hs]
      · simpa [or_imp, forall_and, hc] using ht
    · refine ⟨[], (List.append_nil _).symm, nofun, ?_⟩
      simpa using hc

theorem trim_concat (h : isBlank c = true) (s : List Char) : trim (s ++ [c]) = trim s := by
  rw [trim, trim, List.dropWhile_append]
  split_ifs with hs
  · rw [List.isEmpty_iff.mp hs, List.dropWhile_cons_of_pos h]
    rfl
  · rw [trimEnd, dropEndWhile_concat, if_pos h, trimEnd]

/-! A class of characters that no entity begins or ends with is one that neither a special character
nor the semicolon is of. -/

theorem not_outer (hp : (';' :: special).any p = false) (hc : c ∈ ';' :: special) : p c = false :=
  Bool.eq_false_iff.mpr (List.any_eq_false.mp hp c hc)

theorem entity_head (hp : (';' :: special).any p = false) (h : p c = false) :
    ∃ d r, entity c = d :: r ∧ p d = false := by
  by_cases hc : c ∈ special
  · obtain ⟨n, hn, -, -⟩ := isEntity_entity hc
    exact ⟨_, _, hn, not_outer hp (by decide)⟩
  · exact ⟨c, [], entity_plain hc, h⟩

theorem entity_last (hp : (';' :: special).any p = false) (h : p c = false) :
    ∃ r d, entity c = r ++ [d] ∧ p d = false := by
  by_cases hc : c ∈ special
  · obtain ⟨n, hn, -, -⟩ := isEntity_entity hc
    exact ⟨'&' :: n, ';', hn, not_outer hp (by decide)⟩
  · exact ⟨[], c, entity_plain hc, h⟩

theorem entity_taken (hp : (';' :: special).any p = false) (h : p c = true) : entity c = [c] :=
  entity_plain fun hc => Bool.noConfusion (h.symm.trans (not_outer hp (.tail _ hc)))

theorem dropWhile_escape (hp : (';' :: special).any p = false) (s : List Char) :
    (escape s).dropWhile p = escape (s.dropWhile p) := by
  induction s with
  | nil => rfl
  | cons c s ih =>
    have hs : escape (c :: s) = entity c ++ escape s := List.flatMap_cons
    cases hc : p c with
    | true =>
      rw [hs, entity_taken hp hc, List.singleton_append, List.dropWhile_cons_of_pos hc, ih,
        List.dropWhile_cons_of_pos hc]
    | false =>
      obtain ⟨d, r, he, hd⟩ := entity_head hp hc
      rw [List.dropWhile_cons_of_neg (Bool.eq_false_iff.mp hc), hs, he, List.cons_append,
        List.dropWhile_cons_of_neg (Bool.eq_false_iff.mp hd)]

theorem dropEndWhile_escape (hp : (';' :: special).any p = false) (s : List Char) :
    dropEndWhile p (escape s) = escape (dropEndWhile p s) := by
  induction s using List.reverseRecOn with
  | nil => rfl
  | append_singleton s c ih =>
    have hs : escape (s ++ [c]) = escape s ++ entity c := by
      simp [escape, List.flatMap_append]
    rw [dropEndWhile_concat]
    cases hc : p c with
    | true => rw [if_pos rfl, hs, entity_taken hp hc, dropEndWhile_concat, if_pos hc, ih]
    | false =>
      obtain ⟨r, d, he, hd⟩ := entity_last hp hc
      rw [if_neg Bool.false_ne_true, hs, he, ← List.append_assoc, dropEndWhile_concat,
        if_neg (Bool.eq_false_iff.mp hd)]

theorem trim_escape (s : List Char) : trim (escape s) = escape (trim s) := by
  have hp : (';' :: special).any isBlank = false := by decide
  rw [trim, dropWhile_escape hp, trimEnd, dropEndWhile_escape hp, trim, trimEnd]

end Trimming

end Tale.Text
