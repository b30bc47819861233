import Mathlib.Data.List.Infix
import Tale.Evaluation
import Tale.Proofs.Entities
import Tale.View.Nodes

/-!
# Paragraphs as they are shown

A paragraph is escaped, put between tags, and taken apart again to be shown. Escaped text has no
angle bracket in it, so the two tags are all that is broken, marked or stripped, and what is left is
one line: the escaped text, trimmed and then read back (`nodeLines_paragraph`).

But the end of a line also loses its bars, which are meant to be those after the last cell of a row,
and a text that ends in bars of its own loses these as well, with the blanks before them
(`paragraph_shown`).
-/

namespace Tale

open Text

namespace View

/-! ## Text without angle brackets -/

section Brackets

variable {c d : Char} {a ps new : List Char}

theorem lineBreak?_cons (h : c ≠ '<') (s : List Char) : lineBreak? (c :: s) = none := by
  have ha : ∀ ps, after? ('<' :: ps) (c :: s) = none := fun ps =>
    after?_eq_none fun r hr => h (List.cons.inj hr).1
  simp only [lineBreak?, afterEmpty?, afterBlockEnd?, ha]
  rfl

theorem breakLines_append : ∀ {a : List Char} (s : List Char), '<' ∉ a →
    breakLines (a ++ s) = a ++ breakLines s
  | [], _, _ => rfl
  | c :: a, s, h => by
    rw [List.mem_cons, not_or] at h
    rw [List.cons_append, breakLines, breakLinesFrom, lineBreak?_cons (Ne.symm h.1)]
    exact congrArg (c :: ·) (breakLines_append s h.2)

theorem stripTags_append : ∀ {a : List Char} (s : List Char), '<' ∉ a →
    stripTags (a ++ s) = a ++ stripTags s
  | [], _, _ => rfl
  | c :: a, s, h => by
    rw [List.mem_cons, not_or] at h
    have hc : (c == '<') = false := beq_eq_false_iff_ne.mpr (Ne.symm h.1)
    rw [List.cons_append, stripTags, stripTagsFrom, hc, Bool.false_and, if_neg Bool.false_ne_true]
    exact congrArg (c :: ·) (stripTags_append s h.2)

/-- A tag is no other one, and there is none after it. -/
theorem replaceAll_tag (hd : d ≠ c) (h : '<' ∉ c :: a) :
    replaceAll ('<' :: d :: ps) new ('<' :: c :: a) = '<' :: c :: a := by
  have hp : ¬ '<' :: d :: ps <+: '<' :: c :: a := fun hp =>
    hd (List.cons_prefix_cons.mp (List.cons_prefix_cons.mp hp).2).1
  rw [replaceAll_cons hp, replaceAll_of_not_mem h]

end Brackets

/-! ## The lines of a paragraph -/

section Lines

variable {a : List Char}

theorem breakLines_paragraph (h : '<' ∉ a) :
    breakLines ('<' :: 'p' :: '>' :: (a ++ "</p>".toList))
      = '<' :: 'p' :: '>' :: (a ++ ['\n']) := by
  have hopen : lineBreak? ('<' :: 'p' :: '>' :: (a ++ "</p>".toList)) = none := rfl
  have hrest : '<' ∉ 'p' :: '>' :: a := by simpa using h
  rw [breakLines, breakLinesFrom, hopen]
  exact congrArg ('<' :: ·) (breakLines_append "</p>".toList hrest)

theorem markItems_paragraph (h : '<' ∉ a) :
    markItems ('<' :: 'p' :: '>' :: a) = '<' :: 'p' :: '>' :: a := by
  have hrest : '<' ∉ 'p' :: '>' :: a := by simpa using h
  change replaceAll ('<' :: '/' :: "td>".toList) _ (replaceAll ('<' :: '/' :: "th>".toList) _
    (replaceAll ('<' :: 'l' :: "i>".toList) _ _)) = _
  rw [replaceAll_tag (by decide) hrest, replaceAll_tag (by decide) hrest,
    replaceAll_tag (by decide) hrest]

theorem stripTags_paragraph (h : '<' ∉ a) :
    stripTags ('<' :: 'p' :: '>' :: (a ++ ['\n'])) = a ++ ['\n'] := by
  have hclosed : ('p' :: '>' :: (a ++ ['\n'])).contains '>' = true := rfl
  rw [stripTags, stripTagsFrom, hclosed]
  exact stripTags_append ['\n'] h

/-- What a line keeps: nothing of the bars at its end, nor of the blanks before them. -/
def unbarred (l : List Char) : List Char :=
  trimEnd (dropEndWhile (· == '|') (trim l))

theorem tidyLine_escape (s : List Char) : tidyLine (escape s) = unbarred s := by
  have hbar : (';' :: special).any (· == '|') = false := by decide
  have hblank : (';' :: special).any isBlank = false := by decide
  rw [tidyLine, trim_escape, dropEndWhile_escape hbar, trimEnd, dropEndWhile_escape hblank,
    unescape_escape, unbarred, trimEnd]

/-- A carriage return before the line feed is a blank at the end. -/
theorem tidyLine_return (l : List Char) : tidyLine (l ++ ['\r']) = tidyLine l := by
  rw [tidyLine, tidyLine, trim_concat (by decide)]

theorem nodeLines_paragraph {t : String} (h : '\n' ∉ t.toList) :
    nodeLines (.html (Library.Contents.textElement "p" t))
      = if unbarred t.toList = [] then [] else [String.ofList (unbarred t.toList)] := by
  have hangle : '<' ∉ escape t.toList := not_mem_escape (by decide) _
  have hbreak : '\n' ∉ escape t.toList := fun hm => by
    rcases mem_escape hm with ⟨hm, -⟩ | hm
    · exact h hm
    · exact absurd hm (by decide)
  have helement : (Library.Contents.textElement "p" t).toList
      = '<' :: 'p' :: '>' :: (escape t.toList ++ "</p>".toList) := by
    simp [Library.Contents.textElement, escaped]
  have hmarked : '<' ∉ escape t.toList ++ ['\n'] := by simpa using hangle
  obtain ⟨l, hl, hr⟩ := lines_ended hbreak
  have htidy : tidyLine l = unbarred t.toList := by
    rw [← tidyLine_escape]
    rcases hr with rfl | hr
    · rfl
    · rw [hr, tidyLine_return]
  rw [nodeLines, htmlLines, helement, breakLines_paragraph hangle, markItems_paragraph hmarked,
    stripTags_paragraph hangle, hl, List.map_singleton, htidy]
  by_cases he : unbarred t.toList = [] <;> simp [he]

theorem unbarred_append (l : List Char) : ∃ blanks bars, trim l = unbarred l ++ blanks ++ bars
    ∧ (∀ c ∈ blanks, isBlank c = true) ∧ (∀ c ∈ bars, c = '|')
    ∧ (unbarred l ++ blanks).getLast? ≠ some '|'
    ∧ ∀ c ∈ (unbarred l).getLast?, isBlank c = false := by
  obtain ⟨bars, hl, hbars, hlast⟩ := dropEndWhile_append (· == '|') (trim l)
  obtain ⟨blanks, hs, hblanks, hkept⟩ :=
    dropEndWhile_append isBlank (dropEndWhile (· == '|') (trim l))
  have hu : dropEndWhile (· == '|') (trim l) = unbarred l ++ blanks := hs
  rw [hu] at hl hlast
  refine ⟨blanks, bars, hl, hblanks, fun c hc => beq_iff_eq.mp (hbars c hc), fun h => ?_, hkept⟩
  exact absurd (hlast '|' h) (by decide)

theorem unbarred_eq {l : List Char} (h : (trim l).getLast? ≠ some '|') : unbarred l = trim l := by
  have hbar : dropEndWhile (· == '|') (trim l) = trim l :=
    List.rdropWhile_eq_self_iff.mpr fun hn hl =>
      h (List.getLast?_eq_some_getLast hn ▸ congrArg some (beq_iff_eq.mp hl))
  rw [unbarred, hbar]
  exact List.rdropWhile_idempotent isBlank _

end Lines

/-- A paragraph shows its text, trimmed, in one line, whatever characters the text has, unless it
ends in bars: these are not shown, nor are the blanks before them. -/
theorem paragraph_shown (m : Machine) (w : World) (t : String) (ht : '\n' ∉ t.toList) :
    ∃ node, (Native.contentAddParagraph.run m [.string t]).run w = .ok (.ok .null) (w.emit node)
      ∧ ((trim t.toList).getLast? ≠ some '|' →
        nodeLines node = if trimmed t = "" then [] else [trimmed t])
      ∧ ∃ kept blanks bars, trim t.toList = kept ++ blanks ++ bars
        ∧ (∀ c ∈ blanks, isBlank c = true) ∧ (∀ c ∈ bars, c = '|')
        ∧ (kept ++ blanks).getLast? ≠ some '|' ∧ (∀ c ∈ kept.getLast?, isBlank c = false)
        ∧ nodeLines node = if kept = [] then [] else [String.ofList kept] := by
  have hlines := nodeLines_paragraph ht
  refine ⟨_, rfl, fun hl => ?_, ?_⟩
  · rw [hlines, unbarred_eq hl]
    simp [trimmed]
  · obtain ⟨blanks, bars, hs, hblanks, hbars, hlast, hkept⟩ := unbarred_append t.toList
    exact ⟨_, blanks, bars, hs, hblanks, hbars, hlast, hkept, hlines⟩

theorem paragraph_shown_entities :
    let m := machine 9
    let w := World.initial (.ofSeed "seed") {}
    '\n' ∉ " \"a|b\" &lt; <i>&nbsp;</i> ".toList
      ∧ (trim " \"a|b\" &lt; <i>&nbsp;</i> ".toList).getLast? ≠ some '|'
      ∧ ∃ node, (Native.contentAddParagraph.run m
          [.string " \"a|b\" &lt; <i>&nbsp;</i> "]).run w = .ok (.ok .null) (w.emit node)
        ∧ nodeLines node = ["\"a|b\" &lt; <i>&nbsp;</i>"] := by
  intro m w
  have ht : '\n' ∉ " \"a|b\" &lt; <i>&nbsp;</i> ".toList := by decide +kernel
  have hl : (trim " \"a|b\" &lt; <i>&nbsp;</i> ".toList).getLast? ≠ some '|' := by decide +kernel
  obtain ⟨node, hrun, hshown, -⟩ := paragraph_shown m w _ ht
  exact ⟨ht, hl, node, hrun, (hshown hl).trans (by decide +kernel)⟩

/-- The bar at the end of a text is taken for one after a cell. -/
theorem paragraph_shown_bar :
    (∀ (m : Machine) (w : World), (Native.contentAddParagraph.run m [.string "a|"]).run w
        = .ok (.ok .null) (w.emit (.html "<p>a|</p>")))
      ∧ trimmed "a|" = "a|" ∧ nodeLines (.html "<p>a|</p>") = ["a"] := by
  refine ⟨fun m w => ?_, ?_, ?_⟩
  · rfl
  · decide +kernel
  · decide +kernel

end View

end Tale
