import Mathlib
import Tale.Proofs.Interpolation

/-!
# The order of the ids

An id is a word over the alphabet, and the ids are all of these words: by length, and among words of
one length as in a dictionary. So the `n`-th id is the word that `n` others come before
(`ids_in_order`).

Two steps carry this. A letter put at the end of two words keeps their order, and decides between
equal ones (`idChars_before`); and each word gives its number back, letter after letter
(`exists_idChars`).
-/

namespace Tale.Document

/-- A text of letters that is not empty. -/
def IsWord (s : List Char) : Prop :=
  s ≠ [] ∧ ∀ c ∈ s, c ∈ alphabet

/-- By length, and then by the places of the letters in the alphabet. -/
def Before : List Char → List Char → Prop :=
  List.Shortlex fun c d => alphabet.idxOf c < alphabet.idxOf d

instance : Std.Asymm Before :=
  have : Std.Asymm fun c d : Char => alphabet.idxOf c < alphabet.idxOf d := ⟨fun _ _ => lt_asymm⟩
  List.Shortlex.asymm

variable {m n : ℕ} {s t : List Char} {c d : Char}

/-! ## Letters -/

theorem idxOf_letter (hn : n < 62) : alphabet.idxOf (alphabet.getD n 'a') = n := by
  rw [← alphabet_length] at hn
  rw [List.getD_eq_getElem _ _ hn]
  exact alphabet_nodup.idxOf_getElem n hn

theorem idxOf_lt (hc : c ∈ alphabet) : alphabet.idxOf c < 62 :=
  alphabet_length ▸ List.idxOf_lt_length_of_mem hc

theorem letter_idxOf (hc : c ∈ alphabet) : alphabet.getD (alphabet.idxOf c) 'a' = c := by
  have hlt := List.idxOf_lt_length_of_mem hc
  rw [List.getD_eq_getElem _ _ hlt]
  exact List.getElem_idxOf hlt

/-! ## Order -/

/-- What decides between two words of one length still does so if a letter follows. -/
theorem lex_concat {r : Char → Char → Prop} (h : List.Lex r s t) (hl : s.length = t.length) :
    List.Lex r (s ++ [c]) (t ++ [d]) := by
  induction h with
  | nil => cases hl
  | cons _ ih => exact .cons (ih (Nat.succ.inj hl))
  | rel h => exact .rel h

theorem Before.concat (h : Before s t) : Before (s ++ [c]) (t ++ [d]) := by
  rcases List.shortlex_def.mp h with hlt | ⟨hl, hlex⟩
  · exact .of_length_lt (by simpa using hlt)
  · exact .of_lex (by simpa using hl) (lex_concat hlex hl)

theorem before_letter (hmn : m < n) (hn : n < 62) (s : List Char) :
    Before (s ++ [alphabet.getD m 'a']) (s ++ [alphabet.getD n 'a']) := by
  refine List.Shortlex.append_left ((List.shortlex_singleton_iff _ _).mpr ?_) s
  rwa [idxOf_letter (hmn.trans hn), idxOf_letter hn]

theorem idChars_lt (hn : n < 62) : idChars n = [alphabet.getD n 'a'] := by
  rw [idChars, if_neg (by omega)]

theorem idChars_ge (hn : 62 ≤ n) :
    idChars n = idChars (n / 62 - 1) ++ [alphabet.getD (n % 62) 'a'] := by
  rw [idChars, if_pos hn]

/-- The ids are in order: all but the last letter are an id of their own, which is no later in the
earlier one of two; if it is the same, the last letter decides. -/
theorem idChars_before : ∀ {m n : ℕ}, m < n → Before (idChars m) (idChars n) := by
  intro m n
  induction n using Nat.strongRecOn generalizing m with
  | ind n ih =>
    intro hmn
    rcases Nat.lt_or_ge n 62 with hn | hn
    · rw [idChars_lt hn, idChars_lt (hmn.trans hn)]
      exact before_letter hmn hn []
    · rw [idChars_ge hn]
      rcases Nat.lt_or_ge m 62 with hm | hm
      · rw [idChars_lt hm]
        refine .of_length_lt ?_
        have := List.length_pos_of_ne_nil (idChars_ne_nil (n / 62 - 1))
        simpa using this
      · rw [idChars_ge hm]
        rcases Nat.lt_or_eq_of_le (Nat.div_le_div_right (c := 62) hmn.le) with hlt | heq
        · exact (ih (n / 62 - 1) (by omega) (by omega)).concat
        · rw [heq]
          exact before_letter (by omega) (Nat.mod_lt n (by decide)) _

theorem before_idChars_iff : Before (idChars m) (idChars n) ↔ m < n := by
  refine ⟨fun h => ?_, idChars_before⟩
  rcases Nat.lt_trichotomy m n with hlt | rfl | hgt
  · exact hlt
  · exact absurd h (asymm h)
  · exact absurd h (asymm (idChars_before hgt))

/-! ## All words -/

theorem isWord_idChars (n : ℕ) : IsWord (idChars n) :=
  ⟨idChars_ne_nil n, fun _ => mem_idChars⟩

/-- A letter more multiplies the number of a word. -/
theorem idChars_concat (n : ℕ) (hc : c ∈ alphabet) :
    idChars ((n + 1) * 62 + alphabet.idxOf c) = idChars n ++ [c] := by
  have hlt := idxOf_lt hc
  have hdiv : ((n + 1) * 62 + alphabet.idxOf c) / 62 - 1 = n := by omega
  have hmod : ((n + 1) * 62 + alphabet.idxOf c) % 62 = alphabet.idxOf c := by omega
  rw [idChars_ge (by omega), hdiv, hmod, letter_idxOf hc]

/-- Every word is an id. The empty one is none, so a word of one letter is a case of its own. -/
theorem exists_idChars (h : IsWord s) : ∃ n, idChars n = s := by
  obtain ⟨hne, hs⟩ := h
  induction s using List.reverseRecOn with
  | nil => exact absurd rfl hne
  | append_singleton s c ih =>
    have hc : c ∈ alphabet := hs c (List.mem_append_right s (.head _))
    rcases s with _ | ⟨d, s⟩
    · exact ⟨alphabet.idxOf c, by rw [idChars_lt (idxOf_lt hc), letter_idxOf hc]; rfl⟩
    · obtain ⟨n, hn⟩ := ih (List.cons_ne_nil d s) fun e he => hs e (List.mem_append_left _ he)
      exact ⟨(n + 1) * 62 + alphabet.idxOf c, by rw [idChars_concat n hc, hn]⟩

/-- The words before an id are the ids of smaller numbers. -/
theorem words_before (n : ℕ) :
    {s | IsWord s ∧ Before s (idChars n)} = idChars '' Set.Iio n := by
  ext s
  constructor
  · rintro ⟨hs, hb⟩
    obtain ⟨m, rfl⟩ := exists_idChars hs
    exact ⟨m, before_idChars_iff.mp hb, rfl⟩
  · rintro ⟨m, hm, rfl⟩
    exact ⟨isWord_idChars m, idChars_before hm⟩

theorem id_toList (n : ℕ) : (id n).toList = idChars n :=
  String.toList_ofList

/-- The `n`-th id is the `n`-th of all words in their order, counted from 0: just `n` words come
before it. No id comes twice, and every word is one. -/
theorem ids_in_order :
    (∀ n, IsWord (id n).toList ∧ {s | IsWord s ∧ Before s (id n).toList}.encard = n)
    ∧ (∀ m n, Before (id m).toList (id n).toList ↔ m < n)
    ∧ Function.Injective id
    ∧ Set.range id = {s | IsWord s.toList} := by
  have hinj : Function.Injective idChars := fun _ _ => idChars_inj
  refine ⟨fun n => ?_, fun m n => ?_, fun m n h => ?_, Set.ext fun s => ⟨?_, fun hs => ?_⟩⟩
  · rw [id_toList, words_before, hinj.encard_image, ← Finset.coe_range,
      Set.encard_coe_eq_coe_finsetCard, Finset.card_range]
    exact ⟨isWord_idChars n, rfl⟩
  · rw [id_toList, id_toList]
    exact before_idChars_iff
  · exact idChars_inj (by rw [← id_toList, ← id_toList, h])
  · rintro ⟨n, rfl⟩
    show IsWord (id n).toList
    rw [id_toList]
    exact isWord_idChars n
  · obtain ⟨n, hn⟩ := exists_idChars hs
    exact ⟨n, String.toList_injective (by rw [id_toList, hn])⟩

end Tale.Document
