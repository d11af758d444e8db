import Parlance.Proofs.Text.Cutting
import Parlance.Text.Quoted

/-!
# Separating words in quoted texts

Quotes and escapes hide no separating words: a quoted text holds them exactly where the text itself
does, and it is cut there.
-/

namespace Parlance.Text

theorem chooseQuote_eq (text : List Char) : chooseQuote text = '"' ∨ chooseQuote text = '\'' := by
  unfold chooseQuote
  split
  · exact .inl rfl
  · exact .inr rfl

/-- The characters that are written as an escape between some quotes. -/
def escapedChars : List Char :=
  ['\\', '\n', '\r', '\t', '"', '\'']

/-- Words that separate the parts of a line. They start with a space, and each of their characters
stands for itself between quotes. -/
structure IsSeparator (words : List Char) : Prop where
  space : words.head? = some ' '
  plain : ∀ c ∈ words, c ∉ escapedChars

theorem IsSeparator.ne_nil {words : List Char} (h : IsSeparator words) : words ≠ [] := by
  rintro rfl
  cases h.space

/-- No separator starts with a character other than a space. -/
theorem IsSeparator.splitFirst?_cons {words : List Char} (h : IsSeparator words) {c : Char}
    (hc : c ≠ ' ') (text : List Char) :
    splitFirst? words (c :: text) =
      (splitFirst? words text).map fun (front, back) => (c :: front, back) := by
  have hhere : after? words (c :: text) = none := by
    rw [after?_eq_none]
    intro hstarts
    obtain ⟨d, more, rfl⟩ := List.exists_cons_of_ne_nil h.ne_nil
    obtain rfl : d = ' ' := by simpa using h.space
    exact hc (List.cons_prefix_cons.mp hstarts).1.symm
  rw [splitFirst?, hhere]

section

variable {quote : Char} (hquote : quote = '"' ∨ quote = '\'')
include hquote

/-- A character stands for itself or behind a backslash. -/
theorem escapeChar_cases (c : Char) :
    escapeChar quote c = [c] ∨
      c ∈ escapedChars ∧ ∃ d, d ≠ ' ' ∧ escapeChar quote c = ['\\', d] := by
  unfold escapeChar
  split
  · exact .inr ⟨by decide, _, by decide, rfl⟩
  · exact .inr ⟨by decide, _, by decide, rfl⟩
  · exact .inr ⟨by decide, _, by decide, rfl⟩
  · exact .inr ⟨by decide, _, by decide, rfl⟩
  · split
    · next heq =>
      obtain rfl : c = quote := by simpa using heq
      refine .inr ⟨?_, c, ?_, rfl⟩
      · rcases hquote with rfl | rfl <;> decide
      · rcases hquote with rfl | rfl <;> decide
    · exact .inl rfl

/-- Plain words are in front of the escaped text exactly if they are in front of the text. -/
theorem after?_escaped {words : List Char} (hplain : ∀ c ∈ words, c ∉ escapedChars)
    (text : List Char) :
    after? words (text.flatMap (escapeChar quote)) =
      (after? words text).map fun tail => tail.flatMap (escapeChar quote) := by
  induction words generalizing text with
  | nil => rfl
  | cons d words ih =>
      have hd := hplain d List.mem_cons_self
      have hmore := ih fun c hc => hplain c (List.mem_cons_of_mem d hc)
      cases text with
      | nil => rfl
      | cons c text =>
          rw [List.flatMap_cons]
          rcases escapeChar_cases hquote c with hself | ⟨hc, e, -, hescape⟩
          · rw [hself, List.singleton_append]
            simp only [after?, List.isPrefixOf?] at hmore ⊢
            split
            · exact hmore text
            · rfl
          · have hslash : (d == '\\') = false := by
              rw [beq_eq_false_iff_ne]
              rintro rfl
              exact hd (by decide)
            have hother : (d == c) = false := by
              rw [beq_eq_false_iff_ne]
              rintro rfl
              exact hd hc
            rw [hescape, after?, after?, List.cons_append, List.isPrefixOf?, List.isPrefixOf?,
              hslash, hother]
            rfl

theorem splitFirst?_escaped {words : List Char} (hwords : IsSeparator words) (text : List Char) :
    splitFirst? words (text.flatMap (escapeChar quote)) =
      (splitFirst? words text).map fun (front, back) =>
        (front.flatMap (escapeChar quote), back.flatMap (escapeChar quote)) := by
  induction text with
  | nil => simp [splitFirst?, hwords.ne_nil]
  | cons c text ih =>
      rcases escapeChar_cases hquote c with hself | ⟨hc, d, hd, hescape⟩
      · have hafter := after?_escaped hquote hwords.plain (c :: text)
        rw [List.flatMap_cons, hself, List.singleton_append] at hafter ⊢
        rw [splitFirst?, hafter, splitFirst?, ih]
        cases after? words (c :: text) with
        | some tail => rfl
        | none => simp [Function.comp_def, hself]
      · -- The separator starts at neither character of an escape.
        have hspace : c ≠ ' ' := by
          rintro rfl
          exact absurd hc (by decide)
        rw [List.flatMap_cons, hescape, List.cons_append, List.singleton_append,
          hwords.splitFirst?_cons (by decide), hwords.splitFirst?_cons hd,
          hwords.splitFirst?_cons hspace, ih]
        simp [Function.comp_def, hescape]

end

/-! ## Quoted texts -/

theorem chooseQuote_ne_space (text : List Char) : chooseQuote text ≠ ' ' := by
  rcases chooseQuote_eq text with hquote | hquote <;> rw [hquote] <;> decide

/-- There are no blanks around quotes. -/
theorem trim_quoteChars (text : List Char) : trim (quoteChars text) = quoteChars text := by
  have hquote : isBlank (chooseQuote text) = false := by
    rcases chooseQuote_eq text with hquote | hquote <;> rw [hquote] <;> rfl
  have hfront : trim [chooseQuote text] = [chooseQuote text] :=
    trim_of_visible (by simpa using hquote)
  have hend : lastVisible? [chooseQuote text] ≠ none :=
    visible_of_trim hfront (List.cons_ne_nil _ _)
  have hback : lastVisible? (text.flatMap (escapeChar (chooseQuote text)) ++ [chooseQuote text]) ≠
      none := by
    rw [lastVisible?_append]
    simp [hend]
  have hwhole : quoteChars text =
      [chooseQuote text] ++
        (text.flatMap (escapeChar (chooseQuote text)) ++ [chooseQuote text]) := rfl
  rw [hwhole, trim_behind (List.cons_ne_nil _ _) hfront hback, trimEnd_append _ hend,
    trimEnd_of_trim hfront]

theorem toList_quoted (text : String) : (quoted text).toList = quoteChars text.toList :=
  String.toList_ofList

section

variable {words : List Char} (hwords : IsSeparator words) {text : List Char}
include hwords

/-- A quoted text is cut where the text is. -/
theorem splitFirst?_quoteChars_of_some {front back : List Char}
    (hcut : splitFirst? words text = some (front, back)) (more : List Char) :
    splitFirst? words (quoteChars text ++ more) =
      some (chooseQuote text :: front.flatMap (escapeChar (chooseQuote text)),
        back.flatMap (escapeChar (chooseQuote text)) ++ chooseQuote text :: more) := by
  have hescaped := splitFirst?_escaped (chooseQuote_eq text) hwords text
  rw [hcut, Option.map_some] at hescaped
  have hcontent := splitFirst?_append_of_some hescaped (chooseQuote text :: more)
  have hwhole : quoteChars text ++ more =
      chooseQuote text ::
        (text.flatMap (escapeChar (chooseQuote text)) ++ chooseQuote text :: more) := by
    simp [quoteChars]
  rw [hwhole, hwords.splitFirst?_cons (chooseQuote_ne_space text), hcontent]
  rfl

/-- A quoted text is not cut where the text is not. -/
theorem splitFirst?_quoteChars_of_none (hcut : splitFirst? words text = none) (tail : List Char) :
    splitFirst? words (quoteChars text ++ (words ++ tail)) = some (quoteChars text, tail) := by
  have hescaped := splitFirst?_escaped (chooseQuote_eq text) hwords text
  rw [hcut, Option.map_none, splitFirst?_eq_none_iff hwords.ne_nil] at hescaped
  have hquote : chooseQuote text ∉ words := by
    intro hmem
    refine hwords.plain _ hmem ?_
    rcases chooseQuote_eq text with hquote | hquote <;> rw [hquote] <;> decide
  have hcontent := splitFirst?_behind hwords.ne_nil hquote hescaped tail
  have hwhole : quoteChars text ++ (words ++ tail) =
      chooseQuote text ::
        (text.flatMap (escapeChar (chooseQuote text)) ++ chooseQuote text :: (words ++ tail)) := by
    simp [quoteChars]
  rw [hwhole, hwords.splitFirst?_cons (chooseQuote_ne_space text), hcontent]
  rfl

end

end Parlance.Text
