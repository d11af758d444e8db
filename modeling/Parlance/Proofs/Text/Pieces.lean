import Parlance.Proofs.Text.Cutting
import Parlance.Proofs.Text.Trimming

/-!
# Texts between commas

A text that is put together with commas is taken apart into the pieces of its parts. Blanks around a
piece do not count, and no piece holds a comma.
-/

namespace Parlance.Text

/-- The parts of a text between commas, without blanks at their ends. -/
def pieces (text : List Char) : List (List Char) :=
  (splitChar ',' text).map trim

theorem pieces_append (front back : List Char) :
    pieces (front ++ ',' :: back) = pieces front ++ pieces back := by
  simp [pieces, splitChar_append]

theorem pieces_of_not_mem {text : List Char} (h : ',' ∉ text) : pieces text = [trim text] := by
  simp [pieces, splitChar_of_not_mem h]

/-- What holds of texts without a comma, and is carried on by a comma, holds of every text. -/
theorem comma_induction {motive : List Char → Prop} (plain : ∀ text, ',' ∉ text → motive text)
    (comma : ∀ front back, ',' ∉ front → motive back → motive (front ++ ',' :: back))
    (text : List Char) : motive text := by
  induction hlength : text.length using Nat.strong_induction_on generalizing text with
  | _ length ih =>
      subst hlength
      by_cases hmem : ',' ∈ text
      · obtain ⟨front, back, rfl, hfront⟩ := List.eq_append_cons_of_mem hmem
        have hlt : back.length < (front ++ ',' :: back).length := by
          simp only [List.length_append, List.length_cons]
          omega
        exact comma front back hfront (ih back.length hlt back rfl)
      · exact plain text hmem

theorem ne_comma_of_isBlank {c : Char} (h : isBlank c = true) : c ≠ ',' := by
  rintro rfl
  cases h

theorem pieces_cons_blank {c : Char} (hblank : isBlank c = true) (text : List Char) :
    pieces (c :: text) = pieces text := by
  obtain ⟨part, parts, hparts⟩ := exists_splitChar ',' text
  simp [pieces, splitChar_cons_ne (ne_comma_of_isBlank hblank) hparts, hparts,
    trim_cons_blank hblank]

theorem pieces_append_blanks (text : List Char) {tail : List Char}
    (hblank : ∀ c ∈ tail, isBlank c = true) : pieces (text ++ tail) = pieces text := by
  induction text using comma_induction with
  | plain text hmem =>
      have htail : ',' ∉ tail := fun hc => ne_comma_of_isBlank (hblank ',' hc) rfl
      have hwhole : ',' ∉ text ++ tail := by simp [hmem, htail]
      rw [pieces_of_not_mem hwhole, pieces_of_not_mem hmem, trim_append_blanks text hblank]
  | comma front back hfront ih =>
      rw [List.append_assoc, List.cons_append, pieces_append, pieces_append, ih]

theorem pieces_trimEnd (text : List Char) : pieces (trimEnd text) = pieces text := by
  obtain ⟨tail, hblank, happend⟩ := exists_trimEnd text
  rw [← pieces_append_blanks (trimEnd text) hblank, happend]

theorem no_comma_in_pieces {piece text : List Char} (h : piece ∈ pieces text) : ',' ∉ piece := by
  induction text using comma_induction with
  | plain text hmem =>
      rw [pieces_of_not_mem hmem, List.mem_singleton] at h
      subst h
      exact fun hc => hmem ((trim_sublist text).mem hc)
  | comma front back hfront ih =>
      rw [pieces_append, List.mem_append, pieces_of_not_mem hfront, List.mem_singleton] at h
      rcases h with rfl | h
      · exact fun hc => hfront ((trim_sublist front).mem hc)
      · exact ih h

theorem pieces_ne_nil (text : List Char) : pieces text ≠ [] := by
  obtain ⟨part, parts, hparts⟩ := exists_splitChar ',' text
  simp [pieces, hparts]

theorem lastVisible?_of_pieces {text : List Char} (h : pieces text = [[]]) :
    lastVisible? text = none := by
  induction text using comma_induction with
  | plain text hmem =>
      rw [pieces_of_not_mem hmem] at h
      exact trim_eq_nil_iff.mp (List.singleton_inj.mp h)
  | comma front back hfront ih =>
      rw [pieces_append, pieces_of_not_mem hfront, List.singleton_append, List.cons.injEq] at h
      exact absurd h.2 (pieces_ne_nil back)

/-- Texts that are put together with commas are taken apart one by one. -/
theorem pieces_intercalate {texts : List (List Char)} (hne : texts ≠ []) :
    pieces ([',', ' '].intercalate texts) = texts.flatMap pieces := by
  induction texts with
  | nil => exact absurd rfl hne
  | cons text texts ih =>
      cases texts with
      | nil => simp
      | cons next texts =>
          have hjoined : [',', ' '].intercalate (text :: next :: texts) =
              text ++ ',' :: ' ' :: [',', ' '].intercalate (next :: texts) := by
            simp
          rw [hjoined, pieces_append, pieces_cons_blank rfl, ih (List.cons_ne_nil _ _),
            ← List.flatMap_cons]

end Parlance.Text
