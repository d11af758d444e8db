import Mathlib.Data.List.Basic
import Mathlib.Data.List.Infix
import Parlance.Proofs.Text.Trimming
import Parlance.Text.Cut

/-!
# Cutting a text at words

A text that is cut at separating words is put together from its parts again, and it is cut where the
words stand first.
-/

namespace Parlance.Text

theorem append_of_after? {head text tail : List Char} (h : after? head text = some tail) :
    head ++ tail = text :=
  List.isPrefixOf?_eq_some_iff_append_eq.mp h

theorem after?_append (head tail : List Char) : after? head (head ++ tail) = some tail :=
  List.isPrefixOf?_eq_some_iff_append_eq.mpr rfl

theorem after?_eq_none {head text : List Char} : after? head text = none ↔ ¬ head <+: text := by
  rw [Option.eq_none_iff_forall_ne_some]
  constructor
  · rintro h ⟨tail, htail⟩
    exact h tail (List.isPrefixOf?_eq_some_iff_append_eq.mpr htail)
  · intro h tail htail
    exact h ⟨tail, append_of_after? htail⟩

theorem append_of_splitFirst? {separator text head tail : List Char}
    (h : splitFirst? separator text = some (head, tail)) : head ++ (separator ++ tail) = text := by
  induction text generalizing head with
  | nil =>
      simp only [splitFirst?] at h
      split at h
      · next hempty =>
        cases h
        simp [List.isEmpty_iff.mp hempty]
      · cases h
  | cons c text ih =>
      simp only [splitFirst?] at h
      split at h
      · next hafter =>
        cases h
        rw [List.nil_append]
        exact append_of_after? hafter
      · obtain ⟨⟨front, back⟩, hrest, heq⟩ := Option.map_eq_some_iff.mp h
        cases heq
        rw [List.cons_append, ih hrest]

/-- A text is cut at a separator if the separator does not start anywhere in front of it. -/
theorem splitFirst?_append {separator : List Char} (hne : separator ≠ []) {head tail : List Char}
    (h : ∀ front back, head = front ++ back → back ≠ [] →
      ¬ separator <+: back ++ (separator ++ tail)) :
    splitFirst? separator (head ++ (separator ++ tail)) = some (head, tail) := by
  induction head with
  | nil =>
      obtain ⟨c, rest, hc⟩ := List.exists_cons_of_ne_nil hne
      have hafter := after?_append separator tail
      rw [hc, List.cons_append] at hafter ⊢
      rw [List.nil_append, splitFirst?, hafter]
  | cons c head ih =>
      have hhere := after?_eq_none.mpr (h [] (c :: head) rfl (List.cons_ne_nil _ _))
      have hrest := ih fun front back heq hback => h (c :: front) back (by rw [heq]; rfl) hback
      rw [List.cons_append] at hhere ⊢
      rw [splitFirst?, hhere, hrest]
      rfl

/-- A text is cut behind a front that the separator cannot start in. -/
theorem splitFirst?_of_not_mem {c : Char} {words head tail : List Char} (hhead : c ∉ head) :
    splitFirst? (c :: words) (head ++ (c :: words ++ tail)) = some (head, tail) := by
  refine splitFirst?_append (List.cons_ne_nil _ _) ?_
  rintro front back rfl hback hstarts
  obtain ⟨d, more, rfl⟩ := List.exists_cons_of_ne_nil hback
  obtain rfl : c = d := (List.cons_prefix_cons.mp hstarts).1
  exact hhead (by simp)

/-- A text that is cut at a separator is cut there with more text behind it. -/
theorem splitFirst?_append_of_some {separator text head tail : List Char}
    (h : splitFirst? separator text = some (head, tail)) (more : List Char) :
    splitFirst? separator (text ++ more) = some (head, tail ++ more) := by
  induction text generalizing head with
  | nil =>
      simp only [splitFirst?] at h
      split at h
      · next hempty =>
        cases h
        rw [List.isEmpty_iff.mp hempty, List.nil_append]
        cases more <;> rfl
      · cases h
  | cons c text ih =>
      simp only [splitFirst?] at h
      split at h
      · next tail hafter =>
        cases h
        have happend := append_of_after? hafter
        rw [List.cons_append, splitFirst?, ← List.cons_append, ← happend, List.append_assoc,
          after?_append]
      · next hafter =>
        obtain ⟨⟨front, back⟩, hrest, heq⟩ := Option.map_eq_some_iff.mp h
        cases heq
        -- The separator fits into the text, so it does not reach out of it here.
        have hfits : separator.length ≤ (c :: text).length := by
          rw [← append_of_splitFirst? hrest]
          simp only [List.length_cons, List.length_append]
          omega
        have hnone : after? separator (c :: (text ++ more)) = none := by
          rw [after?_eq_none] at hafter ⊢
          intro hstarts
          exact hafter (List.prefix_of_prefix_length_le hstarts (List.prefix_append _ more) hfits)
        rw [List.cons_append, splitFirst?, hnone, ih hrest]
        rfl

theorem splitFirst?_eq_none_iff {separator : List Char} (hne : separator ≠ []) {text : List Char} :
    splitFirst? separator text = none ↔ ¬ separator <:+: text := by
  induction text with
  | nil => simp [splitFirst?, hne]
  | cons c text ih =>
      rw [List.infix_cons_iff, not_or, ← ih, splitFirst?, ← after?_eq_none]
      cases after? separator (c :: text) with
      | none => simp
      | some tail => simp

/-- A text is cut behind a front that has no separator, if the separator cannot reach into it over
the character between them. -/
theorem splitFirst?_behind {separator : List Char} (hne : separator ≠ []) {c : Char}
    (hc : c ∉ separator) {front : List Char} (hfront : ¬ separator <:+: front) (tail : List Char) :
    splitFirst? separator (front ++ c :: (separator ++ tail)) = some (front ++ [c], tail) := by
  induction front with
  | nil =>
      obtain ⟨e, words, rfl⟩ := List.exists_cons_of_ne_nil hne
      rw [List.mem_cons, not_or] at hc
      have he : e ∉ [c] := by simpa using Ne.symm hc.1
      exact splitFirst?_of_not_mem he
  | cons d front ih =>
      rw [List.infix_cons_iff, not_or] at hfront
      have hhere : after? separator (d :: (front ++ c :: (separator ++ tail))) = none := by
        rw [after?_eq_none]
        intro hstarts
        have hbefore : d :: (front ++ [c]) <+: d :: (front ++ c :: (separator ++ tail)) :=
          ⟨separator ++ tail, by simp⟩
        rcases List.prefix_or_prefix_of_prefix hstarts hbefore with hwithin | hover
        · rw [← List.cons_append, List.prefix_concat_iff] at hwithin
          rcases hwithin with rfl | hwithin
          · exact hc (by simp)
          · exact hfront.1 hwithin
        · exact hc (hover.subset (by simp))
      rw [List.cons_append, splitFirst?, hhere, ih hfront.2]
      rfl

/-- There is something to see behind separating words that end in a blank, if there are no blanks at
the end of the whole. -/
theorem visible_behind {words text head tail : List Char} {c : Char} (hc : isBlank c = true)
    (h : splitFirst? (words ++ [c]) (trim text) = some (head, tail)) : lastVisible? tail ≠ none := by
  intro hnone
  have htext : trim text = (head ++ words) ++ c :: tail := by
    simp [← append_of_splitFirst? h]
  obtain ⟨d, hd⟩ : ∃ d, (c :: tail).getLast? = some d :=
    ⟨_, List.getLast?_eq_some_getLast (List.cons_ne_nil c tail)⟩
  have hlast : lastVisible? text = some d := by
    rw [← getLast?_trim, htext, List.getLast?_append, hd, Option.some_or]
  have hblank : isBlank d = true := by
    rcases List.mem_cons.mp (List.mem_of_getLast? hd) with rfl | hmem
    · exact hc
    · exact lastVisible?_eq_none.mp hnone d hmem
  have hvisible := List.find?_some hlast
  simp [hblank] at hvisible

/-! ## Cutting at a character -/

theorem splitChar_cons_eq (c : Char) (text : List Char) :
    splitChar c (c :: text) = [] :: splitChar c text := by
  simp [splitChar]

theorem splitChar_cons_ne {c d : Char} (h : d ≠ c) {text part : List Char} {parts : List (List Char)}
    (hparts : splitChar c text = part :: parts) : splitChar c (d :: text) = (d :: part) :: parts := by
  have hd : (d == c) = false := by simpa using h
  unfold splitChar at hparts ⊢
  rw [List.foldr_cons, hparts, hd]
  rfl

theorem exists_splitChar (c : Char) (text : List Char) :
    ∃ part parts, splitChar c text = part :: parts := by
  induction text with
  | nil => exact ⟨[], [], rfl⟩
  | cons d text ih =>
      obtain ⟨part, parts, hparts⟩ := ih
      by_cases h : d = c
      · subst h
        exact ⟨[], _, splitChar_cons_eq d text⟩
      · exact ⟨d :: part, parts, splitChar_cons_ne h hparts⟩

theorem splitChar_append (c : Char) (front back : List Char) :
    splitChar c (front ++ c :: back) = splitChar c front ++ splitChar c back := by
  induction front with
  | nil => exact splitChar_cons_eq c back
  | cons d front ih =>
      by_cases h : d = c
      · subst h
        rw [List.cons_append, splitChar_cons_eq, splitChar_cons_eq, ih, List.cons_append]
      · obtain ⟨part, parts, hparts⟩ := exists_splitChar c front
        rw [hparts, List.cons_append] at ih
        rw [List.cons_append, splitChar_cons_ne h ih, splitChar_cons_ne h hparts, List.cons_append]

theorem splitChar_of_not_mem {c : Char} {text : List Char} (h : c ∉ text) :
    splitChar c text = [text] := by
  induction text with
  | nil => rfl
  | cons d text ih =>
      rw [List.mem_cons, not_or] at h
      exact splitChar_cons_ne (Ne.symm h.1) (ih h.2)

/-- Parts that are joined at a character that is in none of them are cut apart again. -/
theorem splitChar_intercalate {c : Char} {parts : List (List Char)} (hne : parts ≠ [])
    (h : ∀ part ∈ parts, c ∉ part) : splitChar c ([c].intercalate parts) = parts := by
  induction parts with
  | nil => exact absurd rfl hne
  | cons part parts ih =>
      rw [List.forall_mem_cons] at h
      cases parts with
      | nil => rw [List.intercalate_singleton, splitChar_of_not_mem h.1]
      | cons next parts =>
          rw [List.intercalate_cons_cons, List.append_assoc, List.singleton_append,
            splitChar_append, splitChar_of_not_mem h.1, ih (List.cons_ne_nil _ _) h.2,
            List.singleton_append]

/-- A word between separators is a part of its text that is neither the first nor the last one. -/
theorem splitChar_of_infix {c : Char} {word text : List Char} (hword : c ∉ word)
    (h : c :: (word ++ [c]) <:+: text) :
    ∃ first middle last, splitChar c text = first :: (middle ++ [last]) ∧ word ∈ middle := by
  obtain ⟨front, back, rfl⟩ := h
  obtain ⟨first, parts, hfront⟩ := exists_splitChar c front
  have hback : splitChar c back ≠ [] := by
    obtain ⟨part, parts, heq⟩ := exists_splitChar c back
    rw [heq]
    exact List.cons_ne_nil _ _
  refine ⟨first, parts ++ word :: (splitChar c back).dropLast, (splitChar c back).getLast hback,
    ?_, by simp⟩
  rw [List.append_assoc, List.cons_append, splitChar_append, List.append_assoc,
    List.singleton_append, splitChar_append, splitChar_of_not_mem hword, List.singleton_append,
    List.append_assoc, List.cons_append, List.dropLast_append_getLast, hfront, List.cons_append]

theorem length_splitChar (c : Char) (text : List Char) :
    (splitChar c text).length = text.count c + 1 := by
  induction text with
  | nil => rfl
  | cons d text ih =>
      by_cases h : d = c
      · subst h
        simp [splitChar_cons_eq, ih]
      · obtain ⟨part, parts, hparts⟩ := exists_splitChar c text
        rw [hparts] at ih
        rw [splitChar_cons_ne h hparts, List.count_cons_of_ne h, ← ih, List.length_cons,
          List.length_cons]

theorem splitLastChar?_of_not_mem {c : Char} {text : List Char} (h : c ∉ text) :
    splitLastChar? c text = none := by
  induction text with
  | nil => rfl
  | cons d text ih =>
      rw [List.mem_cons, not_or] at h
      have hd : (d == c) = false := by simpa using Ne.symm h.1
      rw [splitLastChar?, ih h.2, hd]
      rfl

theorem splitLastChar?_append {c : Char} (front : List Char) {back : List Char} (h : c ∉ back) :
    splitLastChar? c (front ++ c :: back) = some (front, back) := by
  induction front with
  | nil => simp [splitLastChar?, splitLastChar?_of_not_mem h]
  | cons d front ih => rw [List.cons_append, splitLastChar?, ih]

end Parlance.Text
