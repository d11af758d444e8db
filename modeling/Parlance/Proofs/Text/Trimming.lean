import Mathlib.Data.List.TakeWhile
import Parlance.Text.Blank

/-!
# Texts without the blanks at their ends

Taking blanks off the ends of a text keeps its last visible character, and blanks put at an end are
taken off again. A text that is put behind a visible character loses blanks at its end only.
-/

namespace Parlance.Text

/-- The last character of a text that is not a blank. -/
def lastVisible? (text : List Char) : Option Char :=
  text.reverse.find? fun c => !isBlank c

theorem lastVisible?_append (front back : List Char) :
    lastVisible? (front ++ back) = (lastVisible? back).or (lastVisible? front) := by
  simp [lastVisible?, List.find?_append]

theorem lastVisible?_eq_none {text : List Char} :
    lastVisible? text = none ↔ ∀ c ∈ text, isBlank c = true := by
  simp [lastVisible?]

theorem lastVisible?_ne_none {c : Char} {text : List Char} (hc : c ∈ text)
    (hvisible : isBlank c = false) : lastVisible? text ≠ none := by
  intro hnone
  rw [lastVisible?_eq_none.mp hnone c hc] at hvisible
  cases hvisible

theorem getLast?_trimEnd (text : List Char) : (trimEnd text).getLast? = lastVisible? text := by
  simp [trimEnd, dropEndWhile, lastVisible?, List.find?_eq_head?_dropWhile_not]

theorem lastVisible?_dropWhile {p : Char → Bool} (hp : ∀ c, p c = true → isBlank c = true)
    (text : List Char) : lastVisible? (text.dropWhile p) = lastVisible? text := by
  have hblank : lastVisible? (text.takeWhile p) = none :=
    lastVisible?_eq_none.mpr fun c hc => hp c (List.all_eq_true.mp List.all_takeWhile c hc)
  have happend := lastVisible?_append (text.takeWhile p) (text.dropWhile p)
  rw [List.takeWhile_append_dropWhile, hblank, Option.or_none] at happend
  exact happend.symm

theorem getLast?_trim (text : List Char) : (trim text).getLast? = lastVisible? text := by
  rw [trim, getLast?_trimEnd, trimStart, lastVisible?_dropWhile fun _ hc => hc]

theorem trim_eq_nil_iff {text : List Char} : trim text = [] ↔ lastVisible? text = none := by
  rw [← getLast?_trim, List.getLast?_eq_none_iff]

theorem trim_of_visible {text : List Char} (h : ∀ c ∈ text, isBlank c = false) : trim text = text := by
  have hkept (part : List Char) (hpart : ∀ c ∈ part, isBlank c = false) :
      part.dropWhile isBlank = part := by
    cases part with
    | nil => rfl
    | cons c part => simp [hpart c List.mem_cons_self]
  have hreverse := hkept text.reverse fun c hc => h c (List.mem_reverse.mp hc)
  rw [trim, trimStart, hkept text h, trimEnd, dropEndWhile, hreverse, List.reverse_reverse]

theorem trim_cons_blank {c : Char} (hblank : isBlank c = true) (text : List Char) :
    trim (c :: text) = trim text := by
  simp [trim, trimStart, hblank]

theorem trim_blanks_append {front : List Char} (hblank : ∀ c ∈ front, isBlank c = true)
    (text : List Char) : trim (front ++ text) = trim text := by
  induction front with
  | nil => rfl
  | cons c front ih =>
      obtain ⟨hc, hfront⟩ := List.forall_mem_cons.mp hblank
      rw [List.cons_append, trim_cons_blank hc, ih hfront]

theorem trim_append_blank {c : Char} (hblank : isBlank c = true) (text : List Char) :
    trim (text ++ [c]) = trim text := by
  have hend (front : List Char) : trimEnd (front ++ [c]) = trimEnd front := by
    simp [trimEnd, dropEndWhile, hblank]
  unfold trim trimStart
  rw [List.dropWhile_append]
  split
  · next hempty =>
    rw [List.isEmpty_iff.mp hempty, List.dropWhile_cons_of_pos hblank]
    rfl
  · exact hend _

theorem trim_append_blanks (text : List Char) {tail : List Char}
    (hblank : ∀ c ∈ tail, isBlank c = true) : trim (text ++ tail) = trim text := by
  induction tail generalizing text with
  | nil => rw [List.append_nil]
  | cons c tail ih =>
      rw [List.append_cons, ih (text ++ [c]) fun d hd => hblank d (List.mem_cons_of_mem _ hd),
        trim_append_blank (hblank c List.mem_cons_self)]

theorem exists_trimEnd (text : List Char) :
    ∃ tail, (∀ c ∈ tail, isBlank c = true) ∧ trimEnd text ++ tail = text := by
  refine ⟨(text.reverse.takeWhile isBlank).reverse, fun c hc => ?_, ?_⟩
  · exact List.all_eq_true.mp List.all_takeWhile c (List.mem_reverse.mp hc)
  · rw [trimEnd, dropEndWhile, ← List.reverse_append, List.takeWhile_append_dropWhile,
      List.reverse_reverse]

theorem trim_sublist (text : List Char) : (trim text).Sublist text := by
  obtain ⟨tail, -, happend⟩ := exists_trimEnd (trimStart text)
  have hstart : (trim text).Sublist (trimStart text) := by
    rw [← happend]
    exact List.sublist_append_left (trim text) tail
  exact hstart.trans (List.dropWhile_sublist isBlank)

/-- A text without blanks at its ends starts with a visible character. -/
theorem not_isBlank_of_trim {c : Char} {text : List Char} (h : trim (c :: text) = c :: text) :
    isBlank c = false := by
  by_contra hblank
  rw [Bool.not_eq_false] at hblank
  rw [trim_cons_blank hblank] at h
  have hlength := (trim_sublist text).length_le
  rw [h, List.length_cons] at hlength
  omega

theorem lastVisible?_trim (text : List Char) : lastVisible? (trim text) = lastVisible? text := by
  obtain ⟨tail, htail, happend⟩ := exists_trimEnd (trimStart text)
  have hend : lastVisible? (trimStart text) = lastVisible? (trim text) := by
    rw [← happend, lastVisible?_append, lastVisible?_eq_none.mpr htail, Option.none_or]
    rfl
  rw [← hend, trimStart, lastVisible?_dropWhile fun _ hc => hc]

/-- Blanks are taken off the end of what stands last, if there is anything to see in it. -/
theorem trimEnd_append (front : List Char) {back : List Char} (hback : lastVisible? back ≠ none) :
    trimEnd (front ++ back) = front ++ trimEnd back := by
  have hvisible : (back.reverse.dropWhile isBlank).isEmpty = false := by
    rw [lastVisible?, List.find?_eq_head?_dropWhile_not] at hback
    simpa using hback
  simp [trimEnd, dropEndWhile, List.dropWhile_append, hvisible]

/-- Blanks are taken off behind a text that has none at its ends. -/
theorem trim_behind {front back : List Char} (hne : front ≠ []) (htrimmed : trim front = front)
    (hvisible : lastVisible? back ≠ none) : trim (front ++ back) = front ++ trimEnd back := by
  obtain ⟨c, more, rfl⟩ := List.exists_cons_of_ne_nil hne
  have hc := not_isBlank_of_trim htrimmed
  rw [trim, trimStart, List.cons_append, List.dropWhile_cons_of_neg (by simp [hc]),
    ← List.cons_append, trimEnd_append (c :: more) hvisible]

/-- Nothing is taken off between a text without blanks at its ends and a character to be seen. -/
theorem trim_between {front : List Char} {c : Char} (hne : front ≠ []) (htrimmed : trim front = front)
    (hc : isBlank c = false) (inner : List Char) :
    trim (front ++ (inner ++ [c])) = front ++ (inner ++ [c]) := by
  have hlast : lastVisible? [c] ≠ none := by simp [lastVisible?, hc]
  have hback : lastVisible? (inner ++ [c]) ≠ none := by
    rw [lastVisible?_append]
    simp [hlast]
  have hend : trimEnd [c] = [c] := by simp [trimEnd, dropEndWhile, hc]
  rw [trim_behind hne htrimmed hback, trimEnd_append inner hlast, hend]

theorem visible_of_trim {text : List Char} (htrimmed : trim text = text) (hne : text ≠ []) :
    lastVisible? text ≠ none := by
  rw [← htrimmed, ne_eq, trim_eq_nil_iff] at hne
  exact hne

theorem trimEnd_of_trim {text : List Char} (htrimmed : trim text = text) : trimEnd text = text := by
  cases text with
  | nil => rfl
  | cons c text =>
      have hc := not_isBlank_of_trim htrimmed
      have hstart : trimStart (c :: text) = c :: text := by simp [trimStart, hc]
      rw [trim, hstart] at htrimmed
      exact htrimmed

/-- Blanks stand at neither end of two texts with a space between them, if at neither end of
each. -/
theorem trim_around_space {front back : List Char} (hfront : front ≠ []) (hback : back ≠ [])
    (htrimmedFront : trim front = front) (htrimmedBack : trim back = back) :
    trim (front ++ ' ' :: back) = front ++ ' ' :: back := by
  have hvisible := visible_of_trim htrimmedBack hback
  have hspace : lastVisible? (' ' :: back) ≠ none := by
    rw [← List.singleton_append, lastVisible?_append]
    simp [hvisible]
  rw [trim_behind hfront htrimmedFront hspace, ← List.singleton_append,
    trimEnd_append _ hvisible, trimEnd_of_trim htrimmedBack]

end Parlance.Text
