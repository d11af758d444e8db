import Mathlib.Data.List.Infix
import Parlance.Text.Cut

/-!
# Replacing words in a text

A replacement keeps the characters at which the word does not start and puts the new word in the
place of the others. It changes a text exactly if the word occurs in it, and it lowers the number of
characters of a kind of which the new word has fewer.
-/

namespace Parlance.Text

/-- What becomes of a text in which a word is replaced. -/
inductive Replaces (word new : List Char) : List Char → List Char → Prop
  | nil : Replaces word new [] []
  | keep {c : Char} {text text' : List Char} (elsewhere : ¬ word <+: c :: text)
      (more : Replaces word new text text') : Replaces word new (c :: text) (c :: text')
  | swap {text text' : List Char} (more : Replaces word new text text') :
      Replaces word new (word ++ text) (new ++ text')

theorem replaceFrom_drop (word new : List Char) (skip : Nat) (text : List Char) :
    replaceFrom word new skip text = replaceAll word new (text.drop skip) := by
  induction text generalizing skip with
  | nil => cases skip <;> rfl
  | cons c text ih =>
      cases skip with
      | zero => rfl
      | succ skip => exact ih skip

theorem replaceAll_word {word : List Char} (hne : word ≠ []) (new rest : List Char) :
    replaceAll word new (word ++ rest) = new ++ replaceAll word new rest := by
  obtain ⟨c, more, rfl⟩ := List.exists_cons_of_ne_nil hne
  have hstarts : startsWith (c :: more) (c :: (more ++ rest)) = true :=
    List.isPrefixOf_iff_prefix.mpr (List.prefix_append (c :: more) rest)
  rw [List.cons_append, replaceAll, replaceFrom, if_pos hstarts, replaceFrom_drop,
    List.length_cons, Nat.add_sub_cancel, List.drop_left]

theorem replaceAll_cons {word : List Char} {c : Char} {text : List Char}
    (h : ¬ word <+: c :: text) (new : List Char) :
    replaceAll word new (c :: text) = c :: replaceAll word new text := by
  have hstarts : ¬ startsWith word (c :: text) = true :=
    fun hstarts => h (List.isPrefixOf_iff_prefix.mp hstarts)
  rw [replaceAll, replaceFrom, if_neg hstarts, replaceFrom_drop, List.drop_zero]

/-- Characters that the word does not begin with are passed over. -/
theorem replaceAll_append_of_not_mem {c : Char} {front : List Char} (h : c ∉ front)
    (word new back : List Char) :
    replaceAll (c :: word) new (front ++ back) = front ++ replaceAll (c :: word) new back := by
  induction front with
  | nil => rfl
  | cons d front ih =>
      rw [List.mem_cons, not_or] at h
      have helsewhere : ¬ c :: word <+: d :: (front ++ back) :=
        fun hstarts => h.1 (List.cons_prefix_cons.mp hstarts).1
      rw [List.cons_append, replaceAll_cons helsewhere, ih h.2, List.cons_append]

theorem replaces_replaceAll {word : List Char} (hne : word ≠ []) (new text : List Char) :
    Replaces word new text (replaceAll word new text) := by
  -- An occurrence is passed over as a whole, so the induction is on the length of the text.
  induction hlength : text.length using Nat.strong_induction_on generalizing text with
  | _ length ih =>
      subst hlength
      by_cases hstarts : word <+: text
      · obtain ⟨rest, rfl⟩ := hstarts
        rw [replaceAll_word hne]
        have hlt : rest.length < (word ++ rest).length := by
          have := List.length_pos_iff.mpr hne
          rw [List.length_append]
          omega
        exact .swap (ih rest.length hlt rest rfl)
      · cases text with
        | nil => exact .nil
        | cons c text =>
            rw [replaceAll_cons hstarts]
            exact .keep hstarts (ih text.length (Nat.lt_succ_self _) text rfl)

theorem Replaces.countP_le {word new : List Char} {p : Char → Bool}
    (hfewer : new.countP p ≤ word.countP p) {text text' : List Char}
    (h : Replaces word new text text') : text'.countP p ≤ text.countP p := by
  induction h with
  | nil => exact Nat.le_refl _
  | keep elsewhere more ih =>
      simp only [List.countP_cons]
      omega
  | swap more ih =>
      simp only [List.countP_append]
      omega

/-- A text either is kept, or it loses characters of a kind that the new word has fewer of. -/
theorem Replaces.kept_or_countP_lt {word new : List Char} {p : Char → Bool}
    (hfewer : new.countP p < word.countP p) {text text' : List Char}
    (h : Replaces word new text text') :
    (text' = text ∧ ¬ word <:+: text) ∨ text'.countP p < text.countP p := by
  induction h with
  | nil =>
      refine .inl ⟨rfl, fun hoccurs => ?_⟩
      rw [List.infix_nil.mp hoccurs] at hfewer
      exact Nat.not_lt_zero _ hfewer
  | @keep c text text' elsewhere more ih =>
      rcases ih with ⟨rfl, hnone⟩ | hlt
      · refine .inl ⟨rfl, fun hoccurs => ?_⟩
        rcases List.infix_cons_iff.mp hoccurs with hhere | hlater
        · exact elsewhere hhere
        · exact hnone hlater
      · refine .inr ?_
        simp only [List.countP_cons]
        omega
  | @swap text text' more ih =>
      have hle := more.countP_le (Nat.le_of_lt hfewer)
      refine .inr ?_
      simp only [List.countP_append]
      omega

theorem Replaces.eq_self {word new text text' : List Char} (h : Replaces word new text text')
    (hnone : ¬ word <:+: text) : text' = text := by
  induction h with
  | nil => rfl
  | keep elsewhere more ih =>
      rw [ih fun hlater => hnone (List.infix_cons_iff.mpr (.inr hlater))]
  | @swap text text' more ih => exact absurd (List.prefix_append word text).isInfix hnone

end Parlance.Text
