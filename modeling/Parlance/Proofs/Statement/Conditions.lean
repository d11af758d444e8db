import Parlance.Machine.Run
import Parlance.Proofs.Expr.Letters
import Parlance.Proofs.Text.Replacing
import Parlance.Statement.Condition

/-!
# Conditions that are expressions already

Words are replaced as plain text, wherever they stand: between operands, in front of an operand, in
a literal text. Every replacement takes counted letters away, and the tree of an expression keeps
count of them. So an expression still means the same as a condition exactly if none of the words
occurs in it between spaces, and then the condition is the expression as it stands.
-/

namespace Parlance

namespace Condition

/-- The words that stand for operators. -/
def comparingWords : List String :=
  ["is", "equals", "greater than", "less than", "bigger than", "smaller than", "not"]

/-- None of the words that stand for operators occurs in a text between spaces. -/
def IsWordless (text : List Char) : Prop :=
  ∀ word ∈ comparingWords, ¬ ' ' :: word.toList ++ [' '] <:+: text

instance (text : List Char) : Decidable (IsWordless text) :=
  inferInstanceAs (Decidable (∀ word ∈ comparingWords, ¬ ' ' :: word.toList ++ [' '] <:+: text))

/-- The phrases that are replaced by operators are the words between spaces. -/
theorem isWordless_iff {text : List Char} :
    IsWordless text ↔ ∀ phrase ∈ operatorWords, ¬ phrase.1.toList <:+: text := by
  have hphrases : operatorWords.map (·.1.toList) = comparingWords.map (' ' :: ·.toList ++ [' ']) := by
    decide +kernel
  have hall := congrArg (fun phrases => ∀ phrase ∈ phrases, ¬ phrase <:+: text) hphrases
  simp only [List.forall_mem_map] at hall
  exact iff_of_eq hall.symm

/-- Replaces some phrases, one after another. -/
def replacePhrases (phrases : List (String × String)) (text : List Char) : List Char :=
  phrases.foldl (fun text phrase => Text.replaceAll phrase.1.toList phrase.2.toList text) text

theorem traces_phrases : ∀ phrase ∈ leadingIs ++ operatorWords,
    Text.traces phrase.2.toList < Text.traces phrase.1.toList := by
  decide +kernel

/-- An `is` that is dropped stands in front of one of the words. -/
theorem word_in_leadingIs : ∀ phrase ∈ leadingIs, ∃ word ∈ operatorWords,
    word.1.toList <:+: phrase.1.toList := by
  decide +kernel

theorem ne_nil_of_traces_lt {word new : List Char} (h : Text.traces new < Text.traces word) :
    word ≠ [] := by
  rintro rfl
  exact Nat.not_lt_zero _ h

theorem replacePhrases_of_absent {phrases : List (String × String)} {text : List Char}
    (fewer : ∀ phrase ∈ phrases, Text.traces phrase.2.toList < Text.traces phrase.1.toList)
    (none_occurs : ∀ phrase ∈ phrases, ¬ phrase.1.toList <:+: text) :
    replacePhrases phrases text = text := by
  induction phrases with
  | nil => rfl
  | cons phrase phrases ih =>
      have hne := ne_nil_of_traces_lt (fewer phrase List.mem_cons_self)
      have hkept : Text.replaceAll phrase.1.toList phrase.2.toList text = text :=
        (Text.replaces_replaceAll hne phrase.2.toList text).eq_self
          (none_occurs phrase List.mem_cons_self)
      rw [replacePhrases, List.foldl_cons, hkept]
      exact ih (fun other hother => fewer other (List.mem_cons_of_mem _ hother))
        fun other hother => none_occurs other (List.mem_cons_of_mem _ hother)

/-- Either no phrase occurs and the text is kept, or it loses counted letters. -/
theorem replacePhrases_kept_or_lt {phrases : List (String × String)} {text : List Char}
    (fewer : ∀ phrase ∈ phrases, Text.traces phrase.2.toList < Text.traces phrase.1.toList) :
    (∀ phrase ∈ phrases, ¬ phrase.1.toList <:+: text) ∨
      Text.traces (replacePhrases phrases text) < Text.traces text := by
  induction phrases generalizing text with
  | nil => exact .inl nofun
  | cons phrase phrases ih =>
      have hfirst := fewer phrase List.mem_cons_self
      have hrest := fun other hother => fewer other (List.mem_cons_of_mem phrase hother)
      have hreplaced := Text.replaces_replaceAll (ne_nil_of_traces_lt hfirst) phrase.2.toList text
      rw [replacePhrases, List.foldl_cons]
      rcases hreplaced.kept_or_countP_lt hfirst with ⟨hkept, hnone⟩ | hlt
      · rw [hkept]
        rcases ih hrest with hnones | hlt
        · exact .inl (List.forall_mem_cons.mpr ⟨hnone, hnones⟩)
        · exact .inr hlt
      · refine .inr (Nat.lt_of_le_of_lt ?_ hlt)
        rcases @ih (Text.replaceAll phrase.1.toList phrase.2.toList text) hrest with hnones | hlt
        · exact Nat.le_of_eq (congrArg Text.traces (replacePhrases_of_absent hrest hnones))
        · exact Nat.le_of_lt hlt

theorem withOperators_eq (text : List Char) :
    withOperators text = replacePhrases (leadingIs ++ operatorWords) text :=
  rfl

theorem withOperators_of_isWordless {text : List Char} (h : IsWordless text) :
    withOperators text = text := by
  rw [withOperators_eq]
  apply replacePhrases_of_absent traces_phrases
  intro phrase hphrase
  rcases List.mem_append.mp hphrase with hleading | hword
  · obtain ⟨word, hword, hinside⟩ := word_in_leadingIs phrase hleading
    exact fun hoccurs => isWordless_iff.mp h word hword (hinside.trans hoccurs)
  · exact isWordless_iff.mp h phrase hword

theorem isWordless_or_traces_lt (text : List Char) :
    IsWordless text ∨ Text.traces (withOperators text) < Text.traces text := by
  rw [withOperators_eq]
  rcases @replacePhrases_kept_or_lt _ text traces_phrases with hnone | hlt
  · exact .inl (isWordless_iff.mpr fun word hword => hnone word (List.mem_append_right _ hword))
  · exact .inr hlt

/-- An expression is read as the same tree when it is a condition exactly if none of the words
occurs in it, and then it is tested as it stands. -/
theorem expressions_kept_iff_wordless {text : String} {e : Expr} (h : e.ReadFrom text.toList) :
    (e.ReadFrom (toExpression text).toList ↔ IsWordless text.toList) ∧
      (IsWordless text.toList →
        toExpression text = text ∧ Exec.holds (toExpression text) = Exec.holds text) := by
  have hkept (hwordless : IsWordless text.toList) : toExpression text = text := by
    rw [toExpression, withOperators_of_isWordless hwordless, String.ofList_toList]
  refine ⟨⟨fun hread => ?_, fun hwordless => ?_⟩, fun hwordless => ?_⟩
  · rcases isWordless_or_traces_lt text.toList with hwordless | hlt
    · exact hwordless
    · have hsame : Text.traces (withOperators text.toList) = Text.traces text.toList := by
        rw [← h.traces_eq, hread.traces_eq, toExpression, String.toList_ofList]
      omega
  · rw [hkept hwordless]
    exact h
  · rw [hkept hwordless]
    exact ⟨rfl, rfl⟩

/-- A `not` at the front and words without spaces around them are no words of a condition. -/
theorem expressions_kept_iff_wordless_moods :
    (Expr.and (.unary .not (.name "done"))
        (.compare (.literal (.str "is\tnot")) [.mk .within (.name "moods")])).ReadFrom
      "not done and \"is\\tnot\" in moods".toList ∧
    IsWordless "not done and \"is\\tnot\" in moods".toList ∧
    toExpression "not done and \"is\\tnot\" in moods" = "not done and \"is\\tnot\" in moods" := by
  have hread : (Expr.and (.unary .not (.name "done"))
        (.compare (.literal (.str "is\tnot")) [.mk .within (.name "moods")])).ReadFrom
      "not done and \"is\\tnot\" in moods".toList :=
    ⟨[.keyword .not, .name "done", .keyword .and, .str "is\tnot", .keyword .within, .name "moods"],
      rfl, rfl⟩
  have hwordless : IsWordless "not done and \"is\\tnot\" in moods".toList := by
    decide +kernel
  have hkept := expressions_kept_iff_wordless hread
  exact ⟨hread, hwordless, (hkept.2 hwordless).1⟩

/-- A `not` behind another operator is taken for a comparison, and a word in a literal text is
replaced as well. -/
theorem not_behind_and_is_no_expression :
    ((Expr.and (.literal (.bool true)) (.unary .not (.literal (.bool false)))).ReadFrom
        "True and not False".toList ∧
      ∀ e : Expr, ¬ e.ReadFrom (toExpression "True and not False").toList) ∧
    (Expr.literal (.str "it is so")).ReadFrom "\"it is so\"".toList ∧
    (Expr.literal (.str "it == so")).ReadFrom (toExpression "\"it is so\"").toList := by
  refine ⟨⟨⟨[.keyword .yes, .keyword .and, .keyword .not, .keyword .no], rfl, rfl⟩, ?_⟩,
    ⟨[.str "it is so"], rfl, rfl⟩, ⟨[.str "it == so"], rfl, rfl⟩⟩
  rintro e ⟨ts, hscan, hparse⟩
  have htokens : Token.scan (toExpression "True and not False").toList =
      .ok [.keyword .yes, .keyword .and, .sign .notEqual, .keyword .no] := rfl
  cases hscan.symm.trans htokens
  cases hparse

end Condition

end Parlance
