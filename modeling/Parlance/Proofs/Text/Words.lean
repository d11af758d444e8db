import Parlance.Proofs.Text.Cutting
import Parlance.Proofs.Text.Replacing

/-!
# Replacing words that stand in a row

Where a text is made of words with a space between any two of them, words with spaces around them are
found only where the same words stand in a row. So replacing them as text replaces words by words; the
word behind them gives its space away and is passed over.
-/

namespace Parlance.Text

/-- None of the words holds a space. -/
def Spaceless (words : List String) : Prop :=
  ∀ word ∈ words, ' ' ∉ word.toList

instance (words : List String) : Decidable (Spaceless words) :=
  inferInstanceAs (Decidable (∀ word ∈ words, ' ' ∉ word.toList))

theorem spaceless_cons {word : String} {words : List String} :
    Spaceless (word :: words) ↔ ' ' ∉ word.toList ∧ Spaceless words :=
  List.forall_mem_cons

theorem spaceless_append {front back : List String} :
    Spaceless (front ++ back) ↔ Spaceless front ∧ Spaceless back :=
  List.forall_mem_append

/-- Words, each with a space in front of it. -/
def spaced (words : List String) : List Char :=
  words.flatMap fun word => ' ' :: word.toList

/-- Words with a space in front of each and behind the last. -/
def padded (words : List String) : List Char :=
  spaced words ++ [' ']

theorem spaced_cons (word : String) (words : List String) :
    spaced (word :: words) = ' ' :: (word.toList ++ spaced words) :=
  rfl

theorem spaced_append (front back : List String) :
    spaced (front ++ back) = spaced front ++ spaced back :=
  List.flatMap_append

/-- Words in a row are the first one, and the others with their spaces. -/
theorem toList_intercalate_space (first : String) (words : List String) :
    (" ".intercalate (first :: words)).toList = first.toList ++ spaced words := by
  induction words generalizing first with
  | nil => simp [spaced]
  | cons word words ih =>
      rw [String.intercalate_cons_cons, String.toList_append, String.toList_append, ih, spaced_cons]
      simp

theorem splitChar_spaced {words : List String} (h : Spaceless words) :
    (splitChar ' ' (spaced words)).map String.ofList = "" :: words := by
  have hparts : ∀ part ∈ ("" :: words).map String.toList, ' ' ∉ part := by
    simpa [Spaceless] using h
  have hjoined := toList_intercalate_space "" words
  have hspace : " ".toList = [' '] := by decide
  rw [String.toList_intercalate, hspace, String.toList_empty, List.nil_append] at hjoined
  rw [← hjoined, splitChar_intercalate (by simp) hparts]
  simp

/-- Words with spaces around them occur only where the words do. -/
theorem prefix_of_padded {old words : List String} (hold : Spaceless old) (hwords : Spaceless words)
    (h : padded old <+: spaced words) : old <+: words := by
  obtain ⟨tail, htail⟩ := h
  have hparts := congrArg (fun text => (splitChar ' ' text).map String.ofList) htail
  simp only [padded, List.append_assoc, List.cons_append, splitChar_append, List.map_append,
    splitChar_spaced hold, splitChar_spaced hwords, List.cons.injEq, true_and] at hparts
  exact ⟨_, hparts⟩

theorem exists_padded (words : List String) : ∃ more, padded words = ' ' :: more := by
  cases words with
  | nil => exact ⟨[], rfl⟩
  | cons word words => exact ⟨word.toList ++ padded words, by simp [padded, spaced_cons]⟩

variable {old : List String} {word : String} {words : List String}

/-- A word is passed over if it has no space of its own. -/
theorem replaceAll_word_append (hword : ' ' ∉ word.toList) (old : List String)
    (new text : List Char) :
    replaceAll (padded old) new (word.toList ++ text) =
      word.toList ++ replaceAll (padded old) new text := by
  obtain ⟨more, hmore⟩ := exists_padded old
  rw [hmore, replaceAll_append_of_not_mem hword]

/-- The words are replaced where they stand, and the word behind them is passed over. -/
theorem replaceAll_spaced_here (hword : ' ' ∉ word.toList) (old new words : List String) :
    replaceAll (padded old) (padded new) (spaced (old ++ word :: words)) =
      spaced (new ++ [word]) ++ replaceAll (padded old) (padded new) (spaced words) := by
  have hne : padded old ≠ [] := by simp [padded]
  have htext : spaced (old ++ word :: words) = padded old ++ (word.toList ++ spaced words) := by
    simp [padded, spaced_append, spaced_cons]
  rw [htext, replaceAll_word hne, replaceAll_word_append hword]
  simp [padded, spaced]

/-- A word that the words do not start with is passed over with its space. -/
theorem replaceAll_spaced_elsewhere (hold : Spaceless old) (hwords : Spaceless (word :: words))
    (h : ¬ old <+: word :: words) (new : List Char) :
    replaceAll (padded old) new (spaced (word :: words)) =
      spaced [word] ++ replaceAll (padded old) new (spaced words) := by
  have helsewhere : ¬ padded old <+: ' ' :: (word.toList ++ spaced words) :=
    fun hstarts => h (prefix_of_padded hold hwords hstarts)
  rw [spaced_cons, replaceAll_cons helsewhere,
    replaceAll_word_append (spaceless_cons.mp hwords).1]
  simp [spaced]

/-- Words are passed over if the others start with none of them. -/
theorem replaceAll_spaced_append (hold : Spaceless old) {front : List String}
    (hwords : Spaceless (front ++ words))
    (h : ∀ back, back <:+ front → back ≠ [] → ¬ old <+: back ++ words) (new : List Char) :
    replaceAll (padded old) new (spaced (front ++ words)) =
      spaced front ++ replaceAll (padded old) new (spaced words) := by
  induction front with
  | nil => rfl
  | cons word front ih =>
      have hhere : ¬ old <+: word :: (front ++ words) :=
        h (word :: front) (List.suffix_refl _) (List.cons_ne_nil _ _)
      have hrest := ih (spaceless_cons.mp hwords).2 fun back hback =>
        h back (hback.trans (List.suffix_cons word front))
      rw [List.cons_append] at hwords ⊢
      rw [replaceAll_spaced_elsewhere hold hwords hhere, hrest, ← List.append_assoc, ← spaced_append,
        List.singleton_append]

end Parlance.Text
