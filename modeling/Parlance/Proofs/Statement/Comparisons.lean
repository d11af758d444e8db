import Mathlib.Data.List.Infix
import Parlance.Proofs.Text.Words
import Parlance.Statement.Condition

/-!
# Comparisons in words

A condition in words is split into comparisons and operands, the longest comparison first. Where a
comparison stands between two operands, the words that are replaced one after another act like one
translation of all comparisons at once: no replacement makes or breaks another one, whatever fragments
of comparisons are among the operands.
-/

namespace Parlance.Condition

/-- Words that compare, and the operator that they stand for. -/
structure Comparison where
  words : List String
  operator : String
  deriving DecidableEq

/-- The comparisons, longest first. -/
def comparisons : List Comparison :=
  [⟨["is", "greater", "than"], ">"⟩,
    ⟨["is", "less", "than"], "<"⟩,
    ⟨["is", "bigger", "than"], ">"⟩,
    ⟨["is", "smaller", "than"], "<"⟩,
    ⟨["is", "not"], "!="⟩,
    ⟨["greater", "than"], ">"⟩,
    ⟨["less", "than"], "<"⟩,
    ⟨["bigger", "than"], ">"⟩,
    ⟨["smaller", "than"], "<"⟩,
    ⟨["is"], "=="⟩,
    ⟨["equals"], "=="⟩,
    ⟨["not"], "!="⟩]

/-- The longest comparison that some words start with. -/
def comparison? (words : List String) : Option Comparison :=
  comparisons.find? fun p => p.words.isPrefixOf words

/-- A part of a condition in words. -/
inductive Part where
  | operand (word : String)
  | comparison (p : Comparison)
  deriving DecidableEq

/-- Splits words into parts from left to right; the first argument counts the words of a comparison
that are still to be passed over. -/
def partsFrom : Nat → List String → List Part
  | _, [] => []
  | skip + 1, _ :: words => partsFrom skip words
  | 0, word :: words =>
    match comparison? (word :: words) with
    | some p => .comparison p :: partsFrom (p.words.length - 1) words
    | none => .operand word :: partsFrom 0 words

/-- The parts of a condition in words. -/
def parts (words : List String) : List Part :=
  partsFrom 0 words

/-- A word for a part: an operand stays as it is, and a comparison becomes its operator. -/
def Part.translation : Part → String
  | operand word => word
  | comparison p => p.operator

/-- Whether a part is an operand. -/
def Part.isOperand : Part → Bool
  | operand _ => true
  | comparison _ => false

/-- No comparison is first, last or next to another one. -/
structure Separated (ps : List Part) : Prop where
  first : ∀ p ∈ ps.head?, p.isOperand = true
  last : ∀ p ∈ ps.getLast?, p.isOperand = true
  apart : ps.IsChain fun p q => p.isOperand = true ∨ q.isOperand = true

/-! ## Splitting -/

/-- Words are split at the longest comparisons, from left to right. -/
inductive Splits : List String → List Part → Prop
  | nil : Splits [] []
  | operand {word : String} {words : List String} {ps : List Part}
      (plain : ∀ p ∈ comparisons, ¬ p.words <+: word :: words) (more : Splits words ps) :
      Splits (word :: words) (.operand word :: ps)
  | comparison {p : Comparison} {words : List String} {ps : List Part} (mem : p ∈ comparisons)
      (longest : ∀ q ∈ comparisons, q.words <+: p.words ++ words → q.words.length ≤ p.words.length)
      (more : Splits words ps) : Splits (p.words ++ words) (.comparison p :: ps)

theorem partsFrom_drop (skip : Nat) (words : List String) :
    partsFrom skip words = parts (words.drop skip) := by
  induction words generalizing skip with
  | nil => cases skip <;> rfl
  | cons word words ih =>
      cases skip with
      | zero => rfl
      | succ skip => exact ih skip

theorem comparison?_eq_none {words : List String} (h : comparison? words = none) :
    ∀ p ∈ comparisons, ¬ p.words <+: words := by
  intro p hp hstarts
  exact List.find?_eq_none.mp h p hp (List.isPrefixOf_iff_prefix.mpr hstarts)

theorem comparisons_pairwise :
    comparisons.Pairwise fun p q => q.words.length ≤ p.words.length := by
  decide

theorem longest_of_comparison? {words : List String} {p : Comparison}
    (h : comparison? words = some p) :
    p ∈ comparisons ∧ p.words <+: words ∧
      ∀ q ∈ comparisons, q.words <+: words → q.words.length ≤ p.words.length := by
  obtain ⟨hstarts, front, back, hsplit, hfront⟩ := List.find?_eq_some_iff_append.mp h
  have hpairwise := comparisons_pairwise
  rw [hsplit, List.pairwise_append, List.pairwise_cons] at hpairwise
  refine ⟨List.mem_of_find?_eq_some h, List.isPrefixOf_iff_prefix.mp hstarts, fun q hq hqstarts => ?_⟩
  rw [hsplit, List.mem_append, List.mem_cons] at hq
  rcases hq with hq | rfl | hq
  · have hnot := hfront q hq
    rw [List.isPrefixOf_iff_prefix.mpr hqstarts] at hnot
    cases hnot
  · exact Nat.le_refl _
  · exact hpairwise.2.1.1 q hq

theorem comparisons_ne_nil : ∀ p ∈ comparisons, p.words ≠ [] := by
  decide

theorem splits_parts (words : List String) : Splits words (parts words) := by
  -- A comparison is passed over as a whole, so the induction is on the number of words.
  induction hlength : words.length using Nat.strong_induction_on generalizing words with
  | _ length ih =>
      subst hlength
      cases words with
      | nil => exact .nil
      | cons word words =>
          rw [parts, partsFrom]
          cases hfound : comparison? (word :: words) with
          | none =>
              have hrest := ih words.length (Nat.lt_succ_self _) words rfl
              exact .operand (comparison?_eq_none hfound) hrest
          | some p =>
              obtain ⟨hp, ⟨rest, hrest⟩, hlongest⟩ := longest_of_comparison? hfound
              obtain ⟨first, more, hwords⟩ := List.exists_cons_of_ne_nil (comparisons_ne_nil p hp)
              have hdrop : words.drop (p.words.length - 1) = rest := by
                rw [hwords] at hrest ⊢
                cases hrest
                simp
              have hlt : rest.length < (word :: words).length := by
                rw [← hdrop, List.length_drop, List.length_cons]
                omega
              have hmore := ih rest.length hlt rest rfl
              dsimp only
              rw [partsFrom_drop, hdrop]
              rw [← hrest] at hlongest ⊢
              exact .comparison hp hlongest hmore

/-! ## Operands between comparisons -/

/-- The words of some parts, if comparisons are written in a given way. -/
def rendered (write : Comparison → List String) (ps : List Part) : List String :=
  ps.flatMap fun
    | .operand word => [word]
    | .comparison p => write p

theorem rendered_operand (write : Comparison → List String) (word : String) (ps : List Part) :
    rendered write (.operand word :: ps) = word :: rendered write ps :=
  rfl

theorem rendered_comparison (write : Comparison → List String) (p : Comparison) (ps : List Part) :
    rendered write (.comparison p :: ps) = write p ++ rendered write ps :=
  rfl

theorem Splits.rendered_words {words : List String} {ps : List Part} (h : Splits words ps) :
    rendered Comparison.words ps = words := by
  induction h with
  | nil => rfl
  | operand _ _ ih => rw [rendered_operand, ih]
  | comparison _ _ _ ih => rw [rendered_comparison, ih]

theorem rendered_translation (ps : List Part) :
    rendered (fun p => [p.operator]) ps = ps.map Part.translation := by
  induction ps with
  | nil => rfl
  | cons p ps ih =>
      cases p with
      | operand word => rw [rendered_operand, ih]; rfl
      | comparison p => rw [rendered_comparison, ih]; rfl

/-- An operand is a word, and with the words behind it it does not start a comparison. -/
structure Operand (word : String) (behind : List Part) : Prop where
  spaceless : ' ' ∉ word.toList
  plain : ∀ p ∈ comparisons, ¬ p.words <+: word :: rendered Comparison.words behind

/-- Parts in which an operand stands behind every comparison. -/
inductive Alternating : List Part → Prop
  | nil : Alternating []
  | operand {word : String} {ps : List Part} (isOperand : Operand word ps)
      (more : Alternating ps) : Alternating (.operand word :: ps)
  | comparison {p : Comparison} {word : String} {ps : List Part} (mem : p ∈ comparisons)
      (isOperand : Operand word ps) (more : Alternating ps) :
      Alternating (.comparison p :: .operand word :: ps)

theorem Splits.alternating {words : List String} {ps : List Part} (h : Splits words ps)
    (spaceless : Text.Spaceless words) (last : ∀ p ∈ ps.getLast?, p.isOperand = true)
    (apart : ps.IsChain fun p q => p.isOperand = true ∨ q.isOperand = true) : Alternating ps := by
  induction h with
  | nil => exact .nil
  | @operand word words ps plain more ih =>
      rw [Text.spaceless_cons] at spaceless
      rw [← more.rendered_words] at plain
      refine .operand ⟨spaceless.1, plain⟩ (ih spaceless.2 (fun p hp => last p ?_) apart.of_cons)
      rw [List.getLast?_cons, hp, Option.getD_some]
      exact rfl
  | @comparison p words ps mem _ more ih =>
      cases ps with
      | nil => exact absurd (last (.comparison p) rfl) Bool.false_ne_true
      | cons next ps =>
          have hnext : next.isOperand = true :=
            (List.isChain_cons_cons.mp apart).1.resolve_left Bool.false_ne_true
          have hmore := ih (Text.spaceless_append.mp spaceless).2
            (fun q hq => last q (by rwa [List.getLast?_cons_cons])) apart.of_cons
          cases hmore with
          | operand isOperand more => exact .comparison mem isOperand more
          | comparison _ _ _ => cases hnext

/-- Every comparison starts with one of a single word, or has only `than` behind its first word. -/
theorem comparison_shapes : ∀ p ∈ comparisons,
    (∃ q ∈ comparisons, q.words = p.words.take 1) ∨ p.words = p.words.take 1 ++ ["than"] := by
  decide

/-- An operand starts no comparison either if comparisons are written in another way, as long as none
of them is written with `than` in front. -/
theorem Operand.not_startsWith {word : String} {ps : List Part} (h : Operand word ps)
    (hps : Alternating ps) {write : Comparison → List String}
    (hwrite : ∀ p ∈ comparisons, write p ≠ [] ∧ (write p).head? ≠ some "than")
    {p : Comparison} (hp : p ∈ comparisons) : ¬ p.words <+: word :: rendered write ps := by
  intro hstarts
  obtain ⟨first, more, hwords⟩ := List.exists_cons_of_ne_nil (comparisons_ne_nil p hp)
  have hshape := comparison_shapes p hp
  rw [hwords, List.take_succ_cons, List.take_zero] at hshape
  rw [hwords, List.cons_prefix_cons] at hstarts
  obtain ⟨rfl, hmore⟩ := hstarts
  rcases hshape with ⟨q, hq, hone⟩ | hthan
  · refine h.plain q hq ?_
    rw [hone]
    exact List.cons_prefix_cons.mpr ⟨rfl, List.nil_prefix⟩
  · obtain rfl : more = ["than"] := List.cons_injective hthan
    cases hps with
    | nil => exact absurd hmore (by simp [rendered])
    | operand isOperand _ =>
        rw [rendered_operand, List.cons_prefix_cons] at hmore
        refine h.plain p hp ?_
        rw [hwords, rendered_operand, ← hmore.1]
        exact ⟨_, rfl⟩
    | @comparison q _ _ mem _ _ =>
        obtain ⟨hne, hhead⟩ := hwrite q mem
        obtain ⟨front, back, hfront⟩ := List.exists_cons_of_ne_nil hne
        rw [rendered_comparison, hfront, List.cons_append, List.cons_prefix_cons] at hmore
        rw [hfront, List.head?_cons, ← hmore.1] at hhead
        exact hhead rfl

/-! ## One replacement -/

/-- Words that are replaced, and the words in their place. -/
abbrev Rule : Type :=
  List String × List String

/-- What a rule makes of the words of a comparison. -/
def Rule.swap (rule : Rule) (words : List String) : List String :=
  if words = rule.1 then rule.2 else words

/-- What a rule can do to words between two operands: it replaces all of them, or it starts nowhere
among them, unless it goes on over the end with words that no operand starts with. -/
structure Rule.Fits (rule : Rule) (words : List String) : Prop where
  spaceless : Text.Spaceless words
  front : words ≠ [] ∧ words.head? ≠ some "than"
  apart : words ≠ rule.1 → ∀ back ∈ words.tails, back ≠ [] →
    ¬ rule.1 <+: back ∧ (back <+: rule.1 → ∃ p ∈ comparisons, p.words = rule.1.drop back.length)

instance (rule : Rule) (words : List String) : Decidable (rule.Fits words) :=
  decidable_of_iff
    (Text.Spaceless words ∧ (words ≠ [] ∧ words.head? ≠ some "than") ∧
      (words ≠ rule.1 → ∀ back ∈ words.tails, back ≠ [] → ¬ rule.1 <+: back ∧
        (back <+: rule.1 → ∃ p ∈ comparisons, p.words = rule.1.drop back.length)))
    ⟨fun h => ⟨h.1, h.2.1, h.2.2⟩, fun h => ⟨h.spaceless, h.front, h.apart⟩⟩

/-- The text that a rule makes of a text. -/
def Rule.replace (rule : Rule) (text : List Char) : List Char :=
  Text.replaceAll (Text.padded rule.1) (Text.padded rule.2) text

/-- The rule does not start among words that it fits, if they stand in front of an operand. -/
theorem Rule.Fits.not_startsWith {rule : Rule} {words : List String} (h : rule.Fits words)
    (hother : words ≠ rule.1) {behind : List String}
    (hbehind : ∀ p ∈ comparisons, ¬ p.words <+: behind) {back : List String}
    (hback : back <:+ words) (hne : back ≠ []) : ¬ rule.1 <+: back ++ behind := by
  obtain ⟨hnot, hover⟩ := h.apart hother back ((List.mem_tails _ _).mpr hback) hne
  intro hstarts
  rcases List.prefix_or_prefix_of_prefix hstarts (List.prefix_append back behind) with hin | hout
  · exact hnot hin
  · obtain ⟨p, hp, hwords⟩ := hover hout
    obtain ⟨more, hmore⟩ := hout
    rw [← hmore, List.drop_left] at hwords
    rw [← hmore, List.prefix_append_right_inj] at hstarts
    exact hbehind p hp (hwords ▸ hstarts)

theorem rendered_spaceless {write : Comparison → List String} {ps : List Part}
    (hps : Alternating ps) (hwrite : ∀ p ∈ comparisons, Text.Spaceless (write p)) :
    Text.Spaceless (rendered write ps) := by
  induction hps with
  | nil => exact nofun
  | operand isOperand _ ih =>
      rw [rendered_operand, Text.spaceless_cons]
      exact ⟨isOperand.spaceless, ih⟩
  | comparison mem isOperand _ ih =>
      rw [rendered_comparison, rendered_operand, Text.spaceless_append, Text.spaceless_cons]
      exact ⟨hwrite _ mem, isOperand.spaceless, ih⟩

/-- A rule that fits every comparison replaces comparisons only, and each of them as a whole. -/
theorem Rule.replace_rendered {rule : Rule} {write : Comparison → List String} {ps : List Part}
    (hrule : ∃ p ∈ comparisons, p.words = rule.1) (hspaceless : Text.Spaceless rule.1)
    (hfits : ∀ p ∈ comparisons, rule.Fits (write p)) (hps : Alternating ps) :
    rule.replace (Text.spaced (rendered write ps)) =
      Text.spaced (rendered (fun p => rule.swap (write p)) ps) := by
  obtain ⟨own, hown, hownwords⟩ := hrule
  have hfront := fun p hp => (hfits p hp).front
  have hwrite := fun p hp => (hfits p hp).spaceless
  have plain {word : String} {ps : List Part} (isOperand : Operand word ps) (hps : Alternating ps) :
      ∀ p ∈ comparisons, ¬ p.words <+: word :: rendered write ps :=
    fun p hp => isOperand.not_startsWith hps hfront hp
  have passed {word : String} {ps : List Part} (isOperand : Operand word ps) (hps : Alternating ps) :
      rule.replace (Text.spaced (word :: rendered write ps)) =
        Text.spaced [word] ++ rule.replace (Text.spaced (rendered write ps)) := by
    have hwords := Text.spaceless_cons.mpr ⟨isOperand.spaceless, rendered_spaceless hps hwrite⟩
    exact Text.replaceAll_spaced_elsewhere hspaceless hwords
      (hownwords ▸ plain isOperand hps own hown) _
  induction hps with
  | nil => rfl
  | operand isOperand more ih =>
      rw [rendered_operand, passed isOperand more, ih, ← Text.spaced_append]
      rfl
  | @comparison p word ps mem isOperand more ih =>
      rw [rendered_comparison, rendered_operand, rendered_comparison, rendered_operand, Rule.swap]
      by_cases hhere : write p = rule.1
      · rw [if_pos hhere, hhere, Rule.replace, Text.replaceAll_spaced_here isOperand.spaceless,
          ← Rule.replace, ih, ← Text.spaced_append, List.append_assoc]
        rfl
      · rw [if_neg hhere, Rule.replace, Text.replaceAll_spaced_append hspaceless ?_ ?_, ← Rule.replace,
          passed isOperand more, ih, ← Text.spaced_append, ← Text.spaced_append]
        · rfl
        · rw [Text.spaceless_append, Text.spaceless_cons]
          exact ⟨hwrite p mem, isOperand.spaceless, rendered_spaceless more hwrite⟩
        · exact fun back hback hne =>
            (hfits p mem).not_startsWith hhere (plain isOperand more) hback hne

/-! ## All replacements -/

/-- Every rule in turn fits the words as the rules before it leave them. -/
def FitsAll : List Rule → List String → Prop
  | [], _ => True
  | rule :: rules, words => rule.Fits words ∧ FitsAll rules (rule.swap words)

instance FitsAll.decidable : (rules : List Rule) → (words : List String) →
    Decidable (FitsAll rules words)
  | [], _ => inferInstanceAs (Decidable True)
  | rule :: rules, words =>
    have := FitsAll.decidable rules (rule.swap words)
    inferInstanceAs (Decidable (rule.Fits words ∧ FitsAll rules (rule.swap words)))

/-- What rules make of the words of a comparison, one after another. -/
def swapAll (rules : List Rule) (words : List String) : List String :=
  rules.foldl (fun words rule => rule.swap words) words

/-- What rules make of a text, one after another. -/
def replaceAllRules (rules : List Rule) (text : List Char) : List Char :=
  rules.foldl (fun text rule => rule.replace text) text

/-- Rules that fit every comparison replace comparisons only, behind any first word. -/
theorem replaceAllRules_rendered {rules : List Rule} {write : Comparison → List String}
    {ps : List Part}
    (hrules : ∀ rule ∈ rules, (∃ p ∈ comparisons, p.words = rule.1) ∧ Text.Spaceless rule.1)
    (hfits : ∀ p ∈ comparisons, FitsAll rules (write p)) (hps : Alternating ps) {first : String}
    (hfirst : ' ' ∉ first.toList) :
    replaceAllRules rules (first.toList ++ Text.spaced (rendered write ps)) =
      first.toList ++ Text.spaced (rendered (fun p => swapAll rules (write p)) ps) := by
  induction rules generalizing write with
  | nil => rfl
  | cons rule rules ih =>
      obtain ⟨⟨hown, hspaceless⟩, hothers⟩ := List.forall_mem_cons.mp hrules
      have hpass : rule.replace (first.toList ++ Text.spaced (rendered write ps)) =
          first.toList ++ Text.spaced (rendered (fun p => rule.swap (write p)) ps) := by
        rw [Rule.replace, Text.replaceAll_word_append hfirst, ← Rule.replace,
          Rule.replace_rendered hown hspaceless (fun p hp => (hfits p hp).1) hps]
      rw [replaceAllRules, List.foldl_cons, hpass]
      exact ih hothers fun p hp => (hfits p hp).2

theorem rendered_congr {write write' : Comparison → List String} {ps : List Part}
    (h : ∀ p ∈ comparisons, write p = write' p) (hps : Alternating ps) :
    rendered write ps = rendered write' ps := by
  induction hps with
  | nil => rfl
  | operand _ _ ih => rw [rendered_operand, rendered_operand, ih]
  | comparison mem _ _ ih =>
      rw [rendered_comparison, rendered_comparison, rendered_operand, rendered_operand, h _ mem, ih]

/-- The words of a phrase that has a space at either end. -/
def phraseWords (phrase : String) : List String :=
  ((Text.splitChar ' ' phrase.toList).map String.ofList).tail.dropLast

/-- The replacements that are made in a condition, over words. -/
def rules : List Rule :=
  (leadingIs ++ operatorWords).map fun phrase => (phraseWords phrase.1, phraseWords phrase.2)

theorem padded_phraseWords : ∀ phrase ∈ leadingIs ++ operatorWords,
    Text.padded (phraseWords phrase.1) = phrase.1.toList ∧
      Text.padded (phraseWords phrase.2) = phrase.2.toList := by
  decide +kernel

theorem withOperators_eq_replaceAllRules (text : List Char) :
    withOperators text = replaceAllRules rules text := by
  rw [withOperators, replaceAllRules, rules, List.foldl_map]
  refine List.foldl_ext _ _ _ fun text phrase hphrase => ?_
  obtain ⟨hold, hnew⟩ := padded_phraseWords phrase hphrase
  rw [Rule.replace, hold, hnew]

theorem rules_are_comparisons : ∀ rule ∈ rules,
    (∃ p ∈ comparisons, p.words = rule.1) ∧ Text.Spaceless rule.1 := by
  decide +kernel

/-- The rules fit every comparison and leave its operator. -/
theorem rules_fit : ∀ p ∈ comparisons,
    FitsAll rules p.words ∧ swapAll rules p.words = [p.operator] := by
  decide +kernel

theorem withOperators_rendered {first : String} {ps : List Part} (hfirst : ' ' ∉ first.toList)
    (hps : Alternating ps) :
    withOperators (first.toList ++ Text.spaced (rendered Comparison.words ps)) =
      first.toList ++ Text.spaced (ps.map Part.translation) := by
  have hoperators : rendered (fun p => swapAll rules p.words) ps = ps.map Part.translation := by
    rw [rendered_congr (fun p hp => (rules_fit p hp).2) hps, rendered_translation]
  rw [withOperators_eq_replaceAllRules,
    replaceAllRules_rendered rules_are_comparisons (fun p hp => (rules_fit p hp).1) hps hfirst,
    hoperators]

/-- Words are split at the longest comparisons, and where operands stand on both sides of each
comparison, all comparisons become operators and no other word changes. -/
theorem comparisons_become_operators (words : List String) (spaceless : Text.Spaceless words)
    (separated : Separated (parts words)) :
    Splits words (parts words) ∧
      toExpression (" ".intercalate words) =
        " ".intercalate ((parts words).map Part.translation) := by
  have hsplits := splits_parts words
  refine ⟨hsplits, ?_⟩
  obtain ⟨first, last, apart⟩ := separated
  have hps := hsplits.alternating spaceless last apart
  have hwords := hsplits.rendered_words
  generalize parts words = ps at hwords first hps
  subst hwords
  cases hps with
  | nil => rfl
  | @operand word ps isOperand more =>
      rw [toExpression, rendered_operand, Text.toList_intercalate_space,
        withOperators_rendered isOperand.spaceless more, ← Text.toList_intercalate_space,
        String.ofList_toList, List.map_cons]
      rfl
  | comparison _ _ _ => exact absurd (first _ rfl) Bool.false_ne_true

theorem comparisons_become_operators_amid_fragments :
    toExpression "owed greater is greater than than equals x" = "owed greater > than == x" := by
  have h := comparisons_become_operators
    ["owed", "greater", "is", "greater", "than", "than", "equals", "x"] (by decide +kernel)
    ⟨by decide +kernel, by decide +kernel, by decide +kernel⟩
  exact h.2

end Parlance.Condition
