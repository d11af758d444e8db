import Parlance.Proofs.Statement.Openings

/-!
# What objects lose and gain

Both sentences name an object, an amount and a property. A loss takes its last word for the property
and everything in front of it for the amount. A gain takes its first word for the amount, so the two
agree on amounts of a single word only; and a gain that speaks of `loses` is a loss.
-/

namespace Parlance

namespace Form

/-- A single word, with no blanks at its ends and no space inside. -/
structure IsSingle (word : List Char) : Prop where
  ne_nil : word ≠ []
  trimmed : Text.trim word = word
  no_space : ' ' ∉ word

/-- What happens to an object. The verb stands between spaces. -/
def happening (object verb amount property : String) : List Char :=
  "the ".toList ++
    (object.toList ++ (verb.toList ++ (amount.toList ++ ' ' :: property.toList)))

/-! ## Amounts and properties -/

/-- A loss takes its last word for the property. -/
theorem loss_eq (object : List Char) {amount property : String} (hne : amount.toList ≠ [])
    (hamount : Text.trim amount.toList = amount.toList) (hproperty : IsSingle property.toList) :
    loss object (amount.toList ++ ' ' :: property.toList) =
      .changeProperty (part object) amount property .decrease := by
  have hrest := Text.trim_around_space hne hproperty.ne_nil hamount hproperty.trimmed
  have hcut := Text.splitLastChar?_append amount.toList hproperty.no_space
  rw [loss, hrest, hcut]
  simp only [part_toList hamount, part_toList hproperty.trimmed]

theorem direction_of_loss (object rest : List Char) :
    ∃ amount property,
      loss object rest = .changeProperty (part object) amount property .decrease := by
  unfold loss
  split
  · exact ⟨_, _, rfl⟩
  · exact ⟨_, _, rfl⟩

/-- Three words of a gain name where it comes from. -/
theorem gain_of_three (object : List Char) {rest : List Char} (htrimmed : Text.trim rest = rest)
    (hwords : (Text.splitChar ' ' rest).length = 3) :
    ∃ source sourceProperty property,
      gain object rest = .transferProperty (part object) source sourceProperty property := by
  obtain ⟨source, sourceProperty, property, hparts⟩ := List.length_eq_three.mp hwords
  unfold gain
  rw [htrimmed]
  dsimp only
  rw [hparts]
  exact ⟨_, _, _, rfl⟩

/-- A gain takes its first word for the amount. -/
theorem gain_of_cut (object : List Char) {rest amount property : List Char}
    (htrimmed : Text.trim rest = rest) (hwords : (Text.splitChar ' ' rest).length ≠ 3)
    (hcut : around? " " rest = some (amount, property)) :
    gain object rest = .changeProperty (part object) (part amount) (part property) .increase := by
  unfold gain
  rw [htrimmed]
  dsimp only
  split
  · next hparts =>
    rw [hparts] at hwords
    exact absurd rfl hwords
  · rw [hcut]

/-! ## Losses and gains -/

/-- Nothing else in a story starts like a happening. -/
theorem story?_happening (object verb amount property : String) :
    story? (happening object verb amount property) =
      happening? (happening object verb amount property) :=
  rfl

theorem story?_loses {object : String} (hobject : IsSingle object.toList)
    (amount property : String) :
    story? (happening object " loses " amount property) =
      some (loss object.toList (amount.toList ++ ' ' :: property.toList)) := by
  have hafter : after? "the " (happening object " loses " amount property) = some _ :=
    Text.after?_append _ _
  have hcut : around? " loses " (object.toList ++ (" loses ".toList ++
      (amount.toList ++ ' ' :: property.toList))) =
      some (object.toList, amount.toList ++ ' ' :: property.toList) :=
    Text.splitFirst?_of_not_mem hobject.no_space
  rw [story?_happening, happening?, hafter, Option.bind_eq_bind, Option.bind_some, hcut]
  rfl

/-- A gain is a loss where it says `loses` between spaces. -/
theorem story?_gains {object : String} (hobject : IsSingle object.toList)
    (amount property : String) :
    story? (happening object " gains " amount property) =
      match around? " loses " (object.toList ++ (" gains ".toList ++
        (amount.toList ++ ' ' :: property.toList))) with
      | some (name, rest) => some (loss name rest)
      | none => some (gain object.toList (amount.toList ++ ' ' :: property.toList)) := by
  have hafter : after? "the " (happening object " gains " amount property) = some _ :=
    Text.after?_append _ _
  have hcut : around? " gains " (object.toList ++ (" gains ".toList ++
      (amount.toList ++ ' ' :: property.toList))) =
      some (object.toList, amount.toList ++ ' ' :: property.toList) :=
    Text.splitFirst?_of_not_mem hobject.no_space
  rw [story?_happening, happening?, hafter, Option.bind_eq_bind, Option.bind_some, hcut]
  rfl

theorem splitChar_behind (amount : List Char) {property : List Char}
    (hproperty : IsSingle property) :
    Text.splitChar ' ' (amount ++ ' ' :: property) = Text.splitChar ' ' amount ++ [property] := by
  rw [Text.splitChar_append, Text.splitChar_of_not_mem hproperty.no_space]

section

variable {object amount property : String} (hobject : IsSingle object.toList)
  (hproperty : IsSingle property.toList)
include hobject hproperty

/-- A gain says `loses` between spaces only if that is one of the words of its amount. -/
theorem around?_loses_of_gains (hloses : "loses".toList ∉ Text.splitChar ' ' amount.toList) :
    around? " loses " (object.toList ++ (" gains ".toList ++
      (amount.toList ++ ' ' :: property.toList))) = none := by
  have hwords : Text.splitChar ' ' (object.toList ++ (" gains ".toList ++
      (amount.toList ++ ' ' :: property.toList))) =
      object.toList ::
        ("gains".toList :: Text.splitChar ' ' amount.toList ++ [property.toList]) := by
    have hgains : " gains ".toList ++ (amount.toList ++ ' ' :: property.toList) =
        ' ' :: ("gains".toList ++ ' ' :: (amount.toList ++ ' ' :: property.toList)) := rfl
    have hverb : ' ' ∉ "gains".toList := by decide
    rw [hgains, Text.splitChar_append, Text.splitChar_append, splitChar_behind _ hproperty,
      Text.splitChar_of_not_mem hobject.no_space, Text.splitChar_of_not_mem hverb]
    rfl
  refine (Text.splitFirst?_eq_none_iff (by decide)).mpr fun hinfix => hloses ?_
  obtain ⟨first, middle, last, hsplit, hmem⟩ :=
    @Text.splitChar_of_infix ' ' "loses".toList _ (by decide) hinfix
  rw [hwords] at hsplit
  injection hsplit with _ hmore
  have hmiddle := List.append_inj_left' hmore rfl
  rw [← hmiddle, List.mem_cons] at hmem
  exact hmem.resolve_left (by decide)

variable (hne : amount.toList ≠ []) (hamount : Text.trim amount.toList = amount.toList)
include hne hamount

theorem ofLine_loses :
    ofLine (happening object " loses " amount property) =
      .simple (.changeProperty object amount property .decrease) := by
  have hloss := loss_eq object.toList hne hamount hproperty
  rw [part_toList hobject.trimmed] at hloss
  rw [ofLine_of_story (story?_loses hobject amount property), hloss]

theorem gain_of_single (hsingle : ' ' ∉ amount.toList) :
    gain object.toList (amount.toList ++ ' ' :: property.toList) =
      .changeProperty object amount property .increase := by
  have htrimmed := Text.trim_around_space hne hproperty.ne_nil hamount hproperty.trimmed
  have hwords : (Text.splitChar ' ' (amount.toList ++ ' ' :: property.toList)).length ≠ 3 := by
    rw [splitChar_behind _ hproperty, Text.splitChar_of_not_mem hsingle]
    simp
  have hcut : around? " " (amount.toList ++ ' ' :: property.toList) =
      some (amount.toList, property.toList) :=
    Text.splitFirst?_of_not_mem hsingle
  rw [gain_of_cut object.toList htrimmed hwords hcut, part_toList hobject.trimmed,
    part_toList hamount, part_toList hproperty.trimmed]

theorem gain_of_space {first rest : List Char}
    (hcut : around? " " amount.toList = some (first, rest)) (hcount : amount.toList.count ' ' ≠ 1) :
    gain object.toList (amount.toList ++ ' ' :: property.toList) =
      .changeProperty object (part first) (part (rest ++ ' ' :: property.toList)) .increase := by
  have htrimmed := Text.trim_around_space hne hproperty.ne_nil hamount hproperty.trimmed
  have hwords : (Text.splitChar ' ' (amount.toList ++ ' ' :: property.toList)).length ≠ 3 := by
    rw [splitChar_behind _ hproperty, List.length_append, Text.length_splitChar,
      List.length_singleton]
    omega
  have hcut := Text.splitFirst?_append_of_some hcut (' ' :: property.toList)
  rw [gain_of_cut object.toList htrimmed hwords hcut, part_toList hobject.trimmed]

/-- The amount of a gain is a single word. -/
theorem not_mem_of_gain
    (h : gain object.toList (amount.toList ++ ' ' :: property.toList) =
      .changeProperty object amount property .increase) : ' ' ∉ amount.toList := by
  intro hspace
  by_cases hcount : amount.toList.count ' ' = 1
  · have htrimmed := Text.trim_around_space hne hproperty.ne_nil hamount hproperty.trimmed
    have hwords : (Text.splitChar ' ' (amount.toList ++ ' ' :: property.toList)).length = 3 := by
      rw [splitChar_behind _ hproperty, List.length_append, Text.length_splitChar, hcount]
      rfl
    obtain ⟨_, _, _, htransfer⟩ := gain_of_three object.toList htrimmed hwords
    rw [htransfer] at h
    cases h
  · cases hcut : around? " " amount.toList with
    | none =>
        have hnone := (Text.splitFirst?_eq_none_iff (by decide)).mp hcut
        exact hnone ((List.singleton_infix_iff ' ' amount.toList).mpr hspace)
    | some parts =>
        obtain ⟨first, rest⟩ := parts
        rw [gain_of_space hobject hproperty hne hamount hcut hcount] at h
        injection h with _ hfirst
        -- The first word is shorter than the amount.
        have hshorter : first.length < amount.toList.length := by
          rw [← Text.append_of_splitFirst? hcut]
          simp
        have hlonger : amount.toList.length ≤ first.length := by
          rw [← hfirst, part, String.toList_ofList]
          exact (Text.trim_sublist first).length_le
        omega

theorem ofLine_gains_iff :
    ofLine (happening object " gains " amount property) =
        .simple (.changeProperty object amount property .increase) ↔
      ' ' ∉ amount.toList ∧ amount ≠ "loses" := by
  have hgains := story?_gains hobject amount property
  constructor
  · intro h
    cases hloses : around? " loses " (object.toList ++ (" gains ".toList ++
        (amount.toList ++ ' ' :: property.toList))) with
    | some parts =>
        rw [hloses] at hgains
        obtain ⟨_, _, hloss⟩ := direction_of_loss parts.1 parts.2
        rw [ofLine_of_story hgains, hloss] at h
        cases h
    | none =>
        rw [hloses] at hgains
        rw [ofLine_of_story hgains] at h
        injection h with h
        refine ⟨not_mem_of_gain hobject hproperty hne hamount h, ?_⟩
        rintro rfl
        refine (Text.splitFirst?_eq_none_iff (by decide)).mp hloses ?_
        exact ⟨object.toList ++ " gains".toList, property.toList, by simp⟩
  · rintro ⟨hsingle, hother⟩
    have hnone : "loses".toList ∉ Text.splitChar ' ' amount.toList := by
      rw [Text.splitChar_of_not_mem hsingle, List.mem_singleton, String.toList_inj]
      exact Ne.symm hother
    rw [around?_loses_of_gains hobject hproperty hnone] at hgains
    rw [ofLine_of_story hgains, gain_of_single hobject hproperty hne hamount hsingle]

/-- A loss of an amount is read as such. A gain is exactly if the amount is a single word other than
`loses`: otherwise its first word alone is the amount, or it is no gain at all. -/
theorem losses_and_gains_agree_on_single_words :
    ofLine (happening object " loses " amount property) =
      .simple (.changeProperty object amount property .decrease) ∧
    (ofLine (happening object " gains " amount property) =
        .simple (.changeProperty object amount property .increase) ↔
      ' ' ∉ amount.toList ∧ amount ≠ "loses") ∧
    ∀ first rest, around? " " amount.toList = some (first, rest) → amount.toList.count ' ' ≠ 1 →
      "loses".toList ∉ Text.splitChar ' ' amount.toList →
      ofLine (happening object " gains " amount property) =
        .simple (.changeProperty object (part first) (part (rest ++ ' ' :: property.toList))
          .increase) := by
  refine ⟨ofLine_loses hobject hproperty hne hamount,
    ofLine_gains_iff hobject hproperty hne hamount, fun first rest hcut hcount hloses => ?_⟩
  have hgains := story?_gains hobject amount property
  rw [around?_loses_of_gains hobject hproperty hloses] at hgains
  rw [ofLine_of_story hgains, gain_of_space hobject hproperty hne hamount hcut hcount]

end

theorem losses_and_gains_agree_on_single_words_gold :
    ofLine "the hero loses x * 2 gold".toList =
      .simple (.changeProperty "hero" "x * 2" "gold" .decrease) ∧
    ofLine "the hero gains 12 gold".toList =
      .simple (.changeProperty "hero" "12" "gold" .increase) ∧
    ofLine "the hero gains x * 2 gold".toList =
      .simple (.changeProperty "hero" "x" "* 2 gold" .increase) := by
  have hhero : IsSingle "hero".toList := ⟨by decide, rfl, by decide⟩
  have hgold : IsSingle "gold".toList := ⟨by decide, rfl, by decide⟩
  have hproduct := @losses_and_gains_agree_on_single_words "hero" "x * 2" "gold" hhero hgold
    (by decide) rfl
  have hnumber := @losses_and_gains_agree_on_single_words "hero" "12" "gold" hhero hgold
    (by decide) rfl
  refine ⟨hproduct.1, hnumber.2.1.mpr (by decide), ?_⟩
  exact hproduct.2.2 "x".toList "* 2".toList rfl (by decide) (by decide)

/-- A sum that is lost is the amount; of a sum that is gained, only the first word is. -/
theorem gained_sum_is_taken_apart :
    ofLine "the hero loses x + 1 gold".toList =
      .simple (.changeProperty "hero" "x + 1" "gold" .decrease) ∧
    ofLine "the hero gains x + 1 gold".toList =
      .simple (.changeProperty "hero" "x" "+ 1 gold" .increase) ∧
    ofLine "the hero gains x + 1 gold".toList ≠
      .simple (.changeProperty "hero" "x + 1" "gold" .increase) := by
  have hgain : ofLine "the hero gains x + 1 gold".toList =
      .simple (.changeProperty "hero" "x" "+ 1 gold" .increase) := rfl
  refine ⟨rfl, hgain, ?_⟩
  rw [hgain]
  intro h
  injection h with h
  injection h with _ hamount
  exact absurd hamount (by decide)

end Form

end Parlance
