import Parlance.Proofs.Statement.Openings
import Parlance.Proofs.Text.Quoting

/-!
# Separating words in literals

A sentence of two parts is cut where its separating words stand first, in a literal too. So a
literal comes back whole exactly if the words are not in the text that it stands for.
-/

namespace Parlance

namespace Form

/-- A kind of sentence with a part on both sides of separating words. -/
structure TwoPart where
  opening : String
  separator : String
  action : String → String → Action

/-- The sentences on lists, on files and on the case of letters. -/
def twoParts : List TwoPart :=
  [⟨"add ", " to ", .append⟩,
    ⟨"remove ", " from ", .remove⟩,
    ⟨"write ", " to ", .writeTo⟩,
    ⟨"read ", " into ", .readInto⟩,
    ⟨"uppercase ", " into ", fun value name => .changeCase value name .upper⟩,
    ⟨"lowercase ", " into ", fun value name => .changeCase value name .lower⟩]

/-- The line with two parts. -/
def TwoPart.line (kind : TwoPart) (first second : String) : List Char :=
  kind.opening.toList ++ (first.toList ++ (kind.separator.toList ++ second.toList))

/-- A line that has the parts says the action with them. -/
theorem ofLine_of_parts {kind : TwoPart} (hkind : kind ∈ twoParts) {text : List Char}
    {first second : String} (h : parts? kind.opening kind.separator text = some (first, second)) :
    ofLine text = .simple (kind.action first second) := by
  have hopening : kind.opening.toList <+: text := by
    obtain ⟨w, hw, hopens⟩ := opens_parts (List.mem_singleton_self kind.opening) _ _ h
    rw [List.mem_singleton.mp hw] at hopens
    exact prefix_of_opensWith hopens
  have other {front : String} (hapart : Apart front kind.opening) (separator : String) :
      parts? front separator text = none :=
    eq_none_of_apart (opens_parts (List.mem_singleton_self front) separator) hopening
      (by simpa using hapart)
  simp only [twoParts, List.mem_cons, List.not_mem_nil, or_false] at hkind
  rcases hkind with rfl | rfl | rfl | rfl | rfl | rfl
  · have hmake := @other "make " (by decide +kernel) " with "
    exact ofLine_of_list (by simp [list?, hmake, h])
  · have hmake := @other "make " (by decide +kernel) " with "
    have hadd := @other "add " (by decide +kernel) " to "
    exact ofLine_of_list (by simp [list?, hmake, hadd, h])
  · exact ofLine_of_transfer (by simp [transfer?, h])
  · have hwrite := @other "write " (by decide +kernel) " to "
    exact ofLine_of_transfer (by simp [transfer?, hwrite, h])
  · have hwrite := @other "write " (by decide +kernel) " to "
    have hread := @other "read " (by decide +kernel) " into "
    exact ofLine_of_transfer (by simp [transfer?, hwrite, hread, h])
  · have hwrite := @other "write " (by decide +kernel) " to "
    have hread := @other "read " (by decide +kernel) " into "
    have hupper := @other "uppercase " (by decide +kernel) " into "
    exact ofLine_of_transfer (by simp [transfer?, hwrite, hread, hupper, h])

theorem action_inj {kind : TwoPart} (hkind : kind ∈ twoParts) {first second first' second' : String}
    (h : kind.action first second = kind.action first' second') : first = first' := by
  simp only [twoParts, List.mem_cons, List.not_mem_nil, or_false] at hkind
  rcases hkind with rfl | rfl | rfl | rfl | rfl | rfl
  all_goals
    injection h

theorem isSeparator_of_mem {kind : TwoPart} (hkind : kind ∈ twoParts) :
    Text.IsSeparator kind.separator.toList := by
  simp only [twoParts, List.mem_cons, List.not_mem_nil, or_false] at hkind
  rcases hkind with rfl | rfl | rfl | rfl | rfl | rfl
  all_goals exact ⟨rfl, by simp [Text.escapedChars]⟩

/-- A line says the action with the parts around its separating words. -/
theorem ofLine_of_around {kind : TwoPart} (hkind : kind ∈ twoParts) {item name : String}
    {front back : List Char}
    (h : around? kind.separator (item.toList ++ (kind.separator.toList ++ name.toList)) =
      some (front, back)) :
    ofLine (kind.line item name) = .simple (kind.action (part front) (part back)) := by
  have hafter : after? kind.opening (kind.line item name) = some _ := Text.after?_append _ _
  have hparts : parts? kind.opening kind.separator (kind.line item name) =
      some (part front, part back) := by
    rw [parts?, hafter, Option.bind_some, h, Option.map_some]
  exact ofLine_of_parts hkind hparts

section

variable {kind : TwoPart} (hkind : kind ∈ twoParts) {text : String}
include hkind

/-- A literal without the separating words is a part of its line. -/
theorem ofLine_of_free {name : String} (hname : Text.trim name.toList = name.toList)
    (hfree : around? kind.separator text.toList = none) :
    ofLine (kind.line (Text.quoted text) name) = .simple (kind.action (Text.quoted text) name) := by
  have hcut := Text.splitFirst?_quoteChars_of_none (isSeparator_of_mem hkind) hfree name.toList
  rw [← Text.toList_quoted] at hcut
  have hwhole : part (Text.quoted text).toList = Text.quoted text := by
    rw [Text.toList_quoted, part_of_trim (Text.trim_quoteChars text.toList)]
    rfl
  rw [ofLine_of_around hkind hcut, hwhole, part_toList hname]

/-- A literal with the separating words is cut at them. -/
theorem ofLine_of_cut (name : String) {front back : List Char}
    (hcut : around? kind.separator text.toList = some (front, back)) :
    ofLine (kind.line (Text.quoted text) name) =
      .simple (kind.action
        (part (Text.chooseQuote text.toList ::
          front.flatMap (Text.escapeChar (Text.chooseQuote text.toList))))
        (part (back.flatMap (Text.escapeChar (Text.chooseQuote text.toList)) ++
          Text.chooseQuote text.toList :: (kind.separator.toList ++ name.toList)))) := by
  have hquoted := Text.splitFirst?_quoteChars_of_some (isSeparator_of_mem hkind) hcut
    (kind.separator.toList ++ name.toList)
  rw [← Text.toList_quoted] at hquoted
  exact ofLine_of_around hkind hquoted

end

/-- What stands in front of the cut is no whole literal. -/
theorem part_ne_quoted {separator text : String} {front back : List Char}
    (hcut : around? separator text.toList = some (front, back)) :
    part (Text.chooseQuote text.toList ::
      front.flatMap (Text.escapeChar (Text.chooseQuote text.toList))) ≠ Text.quoted text := by
  intro h
  have hchars := congrArg String.toList h
  rw [part, String.toList_ofList, Text.toList_quoted] at hchars
  -- The literal has its closing quote behind everything that is in front of the cut.
  have hshorter := (Text.trim_sublist (Text.chooseQuote text.toList ::
    front.flatMap (Text.escapeChar (Text.chooseQuote text.toList)))).length_le
  have hlonger (quote : Char) : (front.flatMap (Text.escapeChar quote)).length ≤
      (text.toList.flatMap (Text.escapeChar quote)).length := by
    rw [← Text.append_of_splitFirst? hcut, List.flatMap_append, List.length_append]
    exact Nat.le_add_right _ _
  have hlength := hlonger (Text.chooseQuote text.toList)
  rw [hchars, Text.quoteChars] at hshorter
  simp only [List.length_append, List.length_cons, List.length_nil] at hshorter
  omega

/-- A literal is a part of its line exactly if the separating words are not in its text. Otherwise
the line is cut inside the literal, where they stand first. -/
theorem literals_are_cut_at_separators (text : String) {name : String}
    (hname : Text.trim name.toList = name.toList) :
    ∀ kind ∈ twoParts,
      (ofLine (kind.line (Text.quoted text) name) =
          .simple (kind.action (Text.quoted text) name) ↔
        ¬ kind.separator.toList <:+: text.toList) ∧
      ∀ front back, around? kind.separator text.toList = some (front, back) →
        let quote := Text.chooseQuote text.toList
        ofLine (kind.line (Text.quoted text) name) =
          .simple (kind.action
            (part (quote :: front.flatMap (Text.escapeChar quote)))
            (part (back.flatMap (Text.escapeChar quote) ++
              quote :: (kind.separator.toList ++ name.toList)))) := by
  intro kind hkind
  refine ⟨?_, fun front back hcut => ofLine_of_cut hkind name hcut⟩
  rw [← Text.splitFirst?_eq_none_iff (isSeparator_of_mem hkind).ne_nil]
  constructor
  · intro h
    cases hcut : around? kind.separator text.toList with
    | none => exact hcut
    | some parts =>
        rw [ofLine_of_cut hkind name hcut] at h
        injection h with h
        exact absurd (action_inj hkind h) (part_ne_quoted hcut)
  · intro hfree
    exact ofLine_of_free hkind hname hfree

theorem literals_are_cut_at_separators_letters :
    ofLine "write 'to: a \"b\" into\\nc' to path".toList =
      .simple (.writeTo "'to: a \"b\" into\\nc'" "path") ∧
    ofLine "uppercase 'me into you' into us".toList =
      .simple (.changeCase "'me" "you' into us" .upper) := by
  have hpath := @literals_are_cut_at_separators "to: a \"b\" into\nc" "path" (by decide)
    ⟨"write ", " to ", .writeTo⟩ (by simp [twoParts])
  have hus := @literals_are_cut_at_separators "me into you" "us" (by decide)
    ⟨"uppercase ", " into ", fun value name => .changeCase value name .upper⟩ (by simp [twoParts])
  exact ⟨hpath.1.mpr (by decide +kernel), hus.2 "me".toList "you".toList rfl⟩

/-- A literal that says where to go is taken apart there. -/
theorem literal_is_taken_apart_at_to :
    Text.quoted "go to town" = "'go to town'" ∧
    ofLine "add 'go to town' to plans".toList = .simple (.append "'go" "town' to plans") ∧
    ofLine "add 'go to town' to plans".toList ≠
      .simple (.append (Text.quoted "go to town") "plans") := by
  have hline : ofLine "add 'go to town' to plans".toList =
      .simple (.append "'go" "town' to plans") := rfl
  refine ⟨rfl, hline, ?_⟩
  rw [hline]
  intro h
  injection h with h
  injection h with hitem
  exact absurd hitem (by decide)

end Form

end Parlance
