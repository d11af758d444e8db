import Parlance.Expr.Lexeme
import Parlance.Proofs.Statement.Joining
import Parlance.Proofs.Text.Pieces

/-!
# Arguments and properties between commas

A call and the introduction of an object list their parts between commas. The commas are those of
the text, wherever they stand: brackets and quotes do not hold a part together. So the parts come
back as they were written exactly if there is no comma in any of them.
-/

namespace Parlance

namespace Form

/-! ## Names in front of the parts -/

/-- A name that is not taken apart at a `with` of its own, as no single word is. -/
structure IsName (name : List Char) : Prop where
  ne_nil : name ≠ []
  trimmed : Text.trim name = name
  whole : ¬ " with ".toList <:+: name ++ [' ']

theorem isName_of_visible {word : List Char} (hne : word ≠ [])
    (hvisible : ∀ c ∈ word, Text.isBlank c = false) : IsName word := by
  refine ⟨hne, Text.trim_of_visible hvisible, fun hwith => ?_⟩
  have hspaces : " with ".toList.count ' ' ≤ (word ++ [' ']).count ' ' := hwith.sublist.count_le ' '
  have hword : word.count ' ' = 0 := by
    rw [List.count_eq_zero]
    intro hspace
    exact Bool.false_ne_true (hvisible ' ' hspace).symm
  rw [List.count_append, hword] at hspaces
  exact absurd hspaces (by decide)

theorem around?_with {name : List Char} (h : IsName name) (rest : List Char) :
    around? " with " (name ++ (" with ".toList ++ rest)) = some (name, rest) := by
  apply Text.splitFirst?_append (by decide)
  rintro front back rfl hback hstarts
  have hlonger : " with ".toList.length ≤ (back ++ [' ']).length := by
    -- The separator overlaps itself in a single space only.
    rcases back with _ | ⟨c₁, _ | ⟨c₂, _ | ⟨c₃, _ | ⟨c₄, _ | ⟨c₅, more⟩⟩⟩⟩⟩
    · exact absurd rfl hback
    · simp at hstarts
    · simp at hstarts
    · simp at hstarts
    · simp at hstarts
    · simp
  have hwithin : " with ".toList <+: back ++ [' '] := by
    have hspace : back ++ [' '] <+: back ++ (" with ".toList ++ rest) :=
      (List.prefix_append_right_inj back).mpr ⟨"with ".toList ++ rest, rfl⟩
    exact List.prefix_of_prefix_length_le hstarts hspace hlonger
  apply h.whole
  rw [List.append_assoc]
  exact hwithin.isInfix.trans (List.suffix_append front (back ++ [' '])).isInfix

theorem part_of_trim {text : List Char} (h : Text.trim text = text) :
    part text = String.ofList text := by
  rw [part, h]

theorem part_toList {text : String} (h : Text.trim text.toList = text.toList) :
    part text.toList = text := by
  rw [part_of_trim h, String.ofList_toList]

/-- The name and the parts behind it, in what is left of a line. -/
theorem around?_trim {name : List Char} (h : IsName name) {rest : List Char}
    (hvisible : Text.lastVisible? rest ≠ none) :
    around? " with " (Text.trim (name ++ (" with ".toList ++ rest))) =
      some (name, Text.trimEnd rest) := by
  have hbehind : Text.lastVisible? (" with ".toList ++ rest) ≠ none := by
    rw [Text.lastVisible?_append]
    simp [hvisible]
  rw [Text.trim_behind h.ne_nil h.trimmed hbehind, Text.trimEnd_append _ hvisible]
  exact around?_with h (Text.trimEnd rest)

/-! ## How lines open -/

/-- Two openings of which neither starts with the other. -/
def Apart (words opening : String) : Prop :=
  ¬ words.toList <+: opening.toList ∧ ¬ opening.toList <+: words.toList

instance (words opening : String) : Decidable (Apart words opening) :=
  inferInstanceAs (Decidable (_ ∧ _))

section

variable {opening : String} {text : List Char} (hopening : opening.toList <+: text)

include hopening

theorem opensWith_eq_false {words : String} (h : Apart words opening) :
    opensWith words text = false := by
  by_contra hopens
  rw [Bool.not_eq_false, opensWith, Text.startsWith, List.isPrefixOf_iff_prefix] at hopens
  rcases List.prefix_or_prefix_of_prefix hopens hopening with hwords | hlonger
  · exact h.1 hwords
  · exact h.2 hlonger

theorem contains_eq_false {words : List String} (h : ∀ w ∈ words, ¬ opening.toList <+: w.toList) :
    words.contains (String.ofList text) = false := by
  by_contra hcontains
  rw [Bool.not_eq_false, List.contains_iff_mem] at hcontains
  apply h _ hcontains
  rwa [String.toList_ofList]

/-- A line that opens like no remark and no word on loops is a sentence. -/
theorem ofLine_eq_ofSentence (hleave : ∀ w ∈ leaveWords, ¬ opening.toList <+: w.toList)
    (hnext : ∀ w ∈ nextWords, ¬ opening.toList <+: w.toList) (hhey : Apart "hey whisper," opening)
    (hwhisper : Apart "whisper," opening) : ofLine text = ofSentence text := by
  have hhey := opensWith_eq_false hopening hhey
  have hwhisper := opensWith_eq_false hopening hwhisper
  simp only [ofLine, addressed?, contains_eq_false hopening hleave, contains_eq_false hopening hnext,
    hhey, hwhisper, Bool.or_self, Bool.false_eq_true, if_false]

end

theorem ofLine_of_call {text : List Char} {action : Action} (h : call? text = some action) :
    ofLine text = .simple action := by
  have hopening : "call ".toList <+: text := by
    obtain ⟨rest, hrest, -⟩ := Option.bind_eq_some_iff.mp h
    exact ⟨rest, Text.append_of_after? hrest⟩
  have closed {words : String} (happart : Apart words "call ") : opensWith words text = false :=
    opensWith_eq_false hopening happart
  have none_after {words : String} (happart : Apart words "call ") : after? words text = none :=
    after?_eq_none (closed happart)
  have hstory : story? text = none := by
    simp [story?, remember?, forget?, introduce?, happening?, @none_after "remember that " (by decide),
      @none_after "forget about " (by decide), @none_after "there is a " (by decide),
      @none_after "there is an " (by decide), @none_after "the " (by decide)]
  have hquestion : question? text = none := by
    simp [question?, @closed "is " (by decide), @closed "are " (by decide)]
  have hdefine : define? text = none := by
    simp [define?, @none_after "define " (by decide)]
  rw [ofLine_eq_ofSentence hopening (by decide) (by decide) (by decide) (by decide)]
  simp [ofSentence, hstory, hquestion, hdefine, h]

theorem ofLine_of_introduce {text : List Char} {action : Action}
    (h : introduce? text = some action) : ofLine text = .simple action := by
  have hopening : "there is a".toList <+: text := by
    obtain ⟨rest, hrest, -⟩ := Option.map_eq_some_iff.mp h
    rcases Option.or_eq_some_iff.mp hrest with hrest | ⟨-, hrest⟩
    · have hshorter : "there is a".toList <+: "there is a ".toList := by decide
      exact hshorter.trans ⟨rest, Text.append_of_after? hrest⟩
    · have hshorter : "there is a".toList <+: "there is an ".toList := by decide
      exact hshorter.trans ⟨rest, Text.append_of_after? hrest⟩
  have none_after {words : String} (happart : Apart words "there is a") : after? words text = none :=
    after?_eq_none (opensWith_eq_false hopening happart)
  have hstory : story? text = some action := by
    simp [story?, remember?, forget?, @none_after "remember that " (by decide),
      @none_after "forget about " (by decide), h]
  rw [ofLine_eq_ofSentence hopening (by decide) (by decide) (by decide) (by decide)]
  simp [ofSentence, hstory]

/-! ## Arguments -/

/-- The arguments in a text. -/
def arguments (text : String) : List String :=
  (Text.pieces text.toList).map String.ofList

theorem map_part (text : List Char) :
    (Text.splitChar ',' text).map part = (Text.pieces text).map String.ofList := by
  rw [Text.pieces, List.map_map]
  rfl

theorem call?_with {name rest : List Char} (hname : IsName name)
    (hvisible : Text.lastVisible? rest ≠ none) :
    call? ("call ".toList ++ (name ++ (" with ".toList ++ rest))) =
      some (.call (String.ofList name) ((Text.pieces rest).map String.ofList)) := by
  have hafter := Text.after?_append "call ".toList (name ++ (" with ".toList ++ rest))
  rw [call?, after?, hafter]
  simp only [Option.bind_eq_bind, Option.bind_some, around?_trim hname hvisible, map_part,
    Text.pieces_trimEnd, part_of_trim hname.trimmed, Option.pure_def]

/-- No argument of a call holds a comma, and a single one is not empty. -/
theorem args_of_call? {text : List Char} {name : String} {args : List String}
    (h : call? text = some (.call name args)) : args ≠ [""] ∧ ∀ a ∈ args, ',' ∉ a.toList := by
  obtain ⟨rest, -, hrest⟩ := Option.bind_eq_some_iff.mp h
  dsimp only at hrest
  cases hparts : around? " with " (Text.trim rest) with
  | none =>
      rw [hparts] at hrest
      cases hrest
      simp
  | some parts =>
      obtain ⟨front, behind⟩ := parts
      rw [hparts] at hrest
      cases hrest
      rw [map_part]
      refine ⟨fun hsingle => ?_, fun a ha => ?_⟩
      · have hempty : Text.pieces behind = [[]] := by
          obtain ⟨piece, hpiece, hnil⟩ := List.map_eq_singleton_iff.mp hsingle
          rw [hpiece, String.ofList_eq_empty_iff.mp hnil]
        exact @Text.visible_behind " with".toList rest front behind ' ' rfl hparts
          (Text.lastVisible?_of_pieces hempty)
      · obtain ⟨piece, hpiece, rfl⟩ := List.mem_map.mp ha
        rw [String.toList_ofList]
        exact Text.no_comma_in_pieces hpiece

/-! ## Properties -/

/-- The property that an entry gives, if it has a value. -/
def property? (entry : List Char) : Option (String × String) :=
  (around? " " entry).map fun (name, value) => (part name, part value)

theorem properties_eq (text : List Char) :
    properties text = (Text.pieces text).filterMap property? := by
  rw [Text.pieces, List.filterMap_map]
  rfl

theorem introduce?_with {name rest : List Char} (hname : IsName name)
    (hvisible : Text.lastVisible? rest ≠ none) :
    introduce? ("there is a ".toList ++ (name ++ (" with ".toList ++ rest))) =
      some (.createObject (String.ofList name) (properties rest)) := by
  have hafter := Text.after?_append "there is a ".toList (name ++ (" with ".toList ++ rest))
  rw [introduce?, after?, hafter, Option.some_or, Option.map_some, object]
  simp only [around?_trim hname hvisible, part_of_trim hname.trimmed, properties_eq,
    Text.pieces_trimEnd]

/-- No value of a property holds a comma or is empty. -/
theorem value_of_mem_properties {text : List Char} {entry : String × String}
    (h : entry ∈ properties text) : entry.2 ≠ "" ∧ ',' ∉ entry.2.toList := by
  obtain ⟨part, hpart, hentry⟩ := List.mem_filterMap.mp h
  obtain ⟨⟨name, value⟩, hsplit, rfl⟩ := Option.map_eq_some_iff.mp hentry
  dsimp only
  have hpiece : Text.trim part ∈ Text.pieces text := List.mem_map_of_mem hpart
  have happend : name ++ (" ".toList ++ value) = Text.trim part := Text.append_of_splitFirst? hsplit
  constructor
  · intro hempty
    have hnone : Text.trim value = [] := String.ofList_eq_empty_iff.mp hempty
    exact @Text.visible_behind [] part name value ' ' rfl hsplit (Text.trim_eq_nil_iff.mp hnone)
  · rw [Form.part, String.toList_ofList]
    intro hcomma
    apply Text.no_comma_in_pieces hpiece
    rw [← happend]
    simp [(Text.trim_sublist value).mem hcomma]

/-- A word that can name a property. -/
structure IsWord (word : List Char) : Prop where
  ne_nil : word ≠ []
  trimmed : Text.trim word = word
  no_space : ' ' ∉ word
  no_comma : ',' ∉ word

theorem properties_single {word value : List Char} (hword : IsWord word)
    (htrimmed : Text.trim value = value) (hne : value ≠ []) (hcomma : ',' ∉ value) :
    properties (word ++ ' ' :: value) = [(String.ofList word, String.ofList value)] := by
  have hplain : ',' ∉ word ++ ' ' :: value := by simp [hword.no_comma, hcomma]
  have hwhole := Text.trim_around_space hword.ne_nil hne hword.trimmed htrimmed
  have hsplit : around? " " (word ++ ' ' :: value) = some (word, value) :=
    Text.splitFirst?_of_not_mem hword.no_space
  have hentry : property? (word ++ ' ' :: value) =
      some (String.ofList word, String.ofList value) := by
    rw [property?, hsplit, Option.map_some]
    simp only [part_of_trim hword.trimmed, part_of_trim htrimmed]
  rw [properties_eq, Text.pieces_of_not_mem hplain, hwhole, List.filterMap_cons_some hentry,
    List.filterMap_nil]

/-! ## Parts that are written one after another -/

/-- The line of a call. -/
def callLine (name : String) (args : List String) : List Char :=
  "call ".toList ++ (name.toList ++ (" with ".toList ++ (", ".intercalate args).toList))

/-- The entry of a property. -/
def entryText (entry : String × String) : String :=
  entry.1 ++ " " ++ entry.2

/-- The line that introduces an object. -/
def objectLine (name : String) (entries : List (String × String)) : List Char :=
  "there is a ".toList ++
    (name.toList ++ (" with ".toList ++ (", ".intercalate (entries.map entryText)).toList))

theorem pieces_joined {texts : List String} (hne : texts ≠ []) :
    Text.pieces (", ".intercalate texts).toList =
      texts.flatMap fun text => Text.pieces text.toList := by
  have htexts : texts.map String.toList ≠ [] := by simpa using hne
  rw [String.toList_intercalate, ← List.flatMap_map]
  exact Text.pieces_intercalate htexts

theorem arguments_of_plain {a : String} (htrimmed : Text.trim a.toList = a.toList)
    (hcomma : ',' ∉ a.toList) : arguments a = [a] := by
  rw [arguments, Text.pieces_of_not_mem hcomma, htrimmed, List.map_singleton, String.ofList_toList]

theorem visible_args {args : List String} (hne : args ≠ []) (hsingle : args ≠ [""])
    (htrimmed : ∀ a ∈ args, Text.trim a.toList = a.toList) :
    Text.lastVisible? (", ".intercalate args).toList ≠ none := by
  cases args with
  | nil => exact absurd rfl hne
  | cons a args =>
      cases args with
      | nil =>
          have ha : a.toList ≠ [] := by
            intro hnil
            rw [String.toList_eq_nil_iff.mp hnil] at hsingle
            exact hsingle rfl
          rw [String.intercalate_singleton]
          exact Text.visible_of_trim (htrimmed a List.mem_cons_self) ha
      | cons b args =>
          apply @Text.lastVisible?_ne_none ',' _ _ rfl
          simp

theorem ofLine_callLine {name : String} (hname : IsName name.toList) {args : List String}
    (hne : args ≠ []) (hsingle : args ≠ [""])
    (htrimmed : ∀ a ∈ args, Text.trim a.toList = a.toList) :
    ofLine (callLine name args) = .simple (.call name (args.flatMap arguments)) := by
  have hcall := call?_with hname (visible_args hne hsingle htrimmed)
  rw [pieces_joined hne, List.map_flatMap, String.ofList_toList] at hcall
  exact ofLine_of_call hcall

/-- A line that opens like a call is one. -/
theorem call?_of_ofLine {text rest : List Char} {action : Action}
    (hafter : after? "call " text = some rest) (h : ofLine text = .simple action) : call? text = some action := by
  obtain ⟨found, hfound⟩ : ∃ found, call? text = some found := by
    rw [call?, hafter]
    dsimp only [Option.bind_eq_bind, Option.bind_some]
    split
    · exact ⟨_, rfl⟩
    · exact ⟨_, rfl⟩
  rw [ofLine_of_call hfound] at h
  cases h
  exact hfound

theorem callLine_iff {name : String} (hname : IsName name.toList) {args : List String}
    (hne : args ≠ []) (htrimmed : ∀ a ∈ args, Text.trim a.toList = a.toList) :
    ofLine (callLine name args) = .simple (.call name args) ↔
      args ≠ [""] ∧ ∀ a ∈ args, ',' ∉ a.toList := by
  constructor
  · intro h
    exact args_of_call? (call?_of_ofLine (Text.after?_append _ _) h)
  · rintro ⟨hsingle, hcomma⟩
    have hargs : args.flatMap arguments = args.flatMap fun a => [a] :=
      List.flatMap_congr fun a ha => arguments_of_plain (htrimmed a ha) (hcomma a ha)
    rw [ofLine_callLine hname hne hsingle htrimmed, hargs, List.flatMap_singleton']

theorem properties_joined {texts : List String} (hne : texts ≠ []) :
    properties (", ".intercalate texts).toList =
      texts.flatMap fun text => properties text.toList := by
  simp only [properties_eq, pieces_joined hne, List.filterMap_flatMap]

theorem visible_entries {entries : List (String × String)} (hne : entries ≠ [])
    (hwords : ∀ entry ∈ entries, IsWord entry.1.toList) :
    Text.lastVisible? (", ".intercalate (entries.map entryText)).toList ≠ none := by
  cases entries with
  | nil => exact absurd rfl hne
  | cons entry entries =>
      have hword := hwords entry List.mem_cons_self
      have hvisible := Text.visible_of_trim hword.trimmed hword.ne_nil
      cases entries with
      | nil => simp [entryText, Text.lastVisible?_append, hvisible]
      | cons next entries => simp [entryText, Text.lastVisible?_append, hvisible]

theorem ofLine_objectLine {name : String} (hname : IsName name.toList)
    {entries : List (String × String)} (hne : entries ≠ [])
    (hwords : ∀ entry ∈ entries, IsWord entry.1.toList) :
    ofLine (objectLine name entries) =
      .simple (.createObject name
        (entries.flatMap fun entry => properties (entryText entry).toList)) := by
  have htexts : entries.map entryText ≠ [] := by simpa using hne
  have hobject := introduce?_with hname (visible_entries hne hwords)
  rw [properties_joined htexts, List.flatMap_map, String.ofList_toList] at hobject
  exact ofLine_of_introduce hobject

theorem properties_of_plain {entry : String × String} (hword : IsWord entry.1.toList)
    (htrimmed : Text.trim entry.2.toList = entry.2.toList) (hne : entry.2 ≠ "")
    (hcomma : ',' ∉ entry.2.toList) : properties (entryText entry).toList = [entry] := by
  have hvalue : entry.2.toList ≠ [] := fun hnil => hne (String.toList_eq_nil_iff.mp hnil)
  have htext : (entryText entry).toList = entry.1.toList ++ ' ' :: entry.2.toList := by
    simp [entryText]
  rw [htext, properties_single hword htrimmed hvalue hcomma, String.ofList_toList,
    String.ofList_toList]

theorem objectLine_iff {name : String} (hname : IsName name.toList)
    {entries : List (String × String)} (hne : entries ≠ [])
    (hwords : ∀ entry ∈ entries, IsWord entry.1.toList)
    (htrimmed : ∀ entry ∈ entries, Text.trim entry.2.toList = entry.2.toList) :
    ofLine (objectLine name entries) = .simple (.createObject name entries) ↔
      ∀ entry ∈ entries, entry.2 ≠ "" ∧ ',' ∉ entry.2.toList := by
  rw [ofLine_objectLine hname hne hwords]
  constructor
  · intro h
    have hentries :
        (entries.flatMap fun entry => properties (entryText entry).toList) = entries := by
      injection h with h
      injection h
    intro entry hentry
    rw [← hentries] at hentry
    obtain ⟨other, -, hmem⟩ := List.mem_flatMap.mp hentry
    exact value_of_mem_properties hmem
  · intro hvalues
    have hplain : (entries.flatMap fun entry => properties (entryText entry).toList) =
        entries.flatMap fun entry => [entry] := by
      apply List.flatMap_congr
      intro entry hentry
      obtain ⟨hvalue, hcomma⟩ := hvalues entry hentry
      exact properties_of_plain (hwords entry hentry) (htrimmed entry hentry) hvalue hcomma
    rw [hplain, List.flatMap_singleton']

/-- A call has the arguments, and an object the properties, that are written between the commas of
its line. They are those that the line was put together from exactly if no comma stands inside
one. -/
theorem parts_are_split_at_every_comma {name : String} (hname : IsName name.toList) :
    (∀ args : List String, args ≠ [] → (∀ a ∈ args, Text.trim a.toList = a.toList) →
      (args ≠ [""] →
        ofLine (callLine name args) = .simple (.call name (args.flatMap arguments))) ∧
      (ofLine (callLine name args) = .simple (.call name args) ↔
        args ≠ [""] ∧ ∀ a ∈ args, ',' ∉ a.toList)) ∧
    ∀ entries : List (String × String), entries ≠ [] →
      (∀ entry ∈ entries, IsWord entry.1.toList) →
      (∀ entry ∈ entries, Text.trim entry.2.toList = entry.2.toList) →
      ofLine (objectLine name entries) =
        .simple (.createObject name
          (entries.flatMap fun entry => properties (entryText entry).toList)) ∧
      (ofLine (objectLine name entries) = .simple (.createObject name entries) ↔
        ∀ entry ∈ entries, entry.2 ≠ "" ∧ ',' ∉ entry.2.toList) := by
  constructor
  · intro args hne htrimmed
    exact ⟨fun hsingle => ofLine_callLine hname hne hsingle htrimmed, callLine_iff hname hne htrimmed⟩
  · intro entries hne hwords htrimmed
    exact ⟨ofLine_objectLine hname hne hwords, objectLine_iff hname hne hwords htrimmed⟩

theorem parts_are_split_at_every_comma_greeting :
    IsName "greet".toList ∧
    ofLine (callLine "greet" ["names[0]", "size + 1"]) =
      .simple (.call "greet" ["names[0]", "size + 1"]) ∧
    ofLine (objectLine "greet" [("title", "\"Dr. No\""), ("age", "len([x])")]) =
      .simple (.createObject "greet" [("title", "\"Dr. No\""), ("age", "len([x])")]) := by
  have hname : IsName "greet".toList := isName_of_visible (by decide) (by simp [Text.isBlank])
  obtain ⟨hcall, hobject⟩ := parts_are_split_at_every_comma hname
  have hwords : ∀ entry ∈ [("title", "\"Dr. No\""), ("age", "len([x])")],
      IsWord entry.1.toList := by
    intro entry hentry
    simp only [List.mem_cons, List.not_mem_nil, or_false] at hentry
    rcases hentry with rfl | rfl
    · exact ⟨by decide, by decide, by decide, by decide⟩
    · exact ⟨by decide, by decide, by decide, by decide⟩
  refine ⟨hname, ?_, ?_⟩
  · exact (hcall _ (by decide) (by decide)).2.mpr (by decide)
  · exact (hobject _ (by decide) hwords (by decide)).2.mpr (by decide)

/-- A list between brackets is one expression, but it is taken apart at its commas. -/
theorem bracketed_list_is_taken_apart :
    (Token.scan "[1, 2]".toList =
      .ok [.sign .openBracket, .int 1, .sign .comma, .int 2, .sign .closeBracket]) ∧
    callLine "f" ["[1, 2]", "3"] = "call f with [1, 2], 3".toList ∧
    ofLine (callLine "f" ["[1, 2]", "3"]) = .simple (.call "f" ["[1", "2]", "3"]) ∧
    ofLine (callLine "f" ["[1, 2]", "3"]) ≠ .simple (.call "f" ["[1, 2]", "3"]) ∧
    ofLine (objectLine "hero" [("items", "[1, 2]")]) ≠
      .simple (.createObject "hero" [("items", "[1, 2]")]) := by
  have hcall : ofLine (callLine "f" ["[1, 2]", "3"]) = .simple (.call "f" ["[1", "2]", "3"]) := rfl
  have hobject : ofLine (objectLine "hero" [("items", "[1, 2]")]) =
      .simple (.createObject "hero" [("items", "[1")]) := rfl
  refine ⟨rfl, rfl, hcall, ?_, ?_⟩
  · rw [hcall]
    intro h
    injection h with h
    injection h with _ hargs
    exact absurd hargs (by decide)
  · rw [hobject]
    intro h
    injection h with h
    injection h with _ hentries
    exact absurd hentries (by decide)

end Form

end Parlance
