import Parlance.Proofs.Statement.Openings

/-!
# Lines that greet the listener

A line that greets the listener says what it says without the greeting, if it opens with one of the
words for commands. Most sentences do, but some have openings that are not among these words, and
the lines on loops are no sentences. A greeting makes small talk out of all of them.
-/

namespace Parlance

namespace Form

/-- The ways to greet the listener. -/
def greetings : List String :=
  ["hey whisper, ", "whisper, "]

/-- The words that open sentences and are not among the words for commands. -/
def unheardWords : List String :=
  ["increase ", "decrease ", "give back ", "attempt:", "just say ", "just tell ", "announce "]

/-- Whether a line says something that is not heard behind a greeting. -/
def isUnheard (text : List Char) : Bool :=
  leaveWords.contains (String.ofList text) || nextWords.contains (String.ofList text) ||
    unheardWords.any fun words => opensWith words text

/-- Behind a greeting, a command is read as a sentence and everything else is small talk. -/
theorem ofLine_greeted {greeting : String} (hgreeting : greeting ∈ greetings) {text : List Char}
    (htrimmed : Text.trim text = text) :
    ofLine (greeting.toList ++ text) =
      if commandWords.any fun words => opensWith words text then ofSentence text else .remark := by
  have hopening : greeting.toList <+: greeting.toList ++ text := List.prefix_append _ _
  have hloops : ∀ greeting ∈ greetings, ∀ w ∈ leaveWords ++ nextWords,
      ¬ greeting.toList <+: w.toList := by
    decide +kernel
  have hleave : leaveWords.contains (String.ofList (greeting.toList ++ text)) = false :=
    contains_eq_false hopening fun w hw => hloops greeting hgreeting w (List.mem_append_left _ hw)
  have hnext : nextWords.contains (String.ofList (greeting.toList ++ text)) = false :=
    contains_eq_false hopening fun w hw => hloops greeting hgreeting w (List.mem_append_right _ hw)
  have haddressed : addressed? (greeting.toList ++ text) =
      if commandWords.any fun words => opensWith words text then some text else none := by
    have hrest : Text.trim (' ' :: text) = text := by rw [Text.trim_cons_blank rfl, htrimmed]
    obtain ⟨hopens, front, hcut⟩ :
        (opensWith "hey whisper," (greeting.toList ++ text) ||
          opensWith "whisper," (greeting.toList ++ text)) = true ∧
        ∃ front, around? "," (greeting.toList ++ text) = some (front, ' ' :: text) := by
      simp only [greetings, List.mem_cons, List.not_mem_nil, or_false] at hgreeting
      rcases hgreeting with rfl | rfl
      · exact ⟨rfl, "hey whisper".toList, rfl⟩
      · exact ⟨rfl, "whisper".toList, rfl⟩
    unfold addressed?
    rw [if_pos hopens, hcut]
    dsimp only
    rw [hrest]
  unfold ofLine
  rw [hleave, hnext, haddressed]
  cases commandWords.any fun words => opensWith words text <;> rfl

/-- A line that greets nobody is small talk to nobody. -/
theorem ofLine_ungreeted {text : List Char} (hhey : opensWith "hey whisper," text = false)
    (hwhisper : opensWith "whisper," text = false) :
    ofLine text =
      if leaveWords.contains (String.ofList text) then .simple .leave
      else if nextWords.contains (String.ofList text) then .simple .next
      else ofSentence text := by
  simp only [ofLine, addressed?, hhey, hwhisper, Bool.or_self, Bool.false_eq_true, if_false]

/-- No line on loops opens like a command. -/
theorem not_command_of_loop {text : List Char}
    (h : leaveWords.contains (String.ofList text) = true ∨
      nextWords.contains (String.ofList text) = true) :
    (commandWords.any fun words => opensWith words text) = false := by
  have hloops : ∀ line ∈ leaveWords ++ nextWords, ∀ w ∈ commandWords,
      opensWith w line.toList = false := by
    decide +kernel
  have hline : String.ofList text ∈ leaveWords ++ nextWords := by
    simpa [List.mem_append] using h
  rw [List.any_eq_false]
  intro w hw
  have hclosed := hloops _ hline w hw
  rw [String.toList_ofList] at hclosed
  simp [hclosed]

theorem any_opensWith_eq_false {words : List String} {opening : String} {text : List Char}
    (hopening : opening.toList <+: text) (hapart : ∀ w ∈ words, Apart w opening) :
    (words.any fun w => opensWith w text) = false := by
  rw [List.any_eq_false]
  intro w hw
  simp [opensWith_eq_false hopening (hapart w hw)]

/-- A line that can be read opens like a command exactly if it is heard behind a greeting. -/
theorem command_iff_heard {text : List Char} (hhey : opensWith "hey whisper," text = false)
    (hwhisper : opensWith "whisper," text = false)
    (hknown : ∀ unknown, ofLine text ≠ .simple (.unknown unknown)) :
    (commandWords.any fun words => opensWith words text) = !isUnheard text := by
  have hheard : ∀ w ∈ openings, (∃ c ∈ commandWords, c.toList <+: w.toList) ∨ w ∈ unheardWords := by
    decide +kernel
  have hapart : ∀ c ∈ commandWords, ∀ u ∈ unheardWords, Apart c u ∧ Apart u c := by
    decide +kernel
  by_cases hloop : leaveWords.contains (String.ofList text) = true ∨
      nextWords.contains (String.ofList text) = true
  · have hunheard : isUnheard text = true := by
      rcases hloop with hleave | hnext
      · simp only [isUnheard, hleave, Bool.true_or]
      · simp only [isUnheard, hnext, Bool.or_true, Bool.true_or]
    rw [not_command_of_loop hloop, hunheard, Bool.not_true]
  · simp only [not_or, Bool.not_eq_true] at hloop
    obtain ⟨hleave, hnext⟩ := hloop
    rw [ofLine_ungreeted hhey hwhisper] at hknown
    simp only [hleave, hnext, Bool.false_eq_true, if_false] at hknown
    obtain ⟨w, hw, hopens⟩ := opens_of_known hknown
    simp only [isUnheard, hleave, hnext, Bool.false_or]
    have hopening := prefix_of_opensWith hopens
    rcases hheard w hw with ⟨c, hc, hshorter⟩ | hunheard
    · have hcommand : c.toList <+: text := hshorter.trans hopening
      have hany : (commandWords.any fun words => opensWith words text) = true :=
        List.any_eq_true.mpr ⟨c, hc, List.isPrefixOf_iff_prefix.mpr hcommand⟩
      rw [hany, any_opensWith_eq_false hcommand fun u hu => (hapart c hc u hu).2, Bool.not_false]
    · have hany : (unheardWords.any fun words => opensWith words text) = true :=
        List.any_eq_true.mpr ⟨w, hunheard, hopens⟩
      rw [hany, any_opensWith_eq_false hopening fun c hc => (hapart c hc w hunheard).1,
        Bool.not_true]

/-- A greeting changes nothing about a line that can be read, unless the line is not heard behind a
greeting; then it makes small talk out of it. -/
theorem greetings_are_transparent_unless_unheard {text : List Char}
    (htrimmed : Text.trim text = text) (hhey : opensWith "hey whisper," text = false)
    (hwhisper : opensWith "whisper," text = false)
    (hknown : ∀ unknown, ofLine text ≠ .simple (.unknown unknown)) :
    ∀ greeting ∈ greetings,
      (ofLine (greeting.toList ++ text) = ofLine text ↔ isUnheard text = false) ∧
      (isUnheard text = true → ofLine (greeting.toList ++ text) = .remark) := by
  intro greeting hgreeting
  rw [ofLine_greeted hgreeting htrimmed, command_iff_heard hhey hwhisper hknown]
  have hline := ofLine_ungreeted hhey hwhisper
  cases hunheard : isUnheard text with
  | false =>
      simp only [isUnheard, Bool.or_eq_false_iff] at hunheard
      obtain ⟨⟨hleave, hnext⟩, -⟩ := hunheard
      simp only [hleave, hnext, Bool.false_eq_true, if_false] at hline
      exact ⟨⟨fun _ => rfl, fun _ => hline.symm⟩, nofun⟩
  | true =>
      have hsaid : ofLine text ≠ .remark := by
        intro hremark
        rw [hline] at hremark
        split at hremark
        · cases hremark
        · split at hremark
          · cases hremark
          · have hsentence := isRemark_ofSentence text
            rw [hremark] at hsentence
            cases hsentence
      exact ⟨⟨fun hsame => absurd hsame.symm hsaid, nofun⟩, fun _ => rfl⟩

/-- The introduction of a hero is heard, an announcement is not. -/
theorem greetings_are_transparent_unless_unheard_heroes :
    ofLine "hey whisper, there is a hero with health 9".toList =
      .simple (.createObject "hero" [("health", "9")]) ∧
    ofLine "whisper, announce health".toList = .remark := by
  have hhero : ofLine "there is a hero with health 9".toList =
      .simple (.createObject "hero" [("health", "9")]) := rfl
  have hannounce : ofLine "announce health".toList = .simple (.display "health" false) := rfl
  have hheard := @greetings_are_transparent_unless_unheard "there is a hero with health 9".toList
    rfl rfl rfl (by rw [hhero]; exact nofun)
  have hunheard := @greetings_are_transparent_unless_unheard "announce health".toList
    rfl rfl rfl (by rw [hannounce]; exact nofun)
  constructor
  · rw [← hhero]
    exact (hheard "hey whisper, " (by decide)).1.mpr rfl
  · exact (hunheard "whisper, " (by decide)).2 rfl

/-- An increase is a statement, but behind a greeting it is small talk. -/
theorem increase_is_unheard_behind_greeting :
    ofLine "increase x by 1".toList = .simple (.adjust "x" "1" .increase) ∧
    ofLine "whisper, increase x by 1".toList = .remark ∧
    ofLine "hey whisper, increase x by 1".toList ≠ ofLine "increase x by 1".toList := by
  have hincrease : ofLine "increase x by 1".toList = .simple (.adjust "x" "1" .increase) := rfl
  have hremark : ofLine "hey whisper, increase x by 1".toList = .remark := rfl
  refine ⟨hincrease, rfl, ?_⟩
  rw [hincrease, hremark]
  exact nofun

end Form

end Parlance
