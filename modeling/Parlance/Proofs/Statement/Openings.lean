import Parlance.Proofs.Statement.Arguments
import Parlance.Proofs.Statement.Headers

/-!
# How sentences open

Each way to read a sentence asks for certain words at its front. These words are all different from
one another at an early character, so a sentence that one reading accepts is out of reach for the
readings that come before it.
-/

namespace Parlance

namespace Form

/-- A text opens with one of some words. -/
def Opens (words : List String) (text : List Char) : Prop :=
  ∃ w ∈ words, opensWith w text = true

def storyOpenings : List String :=
  ["remember that ", "forget about ", "there is a ", "there is an ", "the "]

def questionOpenings : List String :=
  ["is ", "are "]

def assignmentOpenings : List String :=
  ["let ", "so ", "set ", "increase ", "decrease "]

def displayOpenings : List String :=
  ["whisper ", "show ", "tell me ", "just say ", "just tell ", "announce "]

def transferOpenings : List String :=
  ["write ", "read ", "uppercase ", "lowercase "]

def loopOpenings : List String :=
  ["while ", "for each ", "do ", "repeat "]

def listOpenings : List String :=
  ["make ", "add ", "remove "]

/-- The openings of the readings up to the one that shows values. -/
def earlyOpenings : List String :=
  storyOpenings ++ questionOpenings ++ ["define ", "call ", "give back ", "attempt:"] ++
    assignmentOpenings ++ ["ask "] ++ displayOpenings

/-- The words that open sentences, in the order of the readings. -/
def openings : List String :=
  earlyOpenings ++ transferOpenings ++ loopOpenings ++ listOpenings ++ ["when "]

theorem prefix_of_opensWith {words : String} {text : List Char} (h : opensWith words text = true) :
    words.toList <+: text :=
  List.isPrefixOf_iff_prefix.mp h

theorem Opens.mono {words more : List String} {text : List Char} (h : Opens words text)
    (hsubset : words ⊆ more) : Opens more text := by
  obtain ⟨w, hw, hopens⟩ := h
  exact ⟨w, hsubset hw, hopens⟩

/-! ## Readings and their openings -/

section

variable {words : List String} {text : List Char}

theorem opens_after {w : String} (hw : w ∈ words) :
    Every (fun _ => Opens words text) (after? w text) :=
  fun _ hrest => ⟨w, hw, opensWith_of_after? hrest⟩

/-- What is read from a part of a text is read from the text. -/
theorem opens_bind {found : Option α} {f : α → Option β}
    (h : Every (fun _ => Opens words text) found) :
    Every (fun _ => Opens words text) (found >>= f) :=
  .bind_of_eq fun a ha _ _ => h a ha

theorem opens_map {found : Option α} {f : α → β} (h : Every (fun _ => Opens words text) found) :
    Every (fun _ => Opens words text) (found.map f) :=
  h.lift fun _ hopens => hopens

theorem opens_parts {front : String} (hfront : front ∈ words) (separator : String) :
    Every (fun _ => Opens words text) (parts? front separator text) :=
  opens_map (opens_bind (opens_after hfront))

end

theorem opens_story (text : List Char) :
    Every (fun _ => Opens storyOpenings text) (story? text) := by
  refine .orElse (opens_bind (opens_after (by decide)))
    (.orElse (opens_map (opens_after (by decide)))
      (.orElse (opens_map ?_) (opens_bind (opens_after (by decide)))))
  intro rest hrest
  rcases Option.or_eq_some_iff.mp hrest with hrest | ⟨-, hrest⟩
  · exact opens_after (by decide) rest hrest
  · exact opens_after (by decide) rest hrest

theorem opens_call (text : List Char) : Every (fun _ => Opens ["call "] text) (call? text) :=
  opens_bind (opens_after (by decide))

theorem opens_giveBack (text : List Char) :
    Every (fun _ => Opens ["give back "] text) (giveBack? text) :=
  opens_map (opens_after (by decide))

theorem opens_assignment (text : List Char) :
    Every (fun _ => Opens assignmentOpenings text) (assignment? text) := by
  refine .orElse ?_ (.orElse ?_ (.orElse ?_ (.orElse ?_ ?_)))
  all_goals exact opens_map (opens_parts (by decide) _)

theorem opens_ask (text : List Char) : Every (fun _ => Opens ["ask "] text) (ask? text) :=
  opens_bind (opens_after (by decide))

theorem opens_display (text : List Char) :
    Every (fun _ => Opens displayOpenings text) (display? text) := by
  refine .orElse ?_ (.orElse ?_ (.orElse ?_ (.orElse ?_ (.orElse ?_ ?_))))
  all_goals exact opens_map (opens_after (by decide))

theorem opens_transfer (text : List Char) :
    Every (fun _ => Opens transferOpenings text) (transfer? text) := by
  refine .orElse ?_ (.orElse ?_ (.orElse ?_ ?_))
  all_goals exact opens_map (opens_parts (by decide) _)

theorem opens_list (text : List Char) : Every (fun _ => Opens listOpenings text) (list? text) := by
  refine .orElse ?_ (.orElse ?_ ?_)
  all_goals exact opens_map (opens_parts (by decide) _)

theorem opens_question (text : List Char) :
    Every (fun _ => Opens questionOpenings text) (question? text) := by
  unfold question?
  split
  · next hopens =>
    simp only [Bool.and_eq_true, Bool.or_eq_true] at hopens
    refine .some ?_
    rcases hopens.1 with his | hare
    · exact ⟨"is ", by decide, his⟩
    · exact ⟨"are ", by decide, hare⟩
  · exact .none

theorem opens_define (text : List Char) : Every (fun _ => Opens ["define "] text) (define? text) :=
  opens_bind (opens_after (by decide))

theorem opens_loop (text : List Char) : Every (fun _ => Opens loopOpenings text) (loop? text) := by
  refine .orElse ?_ (.orElse ?_ (.orElse ?_ ?_))
  all_goals exact opens_bind (opens_after (by decide))

theorem opens_choose (text : List Char) : Every (fun _ => Opens ["when "] text) (choose? text) :=
  opens_bind (opens_after (by decide))

theorem opens_attempt (text : List Char) :
    Every (fun _ => Opens ["attempt:"] text)
      (if opensWith "attempt:" text then some attempt else none) := by
  split
  · next hopens => exact .some ⟨"attempt:", by decide, hopens⟩
  · exact .none

/-- A sentence that is no unknown one opens with one of the words for it. -/
theorem opens_of_known {text : List Char}
    (h : ∀ unknown, ofSentence text ≠ .simple (.unknown unknown)) : Opens openings text := by
  have header {found : Option Form} {words : List String}
      (hfound : Every (fun _ => Opens words text) found) (hsubset : words ⊆ openings) :
      Every (fun _ => Opens openings text) found :=
    fun form hform => (hfound form hform).mono hsubset
  have whole {found : Option Action} {words : List String}
      (hfound : Every (fun _ => Opens words text) found) (hsubset : words ⊆ openings) :
      Every (fun _ => Opens openings text) (found.map simple) :=
    header (opens_map hfound) hsubset
  have found :=
    (whole (opens_story text) (by decide)).orElse <|
      (header (opens_question text) (by decide)).orElse <|
      (header (opens_define text) (by decide)).orElse <|
      (whole (opens_call text) (by decide)).orElse <|
      (whole (opens_giveBack text) (by decide)).orElse <|
      (header (opens_attempt text) (by decide)).orElse <|
      (whole (opens_assignment text) (by decide)).orElse <|
      (whole (opens_ask text) (by decide)).orElse <|
      (whole (opens_display text) (by decide)).orElse <|
      (whole (opens_transfer text) (by decide)).orElse <|
      (header (opens_loop text) (by decide)).orElse <|
      (whole (opens_list text) (by decide)).orElse (header (opens_choose text) (by decide))
  by_contra hclosed
  refine h (String.ofList text) ?_
  have hnone := Option.eq_none_iff_forall_ne_some.mpr fun form hform => hclosed (found form hform)
  exact congrArg (Option.getD · (simple (.unknown (String.ofList text)))) hnone

/-! ## Readings that come first -/

/-- A text is out of reach for a reading whose openings are all apart from its own. -/
theorem eq_none_of_apart {found : Option α} {words : List String} {opening : String}
    {text : List Char} (hfound : Every (fun _ => Opens words text) found)
    (hopening : opening.toList <+: text) (hapart : ∀ w ∈ words, Apart w opening) :
    found = none := by
  refine Option.eq_none_iff_forall_ne_some.mpr fun a ha => ?_
  obtain ⟨w, hw, hopens⟩ := hfound a ha
  rw [opensWith_eq_false hopening (hapart w hw)] at hopens
  cases hopens

/-- Words that open neither a remark nor a line on loops. -/
def IsOpening (w : String) : Prop :=
  (∀ other ∈ leaveWords ++ nextWords, ¬ w.toList <+: other.toList) ∧
    Apart "hey whisper," w ∧ Apart "whisper," w

instance (w : String) : Decidable (IsOpening w) :=
  inferInstanceAs (Decidable (_ ∧ _))

theorem ofLine_of_isOpening {w : String} {text : List Char} (h : IsOpening w)
    (hopening : w.toList <+: text) : ofLine text = ofSentence text :=
  ofLine_eq_ofSentence hopening (fun other hother => h.1 other (List.mem_append_left _ hother))
    (fun other hother => h.1 other (List.mem_append_right _ hother)) h.2.1 h.2.2

theorem ofLine_of_story {text : List Char} {action : Action} (h : story? text = some action) :
    ofLine text = .simple action := by
  obtain ⟨w, hw, hopens⟩ := opens_story text action h
  have hopening : ∀ w ∈ storyOpenings, IsOpening w := by decide +kernel
  rw [ofLine_of_isOpening (hopening w hw) (prefix_of_opensWith hopens)]
  simp [ofSentence, h]

/-- Sentences on files, on the case of letters and on lists are out of reach for the early
readings. -/
theorem ofLine_of_late {w : String} {text : List Char} (hw : w ∈ transferOpenings ++ listOpenings)
    (hopening : w.toList <+: text) :
    ofLine text =
      ((transfer? text).map simple <|> loop? text <|> (list? text).map simple <|>
        choose? text).getD (.simple (.unknown (String.ofList text))) := by
  have hsentence : ∀ w ∈ transferOpenings ++ listOpenings, IsOpening w := by decide +kernel
  have hapart : ∀ w ∈ transferOpenings ++ listOpenings, ∀ other ∈ earlyOpenings,
      Apart other w := by
    decide +kernel
  have early {α : Type} {found : Option α} {words : List String}
      (hfound : Every (fun _ => Opens words text) found) (hsubset : words ⊆ earlyOpenings) :
      found = none :=
    eq_none_of_apart hfound hopening fun other hother => hapart w hw other (hsubset hother)
  rw [ofLine_of_isOpening (hsentence w hw) hopening]
  simp [ofSentence, early (opens_story text) (by decide), early (opens_question text) (by decide),
    early (opens_define text) (by decide), early (opens_call text) (by decide),
    early (opens_giveBack text) (by decide), early (opens_attempt text) (by decide),
    early (opens_assignment text) (by decide), early (opens_ask text) (by decide),
    early (opens_display text) (by decide)]

theorem ofLine_of_transfer {text : List Char} {action : Action} (h : transfer? text = some action) :
    ofLine text = .simple action := by
  obtain ⟨w, hw, hopens⟩ := opens_transfer text action h
  rw [ofLine_of_late (List.mem_append_left _ hw) (prefix_of_opensWith hopens), h]
  rfl

theorem ofLine_of_list {text : List Char} {action : Action} (h : list? text = some action) :
    ofLine text = .simple action := by
  obtain ⟨w, hw, hopens⟩ := opens_list text action h
  have hapart : ∀ w ∈ listOpenings, ∀ other ∈ transferOpenings ++ loopOpenings, Apart other w := by
    decide +kernel
  have htransfer : transfer? text = none :=
    eq_none_of_apart (opens_transfer text) (prefix_of_opensWith hopens) fun other hother =>
      hapart w hw other (List.mem_append_left _ hother)
  have hloop : loop? text = none :=
    eq_none_of_apart (opens_loop text) (prefix_of_opensWith hopens) fun other hother =>
      hapart w hw other (List.mem_append_right _ hother)
  rw [ofLine_of_late (List.mem_append_right _ hw) (prefix_of_opensWith hopens), htransfer, hloop, h]
  rfl

end Form

end Parlance
