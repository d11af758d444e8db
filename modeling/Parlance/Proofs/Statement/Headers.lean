import Parlance.Proofs.Statement.Joining
import Parlance.Proofs.Text.Cutting
import Parlance.Proofs.Text.Trimming

/-!
# Headers

A line that starts a statement with blocks ends in a colon or, if it asks a question, in a question
mark. Only the headers of attempts and of loops that count in words let something stand behind their
colon, so only they can end otherwise.
-/

namespace Parlance

namespace Form

/-- Whether a line starts a statement that owns the deeper lines behind it. -/
def isHeader : Form → Bool
  | .simple _ => false
  | .remark => false
  | _ => true

/-- Whether a sentence ends in a colon or a question mark. -/
def endsOpen (sentence : List Char) : Bool :=
  Text.endsWithChar ':' sentence || Text.endsWithChar '?' sentence

/-- Whether a sentence opens like a header that may go on behind its colon. -/
def mayGoOn (sentence : List Char) : Bool :=
  opensWith "attempt:" sentence || opensWith "do " sentence

/-- Whether a line goes on behind its colon and does not end openly. -/
def trailsOff (text : List Char) : Bool :=
  (addressed? text).any fun sentence => mayGoOn sentence && !endsOpen sentence

/-- What can be said of a sentence that is read as a form. -/
def Announced (sentence : List Char) (form : Form) : Prop :=
  form.isHeader = true → endsOpen sentence = true ∨ mayGoOn sentence = true

theorem Every.bind_of_eq {P : β → Prop} {f : α → Option β} {found : Option α}
    (h : ∀ a, found = .some a → Every P (f a)) : Every P (found >>= f) := by
  cases found with
  | none => exact .none
  | some a => exact h a rfl

theorem announced_simple (sentence : List Char) (found : Option Action) :
    Every (Announced sentence) (found.map simple) :=
  .map found fun _ => nofun

theorem opensWith_of_after? {words : String} {text rest : List Char}
    (h : after? words text = some rest) : opensWith words text = true := by
  rw [opensWith, Text.startsWith, List.isPrefixOf_iff_prefix]
  exact ⟨rest, List.isPrefixOf?_eq_some_iff_append_eq.mp h⟩

/-- A colon at the end of what follows some words is at the end of the whole. -/
theorem endsOpen_of_before? {words : String} {text rest front : List Char}
    (hafter : after? words text = some rest) (hbefore : Text.before? [':'] rest = some front) :
    endsOpen text = true := by
  have htext : words.toList ++ rest = text := List.isPrefixOf?_eq_some_iff_append_eq.mp hafter
  have hrest : front ++ [':'] = rest := List.isSuffixOf?_eq_some_iff_append_eq.mp hbefore
  simp [endsOpen, Text.endsWithChar, ← htext, ← hrest]

theorem announced_question (text : List Char) : Every (Announced text) (question? text) := by
  unfold question?
  split
  · next hmark =>
    refine .some fun _ => .inl ?_
    simp only [Bool.and_eq_true] at hmark
    simp [endsOpen, hmark.2]
  · exact .none

theorem announced_define (text : List Char) : Every (Announced text) (define? text) := by
  unfold define?
  refine .bind _ fun header => ?_
  by_cases hcolon : Text.endsWithChar ':' text = true
  · have hopen : endsOpen text = true := by simp [endsOpen, hcolon]
    simp only [hcolon, Bool.not_true, Bool.false_eq_true, if_false]
    split
    · exact .some fun _ => .inl hopen
    · exact .some fun _ => .inl hopen
  · simp only [hcolon, Bool.not_false, if_true]
    exact .none

theorem announced_loop (text : List Char) : Every (Announced text) (loop? text) := by
  refine .orElse ?_ (.orElse ?_ (.orElse ?_ ?_))
  · exact .bind_of_eq fun rest hrest => .bind_of_eq fun front hfront =>
      .some fun _ => .inl (endsOpen_of_before? hrest hfront)
  · exact .bind_of_eq fun rest hrest => .bind_of_eq fun front hfront =>
      .bind _ fun _ => .some fun _ => .inl (endsOpen_of_before? hrest hfront)
  · refine .bind_of_eq fun rest hrest => .bind _ fun _ => .some fun _ => .inr ?_
    simp [mayGoOn, opensWith_of_after? hrest]
  · exact .bind_of_eq fun rest hrest => .bind_of_eq fun front hfront =>
      .some fun _ => .inl (endsOpen_of_before? hrest hfront)

theorem announced_choose (text : List Char) : Every (Announced text) (choose? text) := by
  unfold choose?
  refine .bind _ fun rest => ?_
  split
  · next hcolon => exact .some fun _ => .inl (by simp [endsOpen, hcolon])
  · exact .none

/-- The sentence of a header ends openly, or may go on behind its colon. -/
theorem announced_ofSentence (sentence : List Char) : Announced sentence (ofSentence sentence) := by
  have attempt : Every (Announced sentence)
      (if opensWith "attempt:" sentence then some .attempt else none) := by
    split
    · next hopens => exact .some fun _ => .inr (by simp [mayGoOn, hopens])
    · exact .none
  have whole := announced_simple sentence
  have found :=
    (whole (story? sentence)).orElse <| (announced_question sentence).orElse <|
      (announced_define sentence).orElse <| (whole (call? sentence)).orElse <|
      (whole (giveBack? sentence)).orElse <| attempt.orElse <|
      (whole (assignment? sentence)).orElse <| (whole (ask? sentence)).orElse <|
      (whole (display? sentence)).orElse <| (whole (transfer? sentence)).orElse <|
      (announced_loop sentence).orElse <| (whole (list? sentence)).orElse (announced_choose sentence)
  exact found.getD nofun

theorem exists_sentence {text : List Char} (h : (ofLine text).isHeader = true) :
    ∃ sentence, addressed? text = some sentence ∧ (ofSentence sentence).isHeader = true := by
  unfold ofLine at h
  split at h
  · cases h
  · split at h
    · cases h
    · split at h
      · cases h
      · next sentence hsentence => exact ⟨sentence, hsentence, h⟩

/-- What is said to the listener ends as the line does. -/
theorem getLast?_addressed {text sentence : List Char} (htext : text.getLast? = Text.lastVisible? text)
    (h : addressed? text = some sentence) : sentence.getLast? = text.getLast? := by
  have hnothing : commandWords.any (fun words => opensWith words []) = false := by decide
  unfold addressed? at h
  split at h
  · cases hparts : around? "," text with
    | none => simp [hparts, hnothing] at h
    | some parts =>
        obtain ⟨front, rest⟩ := parts
        have happend : front ++ (",".toList ++ rest) = text := Text.append_of_splitFirst? hparts
        rw [hparts] at h
        dsimp only at h
        split at h
        · next hcommand =>
          cases h
          have hvisible : Text.lastVisible? rest ≠ none := by
            intro hnone
            rw [Text.trim_eq_nil_iff.mpr hnone, hnothing] at hcommand
            cases hcommand
          obtain ⟨last, hlast⟩ := Option.ne_none_iff_exists'.mp hvisible
          rw [htext, ← happend, ← List.append_assoc, Text.lastVisible?_append, hlast,
            Text.getLast?_trim, hlast]
          rfl
        · cases h
  · cases h
    rfl

/-- A header ends openly unless it trails off. -/
theorem endsOpen_iff {text : List Char} (htext : text.getLast? = Text.lastVisible? text)
    (h : (ofLine text).isHeader = true) : endsOpen text = true ↔ trailsOff text = false := by
  obtain ⟨sentence, hsentence, hheader⟩ := exists_sentence h
  have hlast := getLast?_addressed htext hsentence
  have hends : endsOpen sentence = endsOpen text := by
    simp only [endsOpen, Text.endsWithChar, hlast]
  have hannounced := announced_ofSentence sentence hheader
  rw [hends] at hannounced
  simp only [trailsOff, hsentence, Option.any_some, hends]
  cases hopen : endsOpen text with
  | true => simp
  | false => simpa [hopen] using hannounced

end Form

/-! ## Lines that stand alone -/

theorem Line.ofProgram_single {source : List Char} (h : '\n' ∉ source) :
    Line.ofProgram source = (Line.ofSource? 1 source).toList := by
  rw [← Line.numbered_splitChar, Text.splitChar_of_not_mem h, Line.numbered_cons]
  simp [Line.numbered]

/-- A line that becomes a statement with blocks is a header. -/
theorem Block.header_of_ofProgram {line : String} (hline : '\n' ∉ line.toList) {s : Statement}
    (h : Block.ofProgram line = [s]) (hs : s.action.blocks ≠ []) :
    ∃ header, Line.ofSource? 1 line.toList = some header ∧
      (Form.ofLine header.text).isHeader = true := by
  rw [Block.ofProgram, Line.ofProgram_single hline] at h
  cases hheader : Line.ofSource? 1 line.toList with
  | none =>
      rw [hheader] at h
      cases h
  | some header =>
      refine ⟨header, rfl, ?_⟩
      have hbehind (form : Form) : Outline.behind form header.indent [] = [] :=
        List.sublist_nil.mp (Outline.behind_sublist form header.indent [])
      have hshape := Form.wellShaped_ofLine header.text
      rw [hheader, Option.toList_some, Block.ofLines_cons, hbehind] at h
      cases hform : Form.ofLine header.text with
      | simple action =>
          rw [hform] at h hshape
          obtain rfl : Statement.mk header.number action = s := (List.cons.inj h).1
          exact absurd hshape hs
      | remark =>
          rw [hform] at h
          cases h
      | _ => rfl

end Parlance
