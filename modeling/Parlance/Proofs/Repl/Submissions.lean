import Parlance.Proofs.Repl.Awaiting
import Parlance.Proofs.Text.Cutting

/-!
# Typed lines are submitted once

The lines that are typed fall into entries, one for each submission: a line that opens no block, or an
open block with the blank line behind it. What is typed behind the last entry is the block that is
still waiting. No line is lost or submitted twice, and only the blank lines behind blocks are dropped.
-/

namespace Parlance

namespace Collector

/-- There is nothing to see in a line. -/
def IsBlankLine (line : String) : Prop :=
  Text.trim line.toList = []

/-- A block is to follow: the last visible character of the line is a colon or a question mark. -/
def AsksForBlock (line : String) : Prop :=
  Text.lastVisible? line.toList = some ':' ∨ Text.lastVisible? line.toList = some '?'

/-- A line that asks for a block, and lines of the block. -/
def IsOpenBlock : List String → Prop
  | [] => False
  | header :: body => AsksForBlock header ∧ ∀ line ∈ body, ¬ IsBlankLine line

/-- What is typed for one submission. -/
inductive Entry where
  | single (line : String)
  | block (lines : List String) (blank : String)

namespace Entry

/-- The lines of an entry that are submitted. -/
def submitted : Entry → List String
  | single line => [line]
  | block lines _ => lines

/-- The lines of an entry that only end it. -/
def ending : Entry → List String
  | single _ => []
  | block _ blank => [blank]

/-- All lines of an entry. -/
def typed (entry : Entry) : List String :=
  entry.submitted ++ entry.ending

/-- The text of the submission. -/
def code (entry : Entry) : String :=
  "\n".intercalate entry.submitted

/-- A single line opens no block, and a block is ended by a blank line. -/
def IsProper : Entry → Prop
  | single line => ¬ AsksForBlock line
  | block lines blank => IsOpenBlock lines ∧ IsBlankLine blank

theorem IsProper.submitted_ne_nil {entry : Entry} (h : entry.IsProper) : entry.submitted ≠ [] := by
  cases entry with
  | single line => exact List.cons_ne_nil _ _
  | block lines blank =>
      rintro rfl
      exact h.1

end Entry

/-- The texts that are submitted. -/
def submissions (answers : List Progress) : List String :=
  answers.filterMap fun
    | .complete code => some code
    | .needMore => none

/-- The lines of a text, as line feeds divide it. -/
def splitLines (code : String) : List String :=
  (Text.splitChar '\n' code.toList).map String.ofList

/-! ## One line -/

/-- What a line leads to behind the lines of a block that is waiting. -/
inductive Step : List String → String → Progress → List String → Prop
  | opens {line : String} (asks : AsksForBlock line) : Step [] line .needMore [line]
  | single {line : String} (rests : ¬ AsksForBlock line) : Step [] line (.complete line) []
  | continues {waiting : List String} {line : String} (isOpen : IsOpenBlock waiting)
      (visible : ¬ IsBlankLine line) : Step waiting line .needMore (waiting ++ [line])
  | ends {waiting : List String} {line : String} (isOpen : IsOpenBlock waiting)
      (blank : IsBlankLine line) : Step waiting line (.complete ("\n".intercalate waiting)) []

/-- Nothing is waiting, or an open block is. -/
def IsWaiting (lines : List String) : Prop :=
  lines = [] ∨ IsOpenBlock lines

theorem IsOpenBlock.ne_nil {lines : List String} (h : IsOpenBlock lines) : lines ≠ [] := by
  rintro rfl
  exact h

theorem step_feed {waiting : List String} (h : IsWaiting waiting) (line : String) :
    Step waiting line (feed ⟨waiting⟩ line).1 (feed ⟨waiting⟩ line).2.lines := by
  rcases h with rfl | hopen
  · rw [feed_idle rfl]
    by_cases hasks : AsksForBlock line
    · rw [if_pos (opensBlock_iff.mpr hasks)]
      exact .opens hasks
    · rw [if_neg fun hopens => hasks (opensBlock_iff.mp hopens)]
      exact .single hasks
  · by_cases hblank : IsBlankLine line
    · rw [feed_blank hopen.ne_nil hblank]
      exact .ends hopen hblank
    · rw [feed_waiting hopen.ne_nil hblank]
      exact .continues hopen hblank

theorem Step.isWaiting {waiting waiting' : List String} {line : String} {answer : Progress}
    (h : Step waiting line answer waiting') : IsWaiting waiting' := by
  cases h with
  | opens asks => exact .inr ⟨asks, nofun⟩
  | single _ => exact .inl rfl
  | ends _ _ => exact .inl rfl
  | continues isOpen visible =>
      cases waiting with
      | nil => exact isOpen.elim
      | cons header body =>
          refine .inr ⟨isOpen.1, List.forall_mem_append.mpr ⟨isOpen.2, ?_⟩⟩
          simpa using visible

/-! ## Many lines -/

/-- How lines that were typed are accounted for by the answers to them and what is waiting then. -/
structure Accounts (typed : List String) (entries : List Entry) (answers : List Progress)
    (c : Collector) : Prop where
  proper : ∀ entry ∈ entries, entry.IsProper
  /-- No line is lost, and none is there twice. -/
  typed_eq : typed = entries.flatMap Entry.typed ++ c.lines
  submissions_eq : submissions answers = entries.map Entry.code
  waiting : IsWaiting c.lines

/-- The lines in front of a step and behind it are accounted for together. -/
theorem Step.exists_accounts {waiting waiting' lines : List String} {line : String}
    {answer : Progress} {answers : List Progress} {c : Collector} {entries : List Entry}
    (h : Step waiting line answer waiting')
    (rest : Accounts (waiting' ++ lines) entries answers c) :
    ∃ entries, Accounts (waiting ++ line :: lines) entries (answer :: answers) c := by
  cases h with
  | opens asks => exact ⟨entries, { rest with }⟩
  | continues isOpen visible =>
      refine ⟨entries, { rest with typed_eq := ?_ }⟩
      rw [← rest.typed_eq, List.append_assoc, List.singleton_append]
  | single rests =>
      refine ⟨.single line :: entries, ?_, ?_, ?_, rest.waiting⟩
      · exact List.forall_mem_cons.mpr ⟨rests, rest.proper⟩
      · rw [List.flatMap_cons, List.append_assoc, ← rest.typed_eq]
        rfl
      · rw [List.map_cons, ← rest.submissions_eq]
        simp [submissions, Entry.code, Entry.submitted]
  | ends isOpen blank =>
      refine ⟨.block waiting line :: entries, ?_, ?_, ?_, rest.waiting⟩
      · exact List.forall_mem_cons.mpr ⟨⟨isOpen, blank⟩, rest.proper⟩
      · rw [List.flatMap_cons, List.append_assoc, ← rest.typed_eq]
        simp [Entry.typed, Entry.submitted, Entry.ending]
      · rw [List.map_cons, ← rest.submissions_eq]
        rfl

theorem exists_accounts {waiting : List String} (h : IsWaiting waiting) (lines : List String) :
    ∃ entries, Accounts (waiting ++ lines) entries (feedAll ⟨waiting⟩ lines).1
      (feedAll ⟨waiting⟩ lines).2 := by
  induction lines generalizing waiting with
  | nil => exact ⟨[], nofun, by simp [feedAll], rfl, h⟩
  | cons line lines ih =>
      have hstep := step_feed h line
      obtain ⟨entries, hrest⟩ := ih hstep.isWaiting
      exact hstep.exists_accounts hrest

/-! ## Texts and their lines -/

theorem splitLines_intercalate {lines : List String} (hne : lines ≠ [])
    (h : ∀ line ∈ lines, '\n' ∉ line.toList) : splitLines ("\n".intercalate lines) = lines := by
  have hparts : ∀ part ∈ lines.map String.toList, '\n' ∉ part := by
    simpa using h
  have hnewline : "\n".toList = ['\n'] := by decide
  rw [splitLines, String.toList_intercalate, hnewline,
    Text.splitChar_intercalate (by simpa using hne) hparts, List.map_map]
  simp

/-- The text of the lines that are waiting. -/
def buffer (c : Collector) : String :=
  "\n".intercalate c.lines

/-- The lines in the text that is waiting. An empty text has none. -/
def bufferedLines (c : Collector) : List String :=
  if c.buffer.isEmpty then [] else splitLines c.buffer

/-- A block that is waiting is not empty as a text either, because there is something to see in its
header. -/
theorem IsOpenBlock.buffer_ne_empty {c : Collector} (h : IsOpenBlock c.lines) : c.buffer ≠ "" := by
  unfold buffer
  cases hlines : c.lines with
  | nil => exact absurd hlines h.ne_nil
  | cons header body =>
      rw [hlines] at h
      intro hempty
      have hheader : header.toList = [] := by
        have hchars := congrArg String.toList hempty
        cases body with
        | nil => simpa using hchars
        | cons line body => simp at hchars
      have hlast : Text.lastVisible? header.toList = none := by
        rw [hheader]
        rfl
      rcases h.1 with hcolon | hquestion
      · simp [hlast] at hcolon
      · simp [hlast] at hquestion

theorem isCollecting_iff {c : Collector} (h : IsWaiting c.lines) :
    c.isCollecting = true ↔ IsOpenBlock c.lines := by
  rcases h with hnone | hopen
  · simp [isCollecting, hnone, IsOpenBlock]
  · simp [isCollecting, hopen.ne_nil, hopen]

theorem isCollecting_iff_buffer {c : Collector} (h : IsWaiting c.lines) :
    c.isCollecting = true ↔ c.buffer ≠ "" := by
  rw [isCollecting_iff h]
  constructor
  · exact IsOpenBlock.buffer_ne_empty
  · intro hbuffer
    refine h.resolve_left fun hnone => hbuffer ?_
    rw [buffer, hnone]
    rfl

theorem bufferedLines_eq {c : Collector} (h : IsWaiting c.lines)
    (hlines : ∀ line ∈ c.lines, '\n' ∉ line.toList) : c.bufferedLines = c.lines := by
  unfold bufferedLines
  rcases h with hnone | hopen
  · rw [buffer, hnone]
    rfl
  · rw [if_neg (by simpa using hopen.buffer_ne_empty)]
    exact splitLines_intercalate hopen.ne_nil hlines

/-- The lines of the submissions are the lines of the entries, without those that only ended a
block. -/
theorem Accounts.lines_of_submissions {typed : List String} {entries : List Entry}
    {answers : List Progress} {c : Collector} (h : Accounts typed entries answers c)
    (hlines : ∀ line ∈ typed, '\n' ∉ line.toList) :
    (submissions answers).flatMap splitLines = entries.flatMap Entry.submitted := by
  rw [h.submissions_eq, List.flatMap_map]
  refine List.flatMap_congr fun entry hentry => ?_
  refine splitLines_intercalate (h.proper entry hentry).submitted_ne_nil fun line hline => ?_
  apply hlines
  rw [h.typed_eq, List.mem_append, List.mem_flatMap]
  exact .inl ⟨entry, hentry, List.mem_append_left _ hline⟩

/-- The lines that are typed are the entries that were submitted and the block that is waiting. Divided
at line feeds, the submissions and what is waiting give back these lines without the blank ones that
ended a block; and a block is being collected exactly if one was opened and is not submitted yet, which
the text that is waiting tells by not being empty. -/
theorem typed_lines_are_submitted_once {lines : List String}
    (h : ∀ line ∈ lines, '\n' ∉ line.toList) :
    let (answers, c) := feedAll {} lines
    ∃ entries : List Entry, Accounts lines entries answers c ∧
      (submissions answers).flatMap splitLines ++ c.bufferedLines =
        entries.flatMap Entry.submitted ++ c.lines ∧
      (c.isCollecting = true ↔ IsOpenBlock c.lines) ∧ (c.isCollecting = true ↔ c.buffer ≠ "") := by
  obtain ⟨entries, haccounts⟩ :
      ∃ entries, Accounts lines entries (feedAll {} lines).1 (feedAll {} lines).2 :=
    exists_accounts (.inl rfl) lines
  refine ⟨entries, haccounts, ?_, isCollecting_iff haccounts.waiting,
    isCollecting_iff_buffer haccounts.waiting⟩
  have hbuffer := bufferedLines_eq haccounts.waiting fun line hline => by
    apply h
    rw [haccounts.typed_eq]
    exact List.mem_append_right _ hline
  rw [haccounts.lines_of_submissions h]
  exact congrArg (entries.flatMap Entry.submitted ++ ·) hbuffer

/-- A blank line that stands for itself, a block with a blank line in the end, and a question that is
waiting for its answers. -/
theorem typed_lines_are_submitted_once_stairs :
    let lines := ["let n be 2", "", "while n is less than 9:  ", "    increase n by 1", " \t",
      "is n even?", "    yes:"]
    let (answers, c) := feedAll {} lines
    (∀ line ∈ lines, '\n' ∉ line.toList) ∧
      submissions answers = ["let n be 2", "", "while n is less than 9:  \n    increase n by 1"] ∧
      c.lines = ["is n even?", "    yes:"] ∧ c.isCollecting = true ∧
      ∃ entries : List Entry, Accounts lines entries answers c ∧
        (submissions answers).flatMap splitLines ++ c.bufferedLines =
          entries.flatMap Entry.submitted ++ c.lines := by
  have hlines : ∀ line ∈ ["let n be 2", "", "while n is less than 9:  ", "    increase n by 1", " \t",
      "is n even?", "    yes:"], '\n' ∉ line.toList := by decide
  obtain ⟨entries, haccounts, hkept, -⟩ := typed_lines_are_submitted_once hlines
  exact ⟨hlines, by decide, by decide, by decide, entries, haccounts, hkept⟩

end Collector

end Parlance
