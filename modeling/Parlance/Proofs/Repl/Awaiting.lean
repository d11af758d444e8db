import Parlance.Proofs.Statement.Headers
import Parlance.Proofs.Statement.Layout
import Parlance.Repl.Collector

/-!
# Headers that are typed

A typed line is kept until its block is complete if its last visible character is a colon or a
question mark. For a header without a comment that is so unless it trails off behind its colon. Behind
a comment, the comment alone decides, whatever the header says.
-/

namespace Parlance

namespace Line

/-- A line is kept whole, or it is cut at a number sign. -/
theorem stripCommentFrom_cases (quote previous : Option Char) (text : List Char) :
    stripCommentFrom quote previous text = text ∨
      ∃ comment, text = stripCommentFrom quote previous text ++ '#' :: comment := by
  induction text generalizing quote previous with
  | nil => exact .inl rfl
  | cons c text ih =>
      simp only [stripCommentFrom]
      split
      · rcases ih (toggleQuote c quote) (some c) with h | ⟨comment, h⟩
        · exact .inl (by rw [h])
        · exact .inr ⟨comment, by rw [List.cons_append, ← h]⟩
      · split
        · next hsign =>
          simp only [Bool.and_eq_true, beq_iff_eq] at hsign
          exact .inr ⟨text, by rw [hsign.1, List.nil_append]⟩
        · rcases ih quote (some c) with h | ⟨comment, h⟩
          · exact .inl (by rw [h])
          · exact .inr ⟨comment, by rw [List.cons_append, ← h]⟩

end Line

namespace Collector

/-- Takes lines one after another. -/
def feedAll (c : Collector) : List String → List Progress × Collector
  | [] => ([], c)
  | line :: lines =>
    let (answer, c) := c.feed line
    let (answers, c) := c.feedAll lines
    (answer :: answers, c)

theorem opensBlock_iff {line : String} :
    opensBlock line = true ↔
      Text.lastVisible? line.toList = some ':' ∨ Text.lastVisible? line.toList = some '?' := by
  simp [opensBlock, Text.endsWithChar, Text.getLast?_trimEnd]

theorem feed_idle {c : Collector} (hc : c.isCollecting = false) (line : String) :
    c.feed line = if opensBlock line then (.needMore, ⟨[line]⟩) else (.complete line, c) := by
  simp [feed, hc]

theorem feed_needMore_iff {c : Collector} (hc : c.isCollecting = false) (line : String) :
    (c.feed line).1 = .needMore ↔ opensBlock line = true := by
  rw [feed_idle hc]
  split
  · next hopens => simp [hopens]
  · next hopens => simp [hopens]

/-- Lines that are not blank are kept behind the others. -/
theorem feed_waiting {lines : List String} (hlines : lines ≠ []) {line : String}
    (hline : Text.trim line.toList ≠ []) : feed ⟨lines⟩ line = (.needMore, ⟨lines ++ [line]⟩) := by
  simp [feed, isCollecting, hlines, hline]

theorem feed_blank {lines : List String} (hlines : lines ≠ []) {blank : String}
    (hblank : Text.trim blank.toList = []) :
    feed ⟨lines⟩ blank = (.complete ("\n".intercalate lines), ⟨[]⟩) := by
  simp [feed, isCollecting, hlines, hblank]

/-- The lines of a block are kept until a blank line submits them all. -/
theorem feedAll_waiting {lines : List String} (hlines : lines ≠ []) {block : List String}
    (hblock : ∀ line ∈ block, Text.trim line.toList ≠ []) {blank : String}
    (hblank : Text.trim blank.toList = []) :
    feedAll ⟨lines⟩ (block ++ [blank]) =
      (List.replicate block.length .needMore ++ [.complete ("\n".intercalate (lines ++ block))],
        ⟨[]⟩) := by
  induction block generalizing lines with
  | nil => simp [feedAll, feed_blank hlines hblank]
  | cons line block ih =>
      rw [List.forall_mem_cons] at hblock
      have hrest := @ih (lines ++ [line]) (by simp) hblock.2
      simp [feedAll, feed_waiting hlines hblock.1, hrest, List.replicate_succ]

theorem opensBlock_body (line : String) :
    opensBlock line = opensBlock (String.ofList (line.toList.dropWhile Line.isIndent)) := by
  rw [Bool.eq_iff_iff, opensBlock_iff, opensBlock_iff, String.toList_ofList,
    Text.lastVisible?_dropWhile fun _ => Line.isBlank_of_isIndent]

/-- Behind a comment, the comment decides. -/
theorem opensBlock_comment (front comment : List Char) :
    opensBlock (String.ofList (front ++ '#' :: comment)) = opensBlock (String.ofList comment) := by
  have hlast : Text.lastVisible? (front ++ '#' :: comment) =
      (Text.lastVisible? comment).or (some '#') := by
    rw [← List.singleton_append, Text.lastVisible?_append, Text.lastVisible?_append]
    cases Text.lastVisible? comment <;> rfl
  rw [Bool.eq_iff_iff, opensBlock_iff, opensBlock_iff, String.toList_ofList, String.toList_ofList,
    hlast]
  cases Text.lastVisible? comment with
  | none => simp
  | some c => simp

/-- Without a comment, a header is awaited unless it trails off. -/
theorem opensBlock_header {body : List Char}
    (h : (Form.ofLine (Text.trim body)).isHeader = true) :
    opensBlock (String.ofList body) = true ↔ Form.trailsOff (Text.trim body) = false := by
  have hlast : (Text.trim body).getLast? = Text.lastVisible? (Text.trim body) := by
    rw [Text.getLast?_trim, Text.lastVisible?_trim]
  rw [← Form.endsOpen_iff hlast h, opensBlock_iff, String.toList_ofList]
  simp [Form.endsOpen, Text.endsWithChar, Text.getLast?_trim]

/-- A typed header is awaited with its block, and submitted with it, unless it trails off or a comment
stands behind it; then the comment decides. -/
theorem headers_await_their_blocks {line : String} (hline : '\n' ∉ line.toList) {s : Statement}
    (h : Block.ofProgram line = [s]) (hs : s.action.blocks ≠ []) {c : Collector}
    (hc : c.isCollecting = false) :
    let body := line.toList.dropWhile Line.isIndent
    ((Line.stripComment body = body ∧
          ((c.feed line).1 = .needMore ↔ Form.trailsOff (Text.trim body) = false)) ∨
        ∃ comment, body = Line.stripComment body ++ '#' :: comment ∧
          ((c.feed line).1 = .needMore ↔ opensBlock (String.ofList comment) = true)) ∧
      ((c.feed line).1 = .needMore → ∀ (block : List String) (blank : String),
        (∀ typed ∈ block, Text.trim typed.toList ≠ []) → Text.trim blank.toList = [] →
        c.feedAll (line :: (block ++ [blank])) =
          (List.replicate (block.length + 1) .needMore ++
            [.complete ("\n".intercalate (line :: block))], {})) := by
  intro body
  obtain ⟨header, hsource, hheader⟩ := Block.header_of_ofProgram hline h hs
  rw [feed_needMore_iff hc]
  constructor
  · rcases Line.stripCommentFrom_cases none none body with hkept | ⟨comment, hcut⟩
    · have htext : header.text = Text.trim body := by
        unfold Line.ofSource? at hsource
        dsimp only at hsource
        split at hsource
        · cases hsource
        · cases hsource
          exact congrArg Text.trim hkept
      rw [htext] at hheader
      refine .inl ⟨hkept, ?_⟩
      rw [opensBlock_body]
      exact opensBlock_header hheader
    · refine .inr ⟨comment, hcut, ?_⟩
      have hbody : opensBlock line = opensBlock (String.ofList comment) := by
        rw [opensBlock_body, ← opensBlock_comment (Line.stripComment body) comment]
        exact congrArg (fun text => opensBlock (String.ofList text)) hcut
      rw [hbody]
  · intro hopens block blank hblock hblank
    have hfirst : c.feed line = (.needMore, ⟨[line]⟩) := by simp [feed_idle hc, hopens]
    have hrest := feedAll_waiting (List.cons_ne_nil line []) hblock hblank
    rw [feedAll, hfirst]
    dsimp only
    rw [hrest]
    rfl

/-- A header that is indented and said to the listener, with blanks behind it, and its block. -/
theorem headers_await_their_blocks_whispered :
    let line := "  whisper, while n is less than 2: "
    let block := ["    increase n by 1", "    show n"]
    Block.ofProgram line = [.mk 1 (.loopWhile "n is less than 2" [])] ∧
      (({} : Collector).feed line).1 = .needMore ∧
      ({} : Collector).feedAll (line :: (block ++ [" "])) =
        ([.needMore, .needMore, .needMore, .complete ("\n".intercalate (line :: block))], {}) := by
  intro line block
  have hprogram : Block.ofProgram "  whisper, while n is less than 2: " =
      [.mk 1 (.loopWhile "n is less than 2" [])] := by rfl
  obtain ⟨hanswer, hsubmit⟩ :=
    headers_await_their_blocks (by decide) hprogram (List.cons_ne_nil _ _) (c := {}) rfl
  have hkept : Line.stripComment (line.toList.dropWhile Line.isIndent) =
      line.toList.dropWhile Line.isIndent := by decide
  have hopens : (({} : Collector).feed line).1 = .needMore := by
    rcases hanswer with ⟨-, hiff⟩ | ⟨comment, hcut, -⟩
    · exact hiff.mpr (by decide)
    · rw [hkept] at hcut
      exact absurd (List.self_eq_append_right.mp hcut) (List.cons_ne_nil _ _)
  exact ⟨hprogram, hopens, hsubmit hopens block " " (by decide) (by decide)⟩

/-- A comment behind a header keeps its block from being awaited. -/
theorem commented_header_is_submitted_alone :
    Block.ofProgram "repeat 2: # twice" = [.mk 1 (.loopTimes "2" [])] ∧
      (({} : Collector).feed "repeat 2: # twice").1 = .complete "repeat 2: # twice" :=
  ⟨rfl, by decide⟩

end Collector

end Parlance
