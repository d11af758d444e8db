import Mathlib.Order.Monotone.Basic
import Parlance.Proofs.Statement.Numbering
import Parlance.Proofs.Statement.Source

/-!
# The layout of a program

What a program says depends on the texts of its lines and on how their indentations compare, not on
how deep the lines are indented nor on where they stand. So a program may be indented anew, and blank
lines and comments may be put in or left out anywhere.
-/

namespace Parlance

namespace Line

/-- The same texts in the same order, and of any two lines one is indented no deeper than the other
exactly if that is so of their counterparts. -/
structure SameLayout (lines lines' : List Line) : Prop where
  texts : lines.map Line.text = lines'.map Line.text
  indents : ∀ p ∈ lines.zip lines', ∀ q ∈ lines.zip lines',
    (p.1.indent ≤ q.1.indent ↔ p.2.indent ≤ q.2.indent)

/-- The line at no place in particular. -/
def unplaced (line : Line) : Line :=
  { line with number := 0 }

/-- Lines of the same layout correspond place by place. -/
theorem SameLayout.correspondence {lines lines' : List Line} (h : SameLayout lines lines') :
    Correspondence (fun a a' => (a, a') ∈ lines.zip lines') ∧
      List.Forall₂ (fun a a' => (a, a') ∈ lines.zip lines') lines lines' := by
  have htexts := h.texts
  rw [← List.forall₂_eq_eq_eq, List.forall₂_map_left_iff, List.forall₂_map_right_iff,
    List.forall₂_iff_zip] at htexts
  refine ⟨⟨fun ha => htexts.2 ha, fun ha hb => h.indents _ ha _ hb⟩, ?_⟩
  exact List.forall₂_iff_zip.mpr ⟨htexts.1, fun ha => ha⟩

/-! ## Idle lines -/

/-- Whether a line of a source is blank or only a comment. -/
def isIdle (source : List Char) : Bool :=
  (source.dropWhile Text.isBlank).head?.all (· == '#')

theorem stripCommentFrom_blank {c : Char} (hc : Text.isBlank c = true) (previous : Option Char)
    (rest : List Char) :
    stripCommentFrom none previous (c :: rest) = c :: stripCommentFrom none (some c) rest := by
  have hdouble : c ≠ '"' := by rintro rfl; cases hc
  have hsingle : c ≠ '\'' := by rintro rfl; cases hc
  have hsign : c ≠ '#' := by rintro rfl; cases hc
  simp [stripCommentFrom, hdouble, hsingle, hsign]

theorem isBlank_of_isIndent {c : Char} (h : isIndent c = true) : Text.isBlank c = true := by
  obtain rfl | rfl : c = ' ' ∨ c = '\t' := by simpa [isIndent] using h
  · rfl
  · rfl

theorem dropWhile_isBlank_dropWhile_isIndent (source : List Char) :
    (source.dropWhile isIndent).dropWhile Text.isBlank = source.dropWhile Text.isBlank := by
  induction source with
  | nil => rfl
  | cons c source ih =>
      cases hc : isIndent c with
      | true => simpa [hc, isBlank_of_isIndent hc] using ih
      | false => simp [hc]

theorem all_isBlank_stripComment {source : List Char} (h : isIdle source = true)
    (previous : Option Char) :
    (stripCommentFrom none previous source).all Text.isBlank = true := by
  induction source generalizing previous with
  | nil => rfl
  | cons c source ih =>
      cases hc : Text.isBlank c with
      | true =>
          have hrest : isIdle source = true := by simpa [isIdle, hc] using h
          rw [stripCommentFrom_blank hc, List.all_cons, hc, ih hrest]
          rfl
      | false =>
          obtain rfl : c = '#' := by simpa [isIdle, hc] using h
          rfl

theorem trim_eq_nil {text : List Char} (h : text.all Text.isBlank = true) : Text.trim text = [] := by
  have hstart : Text.trimStart text = [] := by
    simpa [Text.trimStart, List.dropWhile_eq_nil_iff] using h
  rw [Text.trim, hstart]
  rfl

/-- An idle line is not a line of the program. -/
theorem ofSource?_idle {source : List Char} (h : isIdle source = true) (number : Nat) :
    ofSource? number source = none := by
  have hbody : isIdle (source.dropWhile isIndent) = true := by
    rw [isIdle, dropWhile_isBlank_dropWhile_isIndent]
    exact h
  have htext : Text.trim (stripComment (source.dropWhile isIndent)) = [] :=
    trim_eq_nil (all_isBlank_stripComment hbody none)
  simp [ofSource?, htext]

theorem unplaced_numbered (start : Nat) (sources : List (List Char)) :
    (numbered start sources).map unplaced = sources.filterMap (ofSource? 0) := by
  induction sources generalizing start with
  | nil => rfl
  | cons source sources ih =>
      have hplace : (ofSource? (start + 1) source).map unplaced = ofSource? 0 source := by
        unfold ofSource?
        dsimp only
        split <;> rfl
      rw [numbered_cons, List.map_append, ih, ← Option.toList_map, hplace, List.filterMap_cons]
      cases ofSource? 0 source <;> rfl

theorem filterMap_busy (sources : List (List Char)) :
    (sources.filter fun source => !isIdle source).filterMap (ofSource? 0) =
      sources.filterMap (ofSource? 0) := by
  rw [List.filterMap_filter]
  refine List.filterMap_congr fun source _ => ?_
  cases h : isIdle source with
  | true => simp [ofSource?_idle h]
  | false => simp

/-! ## Indenting anew -/

/-- The same line of a source, with as many spaces and tabs in front as `depth` says. -/
structure Reindented (depth : Nat → Nat) (source source' : List Char) : Prop where
  body : source'.dropWhile isIndent = source.dropWhile isIndent
  indent : (source'.takeWhile isIndent).length = depth (source.takeWhile isIndent).length

theorem Reindented.ofSource? {depth : Nat → Nat} {source source' : List Char}
    (h : Reindented depth source source') (number : Nat) :
    Line.ofSource? number source' = (Line.ofSource? number source).map fun line =>
      { line with indent := depth line.indent } := by
  unfold Line.ofSource?
  dsimp only
  rw [h.body, h.indent]
  split <;> rfl

theorem filterMap_reindented {depth : Nat → Nat} {sources sources' : List (List Char)}
    (h : List.Forall₂ (Reindented depth) sources sources') (number : Nat) :
    sources'.filterMap (ofSource? number) = (sources.filterMap (ofSource? number)).map fun line =>
      { line with indent := depth line.indent } := by
  induction h with
  | nil => rfl
  | @cons source source' _ _ hsource _ ih =>
      rw [List.filterMap_cons, List.filterMap_cons, hsource.ofSource?, ih]
      cases Line.ofSource? number source <;> rfl

/-- Lines that are the same but for their places and their depths. -/
def DepthMoved (depth : Nat → Nat) (a a' : Line) : Prop :=
  { a.unplaced with indent := depth a.indent } = a'.unplaced

theorem correspondence_reindented {depth : Nat → Nat} (hdepth : StrictMono depth) :
    Correspondence (DepthMoved depth) := by
  have indent {a a' : Line} (h : DepthMoved depth a a') : depth a.indent = a'.indent :=
    congrArg Line.indent h
  constructor
  · intro a a' h
    have htext := congrArg Line.text h
    exact htext
  · intro a a' b b' ha hb
    rw [← indent ha, ← indent hb]
    exact hdepth.le_iff_le.symm

theorem ofProgram_reindented {depth : Nat → Nat} {source source' : List Char}
    (h : List.Forall₂ (Reindented depth) ((Text.lines source).filter fun line => !isIdle line)
      ((Text.lines source').filter fun line => !isIdle line)) :
    List.Forall₂ (DepthMoved depth) (ofProgram source) (ofProgram source') := by
  have hlines := filterMap_reindented h 0
  rw [filterMap_busy, filterMap_busy, ← unplaced_numbered 0, ← unplaced_numbered 0, List.map_map,
    ← ofProgram_eq_numbered, ← ofProgram_eq_numbered] at hlines
  have hpairs := List.forall₂_eq_eq_eq ▸ hlines.symm
  rw [List.forall₂_map_left_iff, List.forall₂_map_right_iff] at hpairs
  exact hpairs

end Line

namespace Block

theorem unnumbered_ofLines (lines : List Line) :
    (ofLines lines).unnumbered = ofLines (lines.map Line.unplaced) := by
  have hS : Line.Correspondence fun a a' => a' = a.unplaced := by
    constructor
    · rintro a _ rfl
      rfl
    · rintro a _ b _ rfl rfl
      rfl
  refine (ofLines_corresponding hS (fun h => congrArg Line.number h) ?_).symm
  rw [List.forall₂_map_right_iff]
  exact List.forall₂_same.mpr fun _ _ => rfl

theorem unnumbered_ofLines_corresponding {S : Line → Line → Prop} (hS : Line.Correspondence S)
    {lines lines' : List Line} (h : List.Forall₂ S lines lines') :
    (ofLines lines).unnumbered = (ofLines lines').unnumbered := by
  have hS' : Line.Correspondence fun a z => ∃ a', S a a' ∧ z = a'.unplaced := by
    constructor
    · rintro a _ ⟨a', ha, rfl⟩
      have htext : a.text = a'.text := hS.text ha
      exact htext
    · rintro a _ b _ ⟨a', ha, rfl⟩ ⟨b', hb, rfl⟩
      have hindent : a.indent ≤ b.indent ↔ a'.indent ≤ b'.indent := hS.indent ha hb
      exact hindent
  have hunplaced : List.Forall₂ (fun a z => ∃ a', S a a' ∧ z = a'.unplaced) lines
      (lines'.map Line.unplaced) := by
    rw [List.forall₂_map_right_iff]
    exact h.imp fun a a' ha => ⟨a', ha, rfl⟩
  rw [unnumbered_ofLines lines']
  refine (ofLines_corresponding hS' ?_ hunplaced).symm
  rintro a _ ⟨a', _, rfl⟩
  rfl

/-- Programs of the same layout say the same. So does a program that is indented anew, in the same
order of depths, with blank lines and comments put in or left out anywhere. -/
theorem layout_is_irrelevant (source source' : String) :
    (Line.SameLayout (Line.ofProgram source.toList) (Line.ofProgram source'.toList) →
        (ofProgram source).unnumbered = (ofProgram source').unnumbered) ∧
      ∀ depth : Nat → Nat, StrictMono depth →
        List.Forall₂ (Line.Reindented depth)
          ((Text.lines source.toList).filter fun line => !Line.isIdle line)
          ((Text.lines source'.toList).filter fun line => !Line.isIdle line) →
        (ofProgram source).unnumbered = (ofProgram source').unnumbered := by
  constructor
  · intro h
    obtain ⟨hS, hlines⟩ := h.correspondence
    exact unnumbered_ofLines_corresponding hS hlines
  · intro depth hdepth h
    exact unnumbered_ofLines_corresponding (Line.correspondence_reindented hdepth)
      (Line.ofProgram_reindented h)

/-- An attempt that is indented twice as deep, with a comment in front of its handler, a blank line
inside the body, and a comment behind it. -/
theorem layout_is_irrelevant_around_handler :
    let source := "attempt:\n  show 1\n   show 2\nhandle:\n  show 3"
    let source' := "attempt:\n    show 1\n\n      show 2\n  # else\nhandle:\n    show 3\n#"
    let busy := fun text : String => (Text.lines text.toList).filter fun line => !Line.isIdle line
    Line.SameLayout (Line.ofProgram source.toList) (Line.ofProgram source'.toList) ∧
      List.Forall₂ (Line.Reindented (2 * ·)) (busy source) (busy source') ∧
      (ofProgram source).length = 1 ∧
      (ofProgram source).unnumbered = (ofProgram source').unnumbered := by
  intro source source' busy
  have hlayout : Line.SameLayout (Line.ofProgram source.toList) (Line.ofProgram source'.toList) :=
    ⟨by decide +kernel, by decide +kernel⟩
  have hpairs : ∀ p ∈ (busy source).zip (busy source'),
      p.2.dropWhile Line.isIndent = p.1.dropWhile Line.isIndent ∧
        (p.2.takeWhile Line.isIndent).length = 2 * (p.1.takeWhile Line.isIndent).length := by
    decide +kernel
  have hanew : List.Forall₂ (Line.Reindented (2 * ·)) (busy source) (busy source') :=
    List.forall₂_iff_zip.mpr
      ⟨by decide +kernel, fun h => ⟨(hpairs _ h).1, (hpairs _ h).2⟩⟩
  have hdepth : StrictMono (2 * · : Nat → Nat) := fun a b hab => by
    show 2 * a < 2 * b
    omega
  exact ⟨hlayout, hanew, by decide +kernel,
    ((layout_is_irrelevant source source').2 (2 * ·) hdepth hanew)⟩

end Block

end Parlance
