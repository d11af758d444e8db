import Parlance.Proofs.Statement.Numbering
import Parlance.Proofs.Statement.Source

/-!
# Programs put together

A statement takes lines from behind its header: the deeper ones, the further branches of a choice, the
handler of an attempt. Lines that start anew can be none of these, so whatever stands in front of
them is read as if it stood alone.
-/

namespace Parlance

theorem Form.after?_eq_none {words : String} {text : List Char}
    (h : Form.opensWith words text = false) : Form.after? words text = none := by
  cases hafter : Form.after? words text with
  | none => rfl
  | some rest =>
      have hopens : words.toList.isPrefixOf text = true := by
        rw [List.isPrefixOf_iff_prefix]
        exact ⟨rest, List.isPrefixOf?_eq_some_iff_append_eq.mp hafter⟩
      rw [Form.opensWith, Text.startsWith, hopens] at h
      cases h

/-- Some lines start anew: the first of them, if there is one, is not indented and continues neither
a choice nor an attempt. -/
def Line.StartAnew (lines : List Line) : Prop :=
  ∀ line ∈ lines.head?, line.indent = 0 ∧ Form.opensWith "or when " line.text = false ∧
    Form.opensWith "otherwise" line.text = false ∧ Form.opensWith "handle:" line.text = false

section StartAnew

variable {more : List Line} (hmore : Line.StartAnew more) (base : Nat)

include hmore

theorem deeper_append (lines : List Line) :
    Line.deeper base (lines ++ more) = Line.deeper base lines ∧
      Line.beyond base (lines ++ more) = Line.beyond base lines ++ more := by
  induction lines with
  | nil =>
      cases more with
      | nil => exact ⟨rfl, rfl⟩
      | cons line rest =>
          have hindent : line.indent = 0 := (hmore line rfl).1
          simp [Line.deeper, Line.beyond, hindent]
  | cons line lines ih =>
      simp only [Line.deeper, Line.beyond] at ih
      by_cases h : base < line.indent
      · simp [Line.deeper, Line.beyond, h, ih]
      · simp [Line.deeper, Line.beyond, h]

theorem noBranch_append {lines : List Line} (h : NoBranch base lines) :
    NoBranch base (lines ++ more) := by
  intro header rest heq hindent
  cases lines with
  | nil =>
      obtain ⟨-, hor, hotherwise, -⟩ := hmore header (by simp_all)
      have hafter : Form.after? "or when " header.text = none := Form.after?_eq_none hor
      simp [branchHeader?, hafter, hotherwise]
  | cons line lines =>
      obtain ⟨rfl, -⟩ := List.cons.inj heq
      exact h _ lines rfl hindent

theorem furtherBranches_append (lines : List Line) :
    furtherBranches base (lines ++ more) =
      ((furtherBranches base lines).1, (furtherBranches base lines).2 ++ more) := by
  induction lines using furtherBranches_induction base with
  | stop lines h => rw [furtherBranches_stop h, furtherBranches_stop (noBranch_append hmore base h)]
  | last header rest condition hindent hheader =>
      obtain ⟨hdeeper, hbeyond⟩ := deeper_append hmore base rest
      rw [List.cons_append, furtherBranches_last hindent hheader,
        furtherBranches_last hindent hheader, hdeeper, hbeyond]
  | more header rest condition hindent hheader ih =>
      obtain ⟨hdeeper, hbeyond⟩ := deeper_append hmore base rest
      rw [List.cons_append, furtherBranches_more hindent hheader,
        furtherBranches_more hindent hheader, hdeeper, hbeyond, ih]

theorem handler_append (lines : List Line) :
    handler base (lines ++ more) = ((handler base lines).1, (handler base lines).2 ++ more) := by
  rcases handler_cases base lines with h | ⟨header, rest, rfl, hindent, hheader⟩
  · have hnone : NoHandler base (lines ++ more) := by
      intro header rest heq hindent
      cases lines with
      | nil => exact (hmore header (by simp_all)).2.2.2
      | cons line lines =>
          obtain ⟨rfl, -⟩ := List.cons.inj heq
          exact h _ lines rfl hindent
    rw [handler_none h, handler_none hnone]
  · obtain ⟨hdeeper, hbeyond⟩ := deeper_append hmore base rest
    rw [List.cons_append, handler_some hindent hheader, handler_some hindent hheader, hdeeper,
      hbeyond]

/-- Lines that start anew add nothing to the statement in front of them. -/
theorem Outline.ofForm_append (form : Form) (rest : List Line) :
    Outline.ofForm form base (rest ++ more) = Outline.ofForm form base rest ∧
      Outline.behind form base (rest ++ more) = Outline.behind form base rest ++ more := by
  obtain ⟨hdeeper, hbeyond⟩ := deeper_append hmore base rest
  cases form with
  | choose condition =>
      have hfurther := furtherBranches_append hmore base (Line.beyond base rest)
      simp [Outline.ofForm, Outline.behind, hdeeper, hbeyond, hfurther]
  | attempt =>
      have hhandler := handler_append hmore base (Line.beyond base rest)
      simp [Outline.ofForm, Outline.behind, hdeeper, hbeyond, hhandler]
  | _ => simp [Outline.ofForm, Outline.behind, hdeeper, hbeyond]

end StartAnew

namespace Block

theorem ofLines_cons (header : Line) (rest : List Line) :
    ofLines (header :: rest) =
      ((Outline.ofForm (Form.ofLine header.text) header.indent rest).map ofLines).statements
          header.number ++
        ofLines (Outline.behind (Form.ofLine header.text) header.indent rest) := by
  have hread (part : List Line) (hpart : part.Sublist rest) :
      ofLinesFuel rest.length part = ofLines part := ofLinesFuel_eq hpart.length_le
  rw [ofLines, List.length_cons, ofLinesFuel_cons, hread _ (Outline.behind_sublist _ _ _),
    Outline.map_congr fun block hblock => hread block (Outline.block_sublist hblock)]

theorem ofLines_append (lines : List Line) {more : List Line} (hmore : Line.StartAnew more) :
    ofLines (lines ++ more) = ofLines lines ++ ofLines more := by
  -- The lines behind a statement are fewer than those it is read from.
  induction h : lines.length using Nat.strongRecOn generalizing lines with
  | ind n ih =>
      cases lines with
      | nil => rfl
      | cons header rest =>
          obtain ⟨hform, hbehind⟩ :=
            Outline.ofForm_append hmore header.indent (Form.ofLine header.text) rest
          have hlength :=
            (Outline.behind_sublist (Form.ofLine header.text) header.indent rest).length_le
          rw [List.length_cons] at h
          have hrest := ih _ (by omega)
            (Outline.behind (Form.ofLine header.text) header.indent rest) rfl
          rw [List.cons_append, ofLines_cons, ofLines_cons, hform, hbehind, hrest,
            List.append_assoc]

theorem ofLines_moved (distance : Nat) (lines : List Line) :
    ofLines (lines.map (Line.moved distance)) = Block.renumber (· + distance) (ofLines lines) := by
  have hS : Line.Correspondence fun a a' => a' = a.moved distance := by
    constructor
    · rintro a _ rfl
      rfl
    · rintro a _ b _ rfl rfl
      rfl
  refine ofLines_corresponding hS (fun h => congrArg Line.number h) ?_
  rw [List.forall₂_map_right_iff]
  exact List.forall₂_same.mpr fun _ _ => rfl

theorem startAnew_moved {lines : List Line} (h : Line.StartAnew lines) (distance : Nat) :
    Line.StartAnew (lines.map (Line.moved distance)) := by
  cases lines with
  | nil => exact h
  | cons line rest =>
      intro header hheader
      obtain rfl : line.moved distance = header := by simpa using hheader
      exact h line rfl

/-- A program behind another one, on lines of its own, is read as if it stood alone, with its lines
counted on. -/
theorem ofProgram_append (first second : String)
    (h : Line.StartAnew (Line.ofProgram second.toList)) :
    ofProgram (first ++ "\n" ++ second) =
      ofProgram first ++ Block.renumber (· + (first.toList.count '\n' + 1)) (ofProgram second) := by
  have hlines : Line.ofProgram (first ++ "\n" ++ second).toList = Line.ofProgram first.toList ++
      (Line.ofProgram second.toList).map (Line.moved (first.toList.count '\n' + 1)) := by
    rw [← Line.ofProgram_append]
    simp
  rw [ofProgram, hlines, ofLines_append _ (startAnew_moved h _), ofLines_moved]
  rfl

end Block

end Parlance
