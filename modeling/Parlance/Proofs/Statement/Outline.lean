import Mathlib.Data.List.Perm.Subperm
import Mathlib.Data.List.TakeWhile
import Parlance.Proofs.Statement.Forms
import Parlance.Statement.Block

/-!
# Outlines of statements

Reading a block takes one statement after another off the front of the lines. What one such step
does is said here once, as an outline: a statement whose blocks are still lines, and the lines that
are left behind it. The lines of the blocks and those left behind are all lines of the rest, each at
most once, and a block is indented deeper than its header.
-/

namespace Parlance

/-- A statement with its blocks in some other form than statements. -/
inductive Outline (β : Type) where
  | remark
  | simple (action : Action)
  | question (condition : String) (yes no : β)
  | choose (branches : List (Option String × β))
  | define (name : String) (params : List String) (body : β)
  | attempt (body : β) (handler : Option β)
  | loopWhile (condition : String) (body : β)
  | forEach (item iterable : String) (body : β)
  | loopTimes (count : String) (body : β)

namespace Outline

/-- The blocks of an outline. -/
def blocks : Outline β → List β
  | .remark => []
  | .simple _ => []
  | .question _ yes no => [yes, no]
  | .choose branches => branches.map Prod.snd
  | .define _ _ body => [body]
  | .attempt body handler => body :: handler.toList
  | .loopWhile _ body => [body]
  | .forEach _ _ body => [body]
  | .loopTimes _ body => [body]

/-- The outline with each of its blocks brought into another form. -/
def map (read : α → β) : Outline α → Outline β
  | .remark => .remark
  | .simple action => .simple action
  | .question condition yes no => .question condition (read yes) (read no)
  | .choose branches => .choose (branches.map fun branch => (branch.1, read branch.2))
  | .define name params body => .define name params (read body)
  | .attempt body handler => .attempt (read body) (handler.map read)
  | .loopWhile condition body => .loopWhile condition (read body)
  | .forEach item iterable body => .forEach item iterable (read body)
  | .loopTimes count body => .loopTimes count (read body)

/-- What the statement does, once its blocks have been read. A remark is no statement. -/
def action? : Outline Block → Option Action
  | .remark => none
  | .simple action => some action
  | .question condition yes no => some (.question condition yes no)
  | .choose branches => some (.choose (branches.map fun branch => .mk branch.1 branch.2))
  | .define name params body => some (.define name params body)
  | .attempt body handler => some (.attempt body handler)
  | .loopWhile condition body => some (.loopWhile condition body)
  | .forEach item iterable body => some (.forEach item iterable body)
  | .loopTimes count body => some (.loopTimes count body)

/-- The statement in a line, or none for a remark. -/
def statements (number : Nat) (outline : Outline Block) : Block :=
  (outline.action?.map (.mk number)).toList

/-- The outline that a header of the given form and indentation has in front of some lines. -/
def ofForm (form : Form) (base : Nat) (rest : List Line) : Outline (List Line) :=
  let body := Line.deeper base rest
  let behind := Line.beyond base rest
  match form with
  | .remark => .remark
  | .simple action => .simple action
  | .question condition => .question condition (Answers.ofLines body).yes (Answers.ofLines body).no
  | .choose condition => .choose ((condition, body) :: (furtherBranches base behind).1)
  | .attempt => .attempt body (handler base behind).1
  | .define name params => .define name params body
  | .loopWhile condition => .loopWhile condition body
  | .forEach item iterable => .forEach item iterable body
  | .loopTimes count => .loopTimes count body

/-- The lines behind the statement that a header starts. -/
def behind (form : Form) (base : Nat) (rest : List Line) : List Line :=
  match form with
  | .remark => rest
  | .simple _ => rest
  | .choose _ => (furtherBranches base (Line.beyond base rest)).2
  | .attempt => (handler base (Line.beyond base rest)).2
  | _ => Line.beyond base rest

/-- A statement without blocks of its own has none in any form. -/
theorem blockless_of_simple {text : List Char} {base : Nat} {rest : List Line}
    {read : List Line → Block} {action : Action}
    (h : (ofForm (Form.ofLine text) base rest).map read = .simple action) : action.blocks = [] := by
  have hshape := Form.wellShaped_ofLine text
  cases hform : Form.ofLine text with
  | simple own =>
      rw [hform] at h hshape
      cases h
      exact hshape
  | _ =>
      rw [hform] at h
      cases h

theorem blocks_map (read : α → β) (outline : Outline α) :
    (outline.map read).blocks = outline.blocks.map read := by
  cases outline with
  | choose branches => simp [map, blocks]
  | attempt body handler => cases handler <;> rfl
  | _ => rfl

theorem map_map (read : α → β) (again : β → γ) (outline : Outline α) :
    (outline.map read).map again = outline.map fun block => again (read block) := by
  cases outline with
  | choose branches => simp [map]
  | attempt body handler => cases handler <;> rfl
  | _ => rfl

theorem map_congr {f g : α → β} {outline : Outline α}
    (h : ∀ block ∈ outline.blocks, f block = g block) : outline.map f = outline.map g := by
  cases outline with
  | choose branches =>
      simp only [blocks, List.mem_map, forall_exists_index, and_imp] at h
      simp only [map, choose.injEq, List.map_inj_left]
      intro branch hbranch
      rw [h branch.2 branch hbranch rfl]
  | attempt body handler => cases handler <;> simp_all [map, blocks]
  | _ => simp_all [map, blocks]

end Outline

namespace Block

/-- Reading takes one statement off the front of the lines and goes on behind it. -/
theorem ofLinesFuel_cons (fuel : Nat) (header : Line) (rest : List Line) :
    ofLinesFuel (fuel + 1) (header :: rest) =
      ((Outline.ofForm (Form.ofLine header.text) header.indent rest).map (ofLinesFuel fuel)).statements
          header.number ++
        ofLinesFuel fuel (Outline.behind (Form.ofLine header.text) header.indent rest) := by
  simp only [ofLinesFuel]
  cases Form.ofLine header.text with
  | choose condition => simp [Outline.ofForm, Outline.map, Outline.statements, Outline.action?,
      Outline.behind]
  | _ => rfl

theorem ofLinesFuel_nil (fuel : Nat) : ofLinesFuel fuel [] = [] := by
  cases fuel <;> rfl

end Block

/-! ## Where the lines go -/

namespace Answers

/-- What one line does to the answers that have been collected. -/
def next (line : Line) : Collecting × Answers → Collecting × Answers
  | (.yes indent, answers) =>
    if indent < line.indent then (.yes indent, { answers with yes := answers.yes ++ [line] })
    else startLine line answers
  | (.no indent, answers) =>
    if indent < line.indent then (.no indent, { answers with no := answers.no ++ [line] })
    else startLine line answers
  | (.nothing, answers) => startLine line answers

theorem collect_cons (state : Collecting) (answers : Answers) (line : Line) (rest : List Line) :
    collect state answers (line :: rest) =
      collect (next line (state, answers)).1 (next line (state, answers)).2 rest := by
  cases state with
  | nothing => rfl
  | yes indent =>
      by_cases h : indent < line.indent
      · simp [collect, next, h]
      · simp [collect, next, h]
  | no indent =>
      by_cases h : indent < line.indent
      · simp [collect, next, h]
      · simp [collect, next, h]

/-- The lines of the answers, those of the first and then those of the second. -/
def all (answers : Answers) : List Line :=
  answers.yes ++ answers.no

/-- What became of some answers and of further lines: nothing was added to either answer but these
lines, in their order and none of them to both. -/
structure Within (answers : Answers) (lines : List Line) (later : Answers) : Prop where
  yes : later.yes.Sublist (answers.yes ++ lines)
  no : later.no.Sublist (answers.no ++ lines)
  all : later.all.Subperm (answers.all ++ lines)

theorem within_startLine (line : Line) (answers : Answers) :
    Within answers [line] (startLine line answers).2 := by
  -- A header starts its answer anew, and any other line leaves the answers as they are.
  have keeps {later : Answers} (hyes : later.yes.Sublist answers.yes)
      (hno : later.no.Sublist answers.no) : Within answers [line] later :=
    ⟨hyes.trans (List.sublist_append_left _ _), hno.trans (List.sublist_append_left _ _),
      ((hyes.append hno).trans (List.sublist_append_left _ _)).subperm⟩
  unfold startLine
  split
  · exact keeps (List.nil_sublist _) (List.Sublist.refl _)
  · split
    · exact keeps (List.Sublist.refl _) (List.nil_sublist _)
    · exact keeps (List.Sublist.refl _) (List.Sublist.refl _)

theorem within_next (line : Line) (state : Collecting) (answers : Answers) :
    Within answers [line] (next line (state, answers)).2 := by
  cases state with
  | nothing => exact within_startLine line answers
  | yes indent =>
      by_cases h : indent < line.indent
      · simp only [next, h, if_true]
        refine ⟨List.Sublist.refl _, List.sublist_append_left _ _, List.Perm.subperm ?_⟩
        simp only [all, List.append_assoc]
        exact List.perm_append_comm.append_left answers.yes
      · simp only [next, h, if_false]
        exact within_startLine line answers
  | no indent =>
      by_cases h : indent < line.indent
      · simp only [next, h, if_true]
        refine ⟨List.sublist_append_left _ _, List.Sublist.refl _, List.Perm.subperm ?_⟩
        simp only [all, List.append_assoc]
        exact List.Perm.refl _
      · simp only [next, h, if_false]
        exact within_startLine line answers

theorem Within.trans {first second third : Answers} {lines more : List Line}
    (h₁ : Within first lines second) (h₂ : Within second more third) :
    Within first (lines ++ more) third := by
  refine ⟨?_, ?_, ?_⟩
  · rw [← List.append_assoc]
    exact h₂.yes.trans (h₁.yes.append (List.Sublist.refl more))
  · rw [← List.append_assoc]
    exact h₂.no.trans (h₁.no.append (List.Sublist.refl more))
  · rw [← List.append_assoc]
    exact h₂.all.trans (h₁.all.append (List.Subperm.refl more))

theorem within_collect (state : Collecting) (answers : Answers) (lines : List Line) :
    Within answers lines (collect state answers lines) := by
  induction lines generalizing state answers with
  | nil =>
      simp only [collect]
      exact ⟨by simp, by simp, by simp [List.Subperm.refl]⟩
  | cons line rest ih =>
      rw [collect_cons]
      exact (within_next line state answers).trans (ih _ _)

end Answers

/-! ### Further branches -/

section FurtherBranches

variable {base : Nat} {lines : List Line} {header : Line} {condition : Option String}

/-- No further branch starts at the front of some lines. -/
def NoBranch (base : Nat) (lines : List Line) : Prop :=
  ∀ header rest, lines = header :: rest → header.indent = base → branchHeader? header.text = none

theorem furtherBranches_stop (h : NoBranch base lines) :
    furtherBranches base lines = ([], lines) := by
  cases lines with
  | nil => simp [furtherBranches]
  | cons header rest =>
      by_cases hindent : header.indent = base
      · simp [furtherBranches, hindent, h header rest rfl hindent]
      · simp [furtherBranches, hindent]

theorem furtherBranches_last (hindent : header.indent = base)
    (hheader : branchHeader? header.text = some (condition, true)) (rest : List Line) :
    furtherBranches base (header :: rest) =
      ([(condition, Line.deeper base rest)], Line.beyond base rest) := by
  simp [furtherBranches, hindent, hheader]

theorem furtherBranches_more (hindent : header.indent = base)
    (hheader : branchHeader? header.text = some (condition, false)) (rest : List Line) :
    furtherBranches base (header :: rest) =
      ((condition, Line.deeper base rest) :: (furtherBranches base (Line.beyond base rest)).1,
        (furtherBranches base (Line.beyond base rest)).2) := by
  rw [furtherBranches]
  simp [hindent, hheader]

/-- Induction over the further branches of a choice: there is none, or one that is the last, or one
with further ones behind its lines. -/
theorem furtherBranches_induction (base : Nat) {P : List Line → Prop}
    (stop : ∀ lines, NoBranch base lines → P lines)
    (last : ∀ header rest condition, header.indent = base →
      branchHeader? header.text = some (condition, true) → P (header :: rest))
    (more : ∀ header rest condition, header.indent = base →
      branchHeader? header.text = some (condition, false) → P (Line.beyond base rest) →
      P (header :: rest))
    (lines : List Line) : P lines := by
  induction lines using furtherBranches.induct base with
  | case1 => exact stop [] fun header rest h => by cases h
  | case2 line rest hindent =>
      refine stop _ fun header rest' h heq => ?_
      cases h
      simp [heq] at hindent
  | case3 line rest _ hheader =>
      refine stop _ fun header rest' h _ => ?_
      cases h
      exact hheader
  | case4 line rest hindent condition hheader =>
      exact last line rest condition (by simpa using hindent) hheader
  | case5 line rest hindent condition isLast hheader behind hlast _ _ _ ih =>
      have hfalse : isLast = false := by simpa using hlast
      rw [hfalse] at hheader
      exact more line rest condition (by simpa using hindent) hheader ih

theorem deeper_append_beyond (base : Nat) (lines : List Line) :
    Line.deeper base lines ++ Line.beyond base lines = lines :=
  List.takeWhile_append_dropWhile

theorem lt_indent_of_mem_deeper {line : Line} (h : line ∈ Line.deeper base lines) :
    base < line.indent := by
  simpa using List.mem_takeWhile_imp h

/-- Further branches take their headers and their lines off the front, in order. -/
theorem furtherBranches_sublist (base : Nat) (lines : List Line) :
    ((furtherBranches base lines).1.flatMap Prod.snd ++ (furtherBranches base lines).2).Sublist
      lines := by
  induction lines using furtherBranches_induction base with
  | stop lines h => simp [furtherBranches_stop h]
  | last header rest condition hindent hheader =>
      rw [furtherBranches_last hindent hheader]
      simp [deeper_append_beyond]
  | more header rest condition hindent hheader ih =>
      rw [furtherBranches_more hindent hheader]
      rw [List.flatMap_cons, List.append_assoc]
      have whole := (List.Sublist.refl (Line.deeper base rest)).append ih
      rw [deeper_append_beyond] at whole
      exact whole.cons header

theorem lt_indent_of_mem_furtherBranches {branch : Option String × List Line} {line : Line}
    (hbranch : branch ∈ (furtherBranches base lines).1) (hline : line ∈ branch.2) :
    base < line.indent := by
  induction lines using furtherBranches_induction base with
  | stop lines h => simp [furtherBranches_stop h] at hbranch
  | last header rest condition hindent hheader =>
      rw [furtherBranches_last hindent hheader] at hbranch
      obtain rfl := List.mem_singleton.mp hbranch
      exact lt_indent_of_mem_deeper hline
  | more header rest condition hindent hheader ih =>
      rw [furtherBranches_more hindent hheader] at hbranch
      rcases List.mem_cons.mp hbranch with rfl | hbranch
      · exact lt_indent_of_mem_deeper hline
      · exact ih hbranch

theorem length_deeper_add_length_beyond (base : Nat) (lines : List Line) :
    (Line.deeper base lines).length + (Line.beyond base lines).length = lines.length := by
  rw [← List.length_append, deeper_append_beyond]

/-- Each further branch uses up one line for its header. -/
theorem length_furtherBranches (base : Nat) (lines : List Line) :
    (furtherBranches base lines).1.length +
        ((furtherBranches base lines).1.flatMap Prod.snd).length +
        (furtherBranches base lines).2.length = lines.length := by
  induction lines using furtherBranches_induction base with
  | stop lines h => simp [furtherBranches_stop h]
  | last header rest condition hindent hheader =>
      have hrest := length_deeper_add_length_beyond base rest
      rw [furtherBranches_last hindent hheader]
      simp only [List.length_cons, List.length_nil, List.flatMap_cons, List.flatMap_nil,
        List.append_nil]
      omega
  | more header rest condition hindent hheader ih =>
      have hrest := length_deeper_add_length_beyond base rest
      rw [furtherBranches_more hindent hheader]
      simp only [List.length_cons, List.flatMap_cons, List.length_append]
      omega

end FurtherBranches

/-! ### Handlers -/

section Handler

variable {base : Nat} {lines : List Line} {header : Line}

/-- No handler starts at the front of some lines. -/
def NoHandler (base : Nat) (lines : List Line) : Prop :=
  ∀ header rest, lines = header :: rest → header.indent = base →
    Form.opensWith "handle:" header.text = false

theorem handler_none (h : NoHandler base lines) : handler base lines = (none, lines) := by
  cases lines with
  | nil => rfl
  | cons header rest =>
      by_cases hindent : header.indent = base
      · simp [handler, h header rest rfl hindent]
      · simp [handler, hindent]

theorem handler_some (hindent : header.indent = base)
    (hheader : Form.opensWith "handle:" header.text = true) (rest : List Line) :
    handler base (header :: rest) = (some (Line.deeper base rest), Line.beyond base rest) := by
  simp [handler, hindent, hheader]

/-- A handler starts at the front of some lines, or none does. -/
theorem handler_cases (base : Nat) (lines : List Line) :
    NoHandler base lines ∨ ∃ header rest, lines = header :: rest ∧ header.indent = base ∧
      Form.opensWith "handle:" header.text = true := by
  cases lines with
  | nil => exact .inl fun header rest h => by cases h
  | cons header rest =>
      by_cases h : header.indent = base ∧ Form.opensWith "handle:" header.text = true
      · exact .inr ⟨header, rest, rfl, h⟩
      · refine .inl fun header' rest' heq hindent => ?_
        cases heq
        simpa [hindent] using h

theorem handler_sublist (base : Nat) (lines : List Line) :
    ((handler base lines).1.toList.flatten ++ (handler base lines).2).Sublist lines := by
  rcases handler_cases base lines with h | ⟨header, rest, rfl, hindent, hheader⟩
  · simp [handler_none h]
  · simp [handler_some hindent hheader, deeper_append_beyond]

theorem lt_indent_of_mem_handler {block : List Line} {line : Line}
    (hblock : (handler base lines).1 = some block) (hline : line ∈ block) : base < line.indent := by
  rcases handler_cases base lines with h | ⟨header, rest, rfl, hindent, hheader⟩
  · rw [handler_none h] at hblock
    cases hblock
  · rw [handler_some hindent hheader] at hblock
    cases hblock
    exact lt_indent_of_mem_deeper hline

theorem length_handler (base : Nat) (lines : List Line) :
    (handler base lines).1.toList.length + (handler base lines).1.toList.flatten.length +
        (handler base lines).2.length = lines.length := by
  rcases handler_cases base lines with h | ⟨header, rest, rfl, hindent, hheader⟩
  · simp [handler_none h]
  · have hrest := length_deeper_add_length_beyond base rest
    rw [handler_some hindent hheader]
    simp only [Option.toList_some, List.length_cons, List.length_nil, List.flatten_cons,
      List.flatten_nil, List.append_nil]
    omega

end Handler

namespace Outline

variable {base : Nat} {rest : List Line} {form : Form}

/-- Everything in the blocks of a statement is indented deeper than its header. -/
theorem lt_indent_of_mem_blocks {block : List Line} {line : Line}
    (hblock : block ∈ (ofForm form base rest).blocks) (hline : line ∈ block) :
    base < line.indent := by
  cases form with
  | remark => simp [ofForm, blocks] at hblock
  | simple action => simp [ofForm, blocks] at hblock
  | question condition =>
      have within := Answers.within_collect .nothing {} (Line.deeper base rest)
      simp only [ofForm, blocks, List.mem_pair] at hblock
      rcases hblock with rfl | rfl
      · exact lt_indent_of_mem_deeper (within.yes.subset hline)
      · exact lt_indent_of_mem_deeper (within.no.subset hline)
  | choose condition =>
      simp only [ofForm, blocks, List.map_cons, List.mem_cons, List.mem_map] at hblock
      rcases hblock with rfl | ⟨branch, hbranch, rfl⟩
      · exact lt_indent_of_mem_deeper hline
      · exact lt_indent_of_mem_furtherBranches hbranch hline
  | attempt =>
      simp only [ofForm, blocks, List.mem_cons, Option.mem_toList] at hblock
      rcases hblock with rfl | hblock
      · exact lt_indent_of_mem_deeper hline
      · exact lt_indent_of_mem_handler hblock hline
  | _ =>
      simp only [ofForm, blocks, List.mem_singleton] at hblock
      subst hblock
      exact lt_indent_of_mem_deeper hline

/-- The lines in the blocks of a statement and those left behind it, block by block, are lines of the
rest in their order. Only the answers to a question may come in either order. -/
theorem flatten_blocks_sublist (h : form.isQuestion = false) :
    ((ofForm form base rest).blocks.flatten ++ behind form base rest).Sublist rest := by
  cases form with
  | question condition => cases h
  | choose condition =>
      have more := furtherBranches_sublist base (Line.beyond base rest)
      have whole := (List.Sublist.refl (Line.deeper base rest)).append more
      rw [deeper_append_beyond] at whole
      simpa [ofForm, blocks, behind, List.flatMap] using whole
  | attempt =>
      have more := handler_sublist base (Line.beyond base rest)
      have whole := (List.Sublist.refl (Line.deeper base rest)).append more
      rw [deeper_append_beyond] at whole
      simpa [ofForm, blocks, behind] using whole
  | remark => simp [ofForm, blocks, behind]
  | simple action => simp [ofForm, blocks, behind]
  | _ => simp [ofForm, blocks, behind, deeper_append_beyond]

/-- No line goes into two blocks, or both into a block and behind the statement. -/
theorem flatten_blocks_subperm (form : Form) (base : Nat) (rest : List Line) :
    ((ofForm form base rest).blocks.flatten ++ behind form base rest).Subperm rest := by
  cases h : form.isQuestion with
  | false => exact (flatten_blocks_sublist h).subperm
  | true =>
      cases form with
      | question condition =>
          have within := Answers.within_collect .nothing {} (Line.deeper base rest)
          have whole := within.all.append (List.Subperm.refl (Line.beyond base rest))
          have hbody : Answers.all {} ++ Line.deeper base rest ++ Line.beyond base rest = rest :=
            deeper_append_beyond base rest
          rw [hbody] at whole
          simpa [ofForm, blocks, behind, Answers.all, Answers.ofLines] using whole
      | _ => cases h

theorem block_sublist {block : List Line} (hblock : block ∈ (ofForm form base rest).blocks) :
    block.Sublist rest := by
  cases h : form.isQuestion with
  | false =>
      have inside := List.sublist_append_left (ofForm form base rest).blocks.flatten
        (behind form base rest)
      exact (List.sublist_flatten_of_mem hblock).trans (inside.trans (flatten_blocks_sublist h))
  | true =>
      cases form with
      | question condition =>
          have within := Answers.within_collect .nothing {} (Line.deeper base rest)
          have body : (Line.deeper base rest).Sublist rest := List.takeWhile_sublist _
          simp only [ofForm, blocks, List.mem_pair] at hblock
          rcases hblock with rfl | rfl
          · exact within.yes.trans body
          · exact within.no.trans body
      | _ => cases h

theorem behind_sublist (form : Form) (base : Nat) (rest : List Line) :
    (behind form base rest).Sublist rest := by
  cases h : form.isQuestion with
  | false =>
      exact (List.sublist_append_right _ _).trans (flatten_blocks_sublist h)
  | true =>
      cases form with
      | question condition => exact List.dropWhile_sublist _
      | _ => cases h

/-- How many lines behind its first one are headers of a statement. -/
def headers : Outline β → Nat
  | .choose branches => branches.length - 1
  | .attempt _ handler => handler.toList.length
  | _ => 0

/-- But for a question, every line goes somewhere. -/
theorem length_blocks (h : form.isQuestion = false) :
    (ofForm form base rest).headers + (ofForm form base rest).blocks.flatten.length +
        (behind form base rest).length = rest.length := by
  have hrest := length_deeper_add_length_beyond base rest
  cases form with
  | question condition => cases h
  | choose condition =>
      have more := length_furtherBranches base (Line.beyond base rest)
      simp only [ofForm, headers, blocks, behind, List.length_cons, List.map_cons,
        List.flatten_cons, List.length_append, List.flatMap] at more ⊢
      omega
  | attempt =>
      have more := length_handler base (Line.beyond base rest)
      simp only [ofForm, headers, blocks, behind, List.flatten_cons, List.length_append] at more ⊢
      omega
  | remark => simp [ofForm, headers, blocks, behind]
  | simple action => simp [ofForm, headers, blocks, behind]
  | _ =>
      simp only [ofForm, headers, blocks, behind, List.flatten_cons, List.flatten_nil,
        List.append_nil]
      omega

end Outline

namespace Block

/-- With as much fuel as there are lines, more makes no difference. -/
theorem ofLinesFuel_eq {fuel : Nat} {lines : List Line} (h : lines.length ≤ fuel) :
    ofLinesFuel fuel lines = ofLines lines := by
  suffices same : ∀ fuel fuel' (lines : List Line), lines.length ≤ fuel → lines.length ≤ fuel' →
      ofLinesFuel fuel lines = ofLinesFuel fuel' lines from same _ _ lines h (Nat.le_refl _)
  intro fuel
  induction fuel with
  | zero =>
      intro fuel' lines hfuel _
      obtain rfl := List.length_eq_zero_iff.mp (Nat.le_zero.mp hfuel)
      rw [ofLinesFuel_nil, ofLinesFuel_nil]
  | succ fuel ih =>
      intro fuel' lines hfuel hfuel'
      cases lines with
      | nil => rw [ofLinesFuel_nil, ofLinesFuel_nil]
      | cons header rest =>
          obtain ⟨fuel', rfl⟩ : ∃ n, fuel' = n + 1 := ⟨fuel' - 1, by simp at hfuel'; omega⟩
          have inside (some : List Line) (hsub : some.Sublist rest) :
              ofLinesFuel fuel some = ofLinesFuel fuel' some := by
            have hlength := hsub.length_le
            simp only [List.length_cons] at hfuel hfuel'
            exact ih fuel' some (by omega) (by omega)
          rw [ofLinesFuel_cons, ofLinesFuel_cons, inside _ (Outline.behind_sublist _ _ _),
            Outline.map_congr fun block hblock => inside block (Outline.block_sublist hblock)]

end Block

end Parlance
