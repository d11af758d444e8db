import Mathlib.Algebra.Ring.Nat
import Parlance.Proofs.Statement.Outline
import Parlance.Proofs.Statement.Source

/-!
# Every line is accounted for

The statements of a program have the numbers of its lines, none of them twice. What stands inside a
statement comes behind its header and is indented deeper. And where no question passes lines over and
no line is small talk, every line is a statement, a further branch of a choice, or a handler.
-/

namespace Parlance

/-! ## The statements of a tree -/

mutual

/-- The statements inside the blocks of an action, at any depth. -/
def Action.nested : Action → List Statement
  | .question _ yes no => Block.statements yes ++ Block.statements no
  | .choose branches => Branch.statements branches
  | .define _ _ body => Block.statements body
  | .attempt body none => Block.statements body
  | .attempt body (some handling) => Block.statements body ++ Block.statements handling
  | .loopWhile _ body => Block.statements body
  | .forEach _ _ body => Block.statements body
  | .loopTimes _ body => Block.statements body
  | _ => []

/-- The statements of a block and those inside them, at any depth. -/
def Block.statements : List Statement → List Statement
  | [] => []
  | .mk line a :: rest => .mk line a :: (a.nested ++ Block.statements rest)

/-- The statements in the bodies of branches, at any depth. -/
def Branch.statements : List Branch → List Statement
  | [] => []
  | .mk _ body :: rest => Block.statements body ++ Branch.statements rest

end

theorem Action.nested_eq (a : Action) : a.nested = a.blocks.flatMap Block.statements := by
  cases a with
  | choose branches =>
      simp only [Action.nested, Action.blocks]
      induction branches with
      | nil => simp [Branch.statements]
      | cons branch rest ih =>
          cases branch with
          | mk condition body => simp [Branch.statements, ih]
  | attempt body handler => cases handler <;> simp [Action.nested, Action.blocks]
  | _ => simp [Action.nested, Action.blocks]

theorem Block.statements_append (b c : Block) :
    Block.statements (b ++ c) = Block.statements b ++ Block.statements c := by
  induction b with
  | nil => simp [Block.statements]
  | cons s rest ih =>
      cases s with
      | mk line a => simp [Block.statements, ih]

/-- The further branches of a choice: all but the first one. -/
def Action.furtherBranches : Action → Nat
  | .choose branches => branches.length - 1
  | _ => 0

/-- The handlers of an attempt. -/
def Action.handlers : Action → Nat
  | .attempt _ (some _) => 1
  | _ => 0

namespace Outline

variable {outline : Outline Block} {a : Action}

theorem blocks_of_action? (hsimple : ∀ action, outline = .simple action → action.blocks = [])
    (h : outline.action? = some a) : a.blocks = outline.blocks := by
  cases outline with
  | simple action =>
      obtain rfl : action = a := Option.some.inj h
      exact hsimple action rfl
  | choose branches =>
      cases h
      simp [Action.blocks, blocks]
  | remark => cases h
  | _ =>
      cases h
      rfl

theorem headers_of_action? (hsimple : ∀ action, outline = .simple action → action.blocks = [])
    (h : outline.action? = some a) : a.furtherBranches + a.handlers = outline.headers := by
  cases outline with
  | simple action =>
      obtain rfl : action = a := Option.some.inj h
      have hblocks := hsimple action rfl
      cases action with
      | choose branches =>
          have hnil : branches = [] := by simpa [Action.blocks] using hblocks
          simp [hnil, Action.furtherBranches, Action.handlers, headers]
      | attempt body handler => cases hblocks
      | _ => rfl
  | choose branches =>
      cases h
      simp [Action.furtherBranches, Action.handlers, headers]
  | attempt body handler =>
      cases h
      cases handler <;> rfl
  | remark => cases h
  | _ =>
      cases h
      rfl

theorem headers_map (read : α → β) (outline : Outline α) :
    (outline.map read).headers = outline.headers := by
  cases outline with
  | choose branches => simp [map, headers]
  | attempt body handler => cases handler <;> rfl
  | _ => rfl

end Outline

/-! ## Reading lines -/

namespace Block

/-- A header of a statement, as it was read. -/
theorem statements_ofLinesFuel_cons (fuel : Nat) (header : Line) (rest : List Line) :
    let form := Form.ofLine header.text
    let outline := Outline.ofForm form header.indent rest
    let behind := Outline.behind form header.indent rest
    (form.isRemark = true ∧
        Block.statements (ofLinesFuel (fuel + 1) (header :: rest)) =
          Block.statements (ofLinesFuel fuel behind)) ∨
      ∃ a : Action, a.furtherBranches + a.handlers = outline.headers ∧
        a.nested = outline.blocks.flatMap (fun block => Block.statements (ofLinesFuel fuel block)) ∧
        Block.statements (ofLinesFuel (fuel + 1) (header :: rest)) =
          .mk header.number a :: (a.nested ++ Block.statements (ofLinesFuel fuel behind)) := by
  intro form outline behind
  have hsimple (action : Action) (h : outline.map (ofLinesFuel fuel) = .simple action) :
      action.blocks = [] := Outline.blockless_of_simple h
  rw [ofLinesFuel_cons, Block.statements_append]
  change _ ∨ ∃ a, _ ∧ _ ∧
    Block.statements ((outline.map (ofLinesFuel fuel)).statements header.number) ++ _ = _
  cases haction : (outline.map (ofLinesFuel fuel)).action? with
  | none =>
      have hremark : form.isRemark = true := by
        cases hform : form with
        | remark => rfl
        | _ =>
            simp only [outline, hform, Outline.ofForm, Outline.map, Outline.action?] at haction
            cases haction
      refine .inl ⟨hremark, ?_⟩
      change Block.statements ((outline.map (ofLinesFuel fuel)).statements header.number) ++ _ = _
      simp [Outline.statements, haction, Block.statements, behind, form]
  | some a =>
      refine .inr ⟨a, ?_, ?_, ?_⟩
      · rw [Outline.headers_of_action? hsimple haction, Outline.headers_map]
      · rw [Action.nested_eq, Outline.blocks_of_action? hsimple haction, Outline.blocks_map,
          List.flatMap_map]
      · simp [Outline.statements, haction, Block.statements, behind, form]

theorem subperm_map (f : α → β) {xs ys : List α} (h : xs.Subperm ys) :
    (xs.map f).Subperm (ys.map f) := by
  obtain ⟨zs, hperm, hsub⟩ := h
  exact ⟨zs.map f, hperm.map f, hsub.map f⟩

theorem subperm_flatMap {f g : α → List β} {xs : List α} (h : ∀ x ∈ xs, (f x).Subperm (g x)) :
    (xs.flatMap f).Subperm (xs.flatMap g) := by
  induction xs with
  | nil => simp
  | cons x xs ih =>
      rw [List.flatMap_cons, List.flatMap_cons]
      have hx := h x List.mem_cons_self
      have hxs := ih fun y hy => h y (List.mem_cons_of_mem x hy)
      exact hx.append hxs

theorem sum_flatMap {f : List α → List β} {weight : β → Nat} {xss : List (List α)}
    (h : ∀ xs ∈ xss, ((f xs).map weight).sum = xs.length) :
    ((xss.flatMap f).map weight).sum = xss.flatten.length := by
  induction xss with
  | nil => rfl
  | cons xs xss ih =>
      have hxs := h xs List.mem_cons_self
      have hrest := ih fun ys hys => h ys (List.mem_cons_of_mem xs hys)
      simp [hxs, hrest]

/-- The statements read from some lines have the numbers of these lines, each at most once. -/
theorem lines_subperm (fuel : Nat) (lines : List Line) :
    ((Block.statements (ofLinesFuel fuel lines)).map Statement.line).Subperm
      (lines.map Line.number) := by
  induction fuel generalizing lines with
  | zero => simp [ofLinesFuel, Block.statements]
  | succ fuel ih =>
      cases lines with
      | nil => simp [ofLinesFuel, Block.statements]
      | cons header rest =>
          have hparts := subperm_map Line.number
            (Outline.flatten_blocks_subperm (Form.ofLine header.text) header.indent rest)
          rw [List.map_append, List.map_flatten] at hparts
          rcases statements_ofLinesFuel_cons fuel header rest with ⟨_, hall⟩ | ⟨a, _, hnested, hall⟩
          · have hbehind := subperm_map Line.number
              (Outline.behind_sublist (Form.ofLine header.text) header.indent rest).subperm
            rw [hall, List.map_cons]
            exact ((ih _).trans hbehind).cons_right _
          · have hblocks := subperm_flatMap fun block (_ : block ∈ (Outline.ofForm
              (Form.ofLine header.text) header.indent rest).blocks) => ih block
            rw [hall, hnested, List.map_cons, List.map_cons, List.map_append, List.map_flatMap]
            exact (List.subperm_cons _).mpr ((hblocks.append (ih _)).trans hparts)

/-- A statement is nested below its header: what is inside it comes behind it and is indented
deeper. -/
theorem nested_below (fuel : Nat) {lines : List Line}
    (hnumbers : lines.Pairwise fun a b => a.number < b.number) {s : Statement}
    (hs : s ∈ Block.statements (ofLinesFuel fuel lines)) :
    ∃ header ∈ lines, header.number = s.line ∧ ∀ t ∈ s.action.nested, ∃ inner ∈ lines,
      inner.number = t.line ∧ header.number < inner.number ∧ header.indent < inner.indent := by
  induction fuel generalizing lines with
  | zero => simp [ofLinesFuel, Block.statements] at hs
  | succ fuel ih =>
      cases lines with
      | nil => simp [ofLinesFuel, Block.statements] at hs
      | cons header rest =>
          -- Whatever is read from lines of the rest has its header and what is inside it there.
          have later {part : List Line} (hpart : part.Sublist rest)
              (hs : s ∈ Block.statements (ofLinesFuel fuel part)) :
              ∃ outer ∈ header :: rest, outer.number = s.line ∧ ∀ t ∈ s.action.nested,
                ∃ inner ∈ header :: rest, inner.number = t.line ∧ outer.number < inner.number ∧
                  outer.indent < inner.indent := by
            have horder := (List.pairwise_cons.mp hnumbers).2.sublist hpart
            obtain ⟨outer, houter, hline, hinside⟩ := ih horder hs
            refine ⟨outer, List.mem_cons_of_mem _ (hpart.subset houter), hline, fun t ht => ?_⟩
            obtain ⟨inner, hinner, hbelow⟩ := hinside t ht
            exact ⟨inner, List.mem_cons_of_mem _ (hpart.subset hinner), hbelow⟩
          have hbehind := Outline.behind_sublist (Form.ofLine header.text) header.indent rest
          rcases statements_ofLinesFuel_cons fuel header rest with ⟨_, hall⟩ | ⟨a, _, hnested, hall⟩
          · rw [hall] at hs
            exact later hbehind hs
          · rw [hall] at hs
            rcases List.mem_cons.mp hs with rfl | hs
            · refine ⟨header, List.mem_cons_self, rfl, fun t ht => ?_⟩
              change t ∈ a.nested at ht
              rw [hnested] at ht
              obtain ⟨block, hblock, ht⟩ := List.mem_flatMap.mp ht
              have hline := (lines_subperm fuel block).subset (List.mem_map_of_mem ht)
              obtain ⟨inner, hinner, hnumber⟩ := List.mem_map.mp hline
              have hrest : inner ∈ rest := (Outline.block_sublist hblock).subset hinner
              exact ⟨inner, List.mem_cons_of_mem _ hrest, hnumber,
                (List.pairwise_cons.mp hnumbers).1 inner hrest,
                Outline.lt_indent_of_mem_blocks hblock hinner⟩
            · rcases List.mem_append.mp hs with hs | hs
              · rw [hnested] at hs
                obtain ⟨block, hblock, hs⟩ := List.mem_flatMap.mp hs
                exact later (Outline.block_sublist hblock) hs
              · exact later hbehind hs

/-- How many lines a statement takes for itself: one, and one for each further branch and each
handler. -/
def ownLines (s : Statement) : Nat :=
  1 + (s.action.furtherBranches + s.action.handlers)

/-- Without questions and small talk, the statements take up all lines. -/
theorem sum_ownLines (fuel : Nat) {lines : List Line} (hfuel : lines.length ≤ fuel)
    (hforms : ∀ line ∈ lines, (Form.ofLine line.text).isQuestion = false ∧
      (Form.ofLine line.text).isRemark = false) :
    ((Block.statements (ofLinesFuel fuel lines)).map ownLines).sum = lines.length := by
  induction fuel generalizing lines with
  | zero =>
      obtain rfl := List.length_eq_zero_iff.mp (Nat.le_zero.mp hfuel)
      simp [ofLinesFuel, Block.statements]
  | succ fuel ih =>
      cases lines with
      | nil => simp [ofLinesFuel, Block.statements]
      | cons header rest =>
          obtain ⟨hquestion, hremark⟩ := hforms header List.mem_cons_self
          have part {taken : List Line} (htaken : taken.Sublist rest) :
              ((Block.statements (ofLinesFuel fuel taken)).map ownLines).sum = taken.length := by
            have hlength := htaken.length_le
            simp only [List.length_cons] at hfuel
            exact ih (by omega) fun line hline =>
              hforms line (List.mem_cons_of_mem _ (htaken.subset hline))
          have hlength : _ = rest.length := @Outline.length_blocks header.indent rest _ hquestion
          rcases statements_ofLinesFuel_cons fuel header rest with
            ⟨htalk, _⟩ | ⟨a, hheaders, hnested, hall⟩
          · rw [hremark] at htalk
            cases htalk
          · have hblocks : (a.nested.map ownLines).sum = (Outline.ofForm
                (Form.ofLine header.text) header.indent rest).blocks.flatten.length := by
              rw [hnested]
              exact sum_flatMap fun block hblock => part (Outline.block_sublist hblock)
            have hbehind := part (Outline.behind_sublist (Form.ofLine header.text) header.indent rest)
            have hown : ownLines (.mk header.number a) = 1 + (a.furtherBranches + a.handlers) := rfl
            rw [hall, List.map_cons, List.sum_cons, List.map_append, List.sum_append, hblocks,
              hbehind, hown, hheaders, List.length_cons]
            omega

theorem sum_map_ownLines (tree : List Statement) : (tree.map ownLines).sum =
    tree.length + (tree.map fun s => s.action.furtherBranches).sum +
      (tree.map fun s => s.action.handlers).sum := by
  induction tree with
  | nil => rfl
  | cons s rest ih =>
      simp only [List.map_cons, List.sum_cons, List.length_cons, ih, ownLines]
      omega

/-- Reading a program loses no line, uses none twice and nests none wrongly. -/
theorem lines_are_accounted_for (source : String) :
    let lines := Line.ofProgram source.toList
    let tree := Block.statements (Block.ofProgram source)
    ((lines.map Line.number).Nodup ∧ (tree.map Statement.line).Nodup ∧
        ∀ s ∈ tree, ∃ line ∈ lines, line.number = s.line) ∧
      (∀ s ∈ tree, ∀ t ∈ s.action.nested, ∃ header ∈ lines, ∃ inner ∈ lines,
        header.number = s.line ∧ inner.number = t.line ∧
          header.number < inner.number ∧ header.indent < inner.indent) ∧
      ((∀ line ∈ lines, (Form.ofLine line.text).isQuestion = false ∧
          (Form.ofLine line.text).isRemark = false) →
        tree.length + (tree.map fun s => s.action.furtherBranches).sum +
          (tree.map fun s => s.action.handlers).sum = lines.length) := by
  intro lines tree
  have hnumbers : lines.Pairwise fun a b => a.number < b.number := Line.numbered_pairwise 0 _
  have hnodup : (lines.map Line.number).Nodup :=
    List.pairwise_map.mpr (hnumbers.imp fun h => Nat.ne_of_lt h)
  have hlines : (tree.map Statement.line).Subperm (lines.map Line.number) :=
    lines_subperm lines.length lines
  obtain ⟨used, hperm, hsub⟩ := hlines
  refine ⟨⟨hnodup, hperm.nodup_iff.mp (hnodup.sublist hsub), fun s hs => ?_⟩, ?_, fun hforms => ?_⟩
  · have hline : s.line ∈ used := hperm.mem_iff.mpr (List.mem_map_of_mem hs)
    exact List.mem_map.mp (hsub.subset hline)
  · intro s hs t ht
    obtain ⟨header, hheader, hnumber, hinside⟩ := nested_below lines.length hnumbers hs
    obtain ⟨inner, hinner, hinnerNumber, hbelow⟩ := hinside t ht
    exact ⟨header, hheader, inner, hinner, hnumber, hinnerNumber, hbelow⟩
  · have hsum := sum_ownLines lines.length (Nat.le_refl _) hforms
    rw [← sum_map_ownLines]
    exact hsum

/-- A choice with three branches, an attempt with its handler inside the second one: nine lines, six
statements. -/
theorem lines_are_accounted_for_in_choice :
    let source := "when x is 1:\n  show 1\nor when x is 2:\n  attempt:\n    show 2\n" ++
      "  handle:\n    show 3\notherwise:\n  show 4"
    let lines := Line.ofProgram source.toList
    let tree := Block.statements (Block.ofProgram source)
    (∀ line ∈ lines, (Form.ofLine line.text).isQuestion = false ∧
        (Form.ofLine line.text).isRemark = false) ∧
      tree.map Statement.line = [1, 2, 4, 5, 7, 9] ∧
      tree.length + (tree.map fun s => s.action.furtherBranches).sum +
        (tree.map fun s => s.action.handlers).sum = lines.length ∧ lines.length = 9 := by
  intro source lines tree
  have hforms : ∀ line ∈ lines, (Form.ofLine line.text).isQuestion = false ∧
      (Form.ofLine line.text).isRemark = false := by decide +kernel
  exact ⟨hforms, by decide +kernel, (lines_are_accounted_for source).2.2 hforms, by decide +kernel⟩

end Block

end Parlance
