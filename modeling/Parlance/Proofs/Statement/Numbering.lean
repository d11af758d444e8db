import Mathlib.Data.List.Forall2
import Parlance.Proofs.Statement.Outline

/-!
# Numbers and indentations of lines

Statements remember the numbers of their lines. Reading lines does nothing else with the numbers, and
with the indentations it does nothing but compare them. So lines that correspond in their texts and
in how their indentations compare are read alike, and what the statements of one list of lines say is
what those of the other say, with other numbers.
-/

namespace Parlance

/-! ## Other numbers for the same statements -/

mutual

/-- The action with other numbers for the lines of the statements inside it. -/
def Action.renumber (f : Nat → Nat) : Action → Action
  | .question condition yes no => .question condition (Block.renumber f yes) (Block.renumber f no)
  | .choose branches => .choose (Branch.renumber f branches)
  | .define name params body => .define name params (Block.renumber f body)
  | .attempt body none => .attempt (Block.renumber f body) none
  | .attempt body (some handling) =>
    .attempt (Block.renumber f body) (some (Block.renumber f handling))
  | .loopWhile condition body => .loopWhile condition (Block.renumber f body)
  | .forEach item iterable body => .forEach item iterable (Block.renumber f body)
  | .loopTimes count body => .loopTimes count (Block.renumber f body)
  | a => a

/-- The block with other numbers for all its lines, down to those of its innermost statements. -/
def Block.renumber (f : Nat → Nat) : List Statement → List Statement
  | [] => []
  | .mk line a :: rest => .mk (f line) (a.renumber f) :: Block.renumber f rest

/-- The branches with other numbers for the lines of their statements. -/
def Branch.renumber (f : Nat → Nat) : List Branch → List Branch
  | [] => []
  | .mk condition body :: rest => .mk condition (Block.renumber f body) :: Branch.renumber f rest

end

/-- What a block says, without the numbers of its lines. -/
def Block.unnumbered (b : Block) : Block :=
  Block.renumber (fun _ => 0) b

theorem Block.renumber_append (f : Nat → Nat) (b c : Block) :
    Block.renumber f (b ++ c) = Block.renumber f b ++ Block.renumber f c := by
  induction b with
  | nil => simp [Block.renumber]
  | cons s rest ih =>
      cases s with
      | mk line a => simp [Block.renumber, ih]

theorem Branch.renumber_eq (f : Nat → Nat) (branches : List Branch) :
    Branch.renumber f branches =
      branches.map fun | .mk condition body => .mk condition (Block.renumber f body) := by
  induction branches with
  | nil => simp [Branch.renumber]
  | cons branch rest ih =>
      cases branch with
      | mk condition body => simp [Branch.renumber, ih]

theorem Branch.renumber_eq_map (f : Nat → Nat) (branches : List (Option String × Block)) :
    Branch.renumber f (branches.map fun branch => .mk branch.1 branch.2) =
      branches.map fun branch => .mk branch.1 (Block.renumber f branch.2) := by
  rw [Branch.renumber_eq, List.map_map]
  rfl

theorem Action.renumber_of_blockless {a : Action} (h : a.blocks = []) (f : Nat → Nat) :
    a.renumber f = a := by
  cases a with
  | choose branches =>
      have hnil : branches = [] := by simpa [Action.blocks] using h
      simp [hnil, Action.renumber, Branch.renumber]
  | question condition yes no => cases h
  | define name params body => cases h
  | attempt body handler => cases h
  | loopWhile condition body => cases h
  | forEach item iterable body => cases h
  | loopTimes count body => cases h
  | _ => simp [Action.renumber]

theorem Block.renumber_renumber (f g : Nat → Nat) (b : Block) :
    Block.renumber g (Block.renumber f b) = Block.renumber (fun n => g (f n)) b := by
  refine Block.induction (P := fun a => (a.renumber f).renumber g = a.renumber fun n => g (f n))
    (Q := fun b => Block.renumber g (Block.renumber f b) = Block.renumber (fun n => g (f n)) b)
    ?_ ?_ ?_ b
  · intro a ih
    cases a with
    | choose branches =>
        simp only [Action.renumber, Branch.renumber_eq, List.map_map, Action.choose.injEq]
        refine List.map_congr_left fun branch hb => ?_
        obtain ⟨condition, body⟩ := branch
        exact congrArg (Branch.mk condition) (ih body (List.mem_map.mpr ⟨_, hb, rfl⟩))
    | attempt body handler =>
        cases handler <;> simp_all [Action.renumber, Action.blocks]
    | _ => simp_all [Action.renumber, Action.blocks]
  · simp [Block.renumber]
  · intro line a rest ha hrest
    simp [Block.renumber, ha, hrest]

theorem Block.renumber_id (b : Block) : Block.renumber id b = b := by
  refine Block.induction (P := fun a => a.renumber id = a) (Q := fun b => Block.renumber id b = b)
    ?_ ?_ ?_ b
  · intro a ih
    cases a with
    | choose branches =>
        simp only [Action.renumber, Branch.renumber_eq, Action.choose.injEq]
        refine (List.map_congr_left fun branch hb => ?_).trans (List.map_id branches)
        obtain ⟨condition, body⟩ := branch
        exact congrArg (Branch.mk condition) (ih body (List.mem_map.mpr ⟨_, hb, rfl⟩))
    | attempt body handler =>
        cases handler <;> simp_all [Action.renumber, Action.blocks]
    | _ => simp_all [Action.renumber, Action.blocks]
  · simp [Block.renumber]
  · intro line a rest ha hrest
    simp [Block.renumber, ha, hrest]

theorem Block.unnumbered_renumber (f : Nat → Nat) (b : Block) :
    Block.unnumbered (Block.renumber f b) = Block.unnumbered b :=
  Block.renumber_renumber f (fun _ => 0) b

/-! ## Lines that correspond -/

/-- A correspondence between lines: those that correspond have the same text, and any two of them are
indented one deeper than the other exactly if their counterparts are. -/
structure Line.Correspondence (S : Line → Line → Prop) : Prop where
  text : ∀ {a a' : Line}, S a a' → a.text = a'.text
  indent : ∀ {a a' b b' : Line}, S a a' → S b b' → (a.indent ≤ b.indent ↔ a'.indent ≤ b'.indent)

theorem forall₂_takeWhile {R : α → β → Prop} {p : α → Bool} {q : β → Bool} {xs : List α}
    {ys : List β} (hpq : ∀ {x y}, R x y → p x = q y) (h : List.Forall₂ R xs ys) :
    List.Forall₂ R (xs.takeWhile p) (ys.takeWhile q) ∧
      List.Forall₂ R (xs.dropWhile p) (ys.dropWhile q) := by
  induction h with
  | nil => simp
  | @cons x y xs ys hxy hrest ih =>
      have hsame := hpq hxy
      cases hx : p x with
      | true =>
          have hy : q y = true := hsame ▸ hx
          simp only [List.takeWhile_cons, List.dropWhile_cons, hx, hy, if_true]
          exact ⟨.cons hxy ih.1, ih.2⟩
      | false =>
          have hy : q y = false := hsame ▸ hx
          simp only [List.takeWhile_cons, List.dropWhile_cons, hx, hy]
          exact ⟨.nil, .cons hxy hrest⟩

namespace Line.Correspondence

variable {S : Line → Line → Prop} (hS : Line.Correspondence S)

include hS

theorem lt_iff {a a' b b' : Line} (ha : S a a') (hb : S b b') :
    a.indent < b.indent ↔ a'.indent < b'.indent := by
  have := hS.indent hb ha
  omega

theorem eq_iff {a a' b b' : Line} (ha : S a a') (hb : S b b') :
    a.indent = b.indent ↔ a'.indent = b'.indent := by
  have hle := hS.indent ha hb
  have hge := hS.indent hb ha
  omega

/-- Corresponding headers own corresponding lines. -/
theorem deeper_beyond {a a' : Line} (ha : S a a') {lines lines' : List Line}
    (h : List.Forall₂ S lines lines') :
    List.Forall₂ S (Line.deeper a.indent lines) (Line.deeper a'.indent lines') ∧
      List.Forall₂ S (Line.beyond a.indent lines) (Line.beyond a'.indent lines') := by
  refine forall₂_takeWhile ?_ h
  intro b b' hb
  have := hS.lt_iff ha hb
  simp [this]

end Line.Correspondence

/-! ### Answers -/

namespace Answers

variable {S : Line → Line → Prop}

/-- Two states of collecting, below headers that correspond. -/
inductive Collecting.Alike (S : Line → Line → Prop) : Collecting → Collecting → Prop
  | nothing : Alike S .nothing .nothing
  | yes {a a' : Line} (h : S a a') : Alike S (.yes a.indent) (.yes a'.indent)
  | no {a a' : Line} (h : S a a') : Alike S (.no a.indent) (.no a'.indent)

/-- Answers whose lines correspond. -/
structure Alike (S : Line → Line → Prop) (x y : Answers) : Prop where
  yes : List.Forall₂ S x.yes y.yes
  no : List.Forall₂ S x.no y.no

theorem startLine_alike (hS : Line.Correspondence S) {x y : Answers} {a a' : Line} (ha : S a a')
    (h : Alike S x y) :
    Collecting.Alike S (startLine a x).1 (startLine a' y).1 ∧
      Alike S (startLine a x).2 (startLine a' y).2 := by
  unfold startLine
  rw [← hS.text ha]
  split
  · exact ⟨.yes ha, .nil, h.no⟩
  · split
    · exact ⟨.no ha, h.yes, .nil⟩
    · exact ⟨.nothing, h⟩

theorem next_alike (hS : Line.Correspondence S) {state state' : Collecting} {x y : Answers}
    {a a' : Line} (ha : S a a') (hstate : Collecting.Alike S state state') (h : Alike S x y) :
    Collecting.Alike S (next a (state, x)).1 (next a' (state', y)).1 ∧
      Alike S (next a (state, x)).2 (next a' (state', y)).2 := by
  have start := startLine_alike hS ha h
  cases hstate with
  | nothing => exact start
  | @yes b b' hb =>
      have hlt := hS.lt_iff hb ha
      by_cases hdeep : b.indent < a.indent
      · simp only [next, hdeep, hlt.mp hdeep, if_true]
        exact ⟨.yes hb, List.rel_append h.yes (.cons ha .nil), h.no⟩
      · simp only [next, hdeep, mt hlt.mpr hdeep, if_false]
        exact start
  | @no b b' hb =>
      have hlt := hS.lt_iff hb ha
      by_cases hdeep : b.indent < a.indent
      · simp only [next, hdeep, hlt.mp hdeep, if_true]
        exact ⟨.no hb, h.yes, List.rel_append h.no (.cons ha .nil)⟩
      · simp only [next, hdeep, mt hlt.mpr hdeep, if_false]
        exact start

theorem collect_alike (hS : Line.Correspondence S) {state state' : Collecting} {x y : Answers}
    {lines lines' : List Line} (hlines : List.Forall₂ S lines lines')
    (hstate : Collecting.Alike S state state') (h : Alike S x y) :
    Alike S (collect state x lines) (collect state' y lines') := by
  induction hlines generalizing state state' x y with
  | nil => simpa [collect] using h
  | cons ha _ ih =>
      rw [collect_cons, collect_cons]
      have step := next_alike hS ha hstate h
      exact ih step.1 step.2

end Answers

/-! ### Further branches and handlers -/

section Groups

variable {S : Line → Line → Prop}

/-- Branches with the same condition and lines that correspond. -/
def BranchAlike (S : Line → Line → Prop) (x y : Option String × List Line) : Prop :=
  x.1 = y.1 ∧ List.Forall₂ S x.2 y.2

theorem furtherBranches_alike (hS : Line.Correspondence S) {a a' : Line} (ha : S a a')
    {lines lines' : List Line} (h : List.Forall₂ S lines lines') :
    List.Forall₂ (BranchAlike S) (furtherBranches a.indent lines).1
        (furtherBranches a'.indent lines').1 ∧
      List.Forall₂ S (furtherBranches a.indent lines).2 (furtherBranches a'.indent lines').2 := by
  induction lines using furtherBranches_induction a.indent generalizing lines' with
  | stop lines hstop =>
      have hstop' : NoBranch a'.indent lines' := by
        rintro header' rest' rfl hindent'
        obtain ⟨header, rest, hheader, -, rfl⟩ := List.forall₂_cons_right_iff.mp h
        have hindent : header.indent = a.indent := (hS.eq_iff hheader ha).mpr hindent'
        rw [← hS.text hheader]
        exact hstop header rest rfl hindent
      rw [furtherBranches_stop hstop, furtherBranches_stop hstop']
      exact ⟨.nil, h⟩
  | last header rest condition hindent hbranch =>
      obtain ⟨header', rest', hheader, hrest, rfl⟩ := List.forall₂_cons_left_iff.mp h
      have hindent' : header'.indent = a'.indent := (hS.eq_iff hheader ha).mp hindent
      have hbranch' := hbranch
      rw [hS.text hheader] at hbranch'
      have parts := hS.deeper_beyond ha hrest
      rw [furtherBranches_last hindent hbranch, furtherBranches_last hindent' hbranch']
      exact ⟨.cons ⟨rfl, parts.1⟩ .nil, parts.2⟩
  | more header rest condition hindent hbranch ih =>
      obtain ⟨header', rest', hheader, hrest, rfl⟩ := List.forall₂_cons_left_iff.mp h
      have hindent' : header'.indent = a'.indent := (hS.eq_iff hheader ha).mp hindent
      have hbranch' := hbranch
      rw [hS.text hheader] at hbranch'
      have parts := hS.deeper_beyond ha hrest
      have further := ih parts.2
      rw [furtherBranches_more hindent hbranch, furtherBranches_more hindent' hbranch']
      exact ⟨.cons ⟨rfl, parts.1⟩ further.1, further.2⟩

theorem handler_alike (hS : Line.Correspondence S) {a a' : Line} (ha : S a a')
    {lines lines' : List Line} (h : List.Forall₂ S lines lines') :
    Option.Rel (List.Forall₂ S) (handler a.indent lines).1 (handler a'.indent lines').1 ∧
      List.Forall₂ S (handler a.indent lines).2 (handler a'.indent lines').2 := by
  cases h with
  | nil => exact ⟨.none, .nil⟩
  | @cons header header' rest rest' hheader hrest =>
      have heq := hS.eq_iff hheader ha
      have parts := hS.deeper_beyond ha hrest
      by_cases hindent : header.indent = a.indent ∧ Form.opensWith "handle:" header.text = true
      · have hopens := hindent.2
        rw [hS.text hheader] at hopens
        rw [handler_some hindent.1 hindent.2, handler_some (heq.mp hindent.1) hopens]
        exact ⟨.some parts.1, parts.2⟩
      · have hnone : NoHandler a.indent (header :: rest) := by
          intro _ _ hcons hat
          cases hcons
          simpa [hat] using hindent
        have hnone' : NoHandler a'.indent (header' :: rest') := by
          intro _ _ hcons hat
          cases hcons
          rw [← hS.text hheader]
          exact hnone header rest rfl (heq.mpr hat)
        rw [handler_none hnone, handler_none hnone']
        exact ⟨.none, .cons hheader hrest⟩

end Groups

/-! ### Outlines -/

namespace Outline

/-- Outlines that differ in their blocks only, and there are related. -/
inductive Alike (R : α → β → Prop) : Outline α → Outline β → Prop
  | remark : Alike R .remark .remark
  | simple (action : Action) : Alike R (.simple action) (.simple action)
  | question (condition : String) {yes no : α} {yes' no' : β} (hyes : R yes yes') (hno : R no no') :
      Alike R (.question condition yes no) (.question condition yes' no')
  | choose {branches : List (Option String × α)} {branches' : List (Option String × β)}
      (h : List.Forall₂ (fun x y => x.1 = y.1 ∧ R x.2 y.2) branches branches') :
      Alike R (.choose branches) (.choose branches')
  | define (name : String) (params : List String) {body : α} {body' : β} (h : R body body') :
      Alike R (.define name params body) (.define name params body')
  | attempt {body : α} {body' : β} {handler : Option α} {handler' : Option β} (h : R body body')
      (hhandler : Option.Rel R handler handler') :
      Alike R (.attempt body handler) (.attempt body' handler')
  | loopWhile (condition : String) {body : α} {body' : β} (h : R body body') :
      Alike R (.loopWhile condition body) (.loopWhile condition body')
  | forEach (item iterable : String) {body : α} {body' : β} (h : R body body') :
      Alike R (.forEach item iterable body) (.forEach item iterable body')
  | loopTimes (count : String) {body : α} {body' : β} (h : R body body') :
      Alike R (.loopTimes count body) (.loopTimes count body')

theorem Alike.map_eq {R : α → β → Prop} {f : α → γ} {g : β → γ} {x : Outline α} {y : Outline β}
    (h : Alike R x y) (hfg : ∀ {a b}, R a b → f a = g b) : x.map f = y.map g := by
  cases h with
  | choose h =>
      simp only [map, choose.injEq]
      induction h with
      | nil => rfl
      | cons hbranch _ ih => simp [hbranch.1, hfg hbranch.2, ih]
  | attempt h hhandler =>
      cases hhandler with
      | none => simp [map, hfg h]
      | some hhandling => simp [map, hfg h, hfg hhandling]
  | question condition hyes hno => simp [map, hfg hyes, hfg hno]
  | define name params h => simp [map, hfg h]
  | loopWhile condition h => simp [map, hfg h]
  | forEach item iterable h => simp [map, hfg h]
  | loopTimes count h => simp [map, hfg h]
  | remark => rfl
  | simple action => rfl

/-- Headers of one form that correspond have outlines that do, and leave corresponding lines. -/
theorem ofForm_alike {S : Line → Line → Prop} (hS : Line.Correspondence S) {a a' : Line}
    (ha : S a a') {rest rest' : List Line} (h : List.Forall₂ S rest rest') (form : Form) :
    Alike (List.Forall₂ S) (ofForm form a.indent rest) (ofForm form a'.indent rest') ∧
      List.Forall₂ S (behind form a.indent rest) (behind form a'.indent rest') := by
  obtain ⟨body, left⟩ := hS.deeper_beyond ha h
  cases form with
  | remark => exact ⟨.remark, h⟩
  | simple action => exact ⟨.simple action, h⟩
  | question condition =>
      have answers := Answers.collect_alike (x := {}) (y := {}) hS body .nothing ⟨.nil, .nil⟩
      exact ⟨.question condition answers.yes answers.no, left⟩
  | choose condition =>
      have further := furtherBranches_alike hS ha left
      exact ⟨.choose (.cons ⟨rfl, body⟩ further.1), further.2⟩
  | attempt =>
      have handling := handler_alike hS ha left
      exact ⟨.attempt body handling.1, handling.2⟩
  | define name params => exact ⟨.define name params body, left⟩
  | loopWhile condition => exact ⟨.loopWhile condition body, left⟩
  | forEach item iterable => exact ⟨.forEach item iterable body, left⟩
  | loopTimes count => exact ⟨.loopTimes count body, left⟩

theorem renumber_statements {outline : Outline Block}
    (hsimple : ∀ action, outline = .simple action → action.blocks = []) (f : Nat → Nat)
    (number : Nat) :
    Block.renumber f (outline.statements number) =
      (outline.map (Block.renumber f)).statements (f number) := by
  cases outline with
  | remark => rfl
  | simple action =>
      have hsame := Action.renumber_of_blockless (hsimple action rfl) f
      simp [map, statements, action?, Block.renumber, hsame]
  | choose branches =>
      simp [map, statements, action?, Block.renumber, Action.renumber, Branch.renumber_eq_map]
  | attempt body handler =>
      cases handler <;> simp [map, statements, action?, Block.renumber, Action.renumber]
  | _ => simp [map, statements, action?, Block.renumber, Action.renumber]

end Outline

namespace Block

/-- Lines that correspond are read alike, and the statements have the corresponding numbers. -/
theorem ofLinesFuel_corresponding {S : Line → Line → Prop} (hS : Line.Correspondence S)
    {f : Nat → Nat} (hnumber : ∀ {a a'}, S a a' → a'.number = f a.number) (fuel : Nat)
    {lines lines' : List Line} (h : List.Forall₂ S lines lines') :
    ofLinesFuel fuel lines' = Block.renumber f (ofLinesFuel fuel lines) := by
  induction fuel generalizing lines lines' with
  | zero => simp [ofLinesFuel, Block.renumber]
  | succ fuel ih =>
      cases h with
      | nil => simp [ofLinesFuel_nil, Block.renumber]
      | @cons header header' rest rest' hheader hrest =>
          rw [ofLinesFuel_cons, ofLinesFuel_cons, Block.renumber_append,
            Outline.renumber_statements (fun _ => Outline.blockless_of_simple), Outline.map_map,
            hnumber hheader, ← hS.text hheader]
          obtain ⟨halike, hbehind⟩ :=
            Outline.ofForm_alike hS hheader hrest (Form.ofLine header.text)
          rw [ih hbehind, halike.map_eq fun hblock => (ih hblock).symm]

theorem ofLines_corresponding {S : Line → Line → Prop} (hS : Line.Correspondence S)
    {f : Nat → Nat} (hnumber : ∀ {a a'}, S a a' → a'.number = f a.number)
    {lines lines' : List Line} (h : List.Forall₂ S lines lines') :
    ofLines lines' = Block.renumber f (ofLines lines) := by
  unfold ofLines
  rw [← h.length_eq]
  exact ofLinesFuel_corresponding hS hnumber lines.length h

end Block

end Parlance
