import Parlance.Statement.Basic

/-!
# What is inside a block

A block contains the actions of its statements and, through the blocks that these hold, further
actions. Which blocks are looked into is a parameter: a signal to a loop passes through questions,
choices and attempts only, while everything but the body of a definition runs in place.
-/

namespace Parlance

/-- The blocks that an action holds. -/
def Action.blocks : Action → List Block
  | .question _ yes no => [yes, no]
  | .choose branches => branches.map fun | .mk _ body => body
  | .define _ _ body => [body]
  | .attempt body handler => body :: handler.toList
  | .loopWhile _ body => [body]
  | .forEach _ _ body => [body]
  | .loopTimes _ body => [body]
  | _ => []

/-- Whether an action runs one of its blocks, or several, in the place where it stands itself. -/
def Action.isBranching : Action → Bool
  | .question .. => true
  | .choose _ => true
  | .attempt .. => true
  | _ => false

/-- Whether an action runs its block in rounds. -/
def Action.isLoop : Action → Bool
  | .loopWhile .. => true
  | .forEach .. => true
  | .loopTimes .. => true
  | _ => false

/-- Whether an action runs its blocks itself; a definition keeps its block for later calls. -/
def Action.runsInPlace : Action → Bool
  | .define .. => false
  | _ => true

mutual

/-- The actions in the blocks of an action, looking into the actions that `enter` accepts. -/
def Action.inside (enter : Action → Bool) : Action → List Action
  | .question _ yes no => Block.actions enter yes ++ Block.actions enter no
  | .choose branches => Branch.actions enter branches
  | .define _ _ body => Block.actions enter body
  | .attempt body none => Block.actions enter body
  | .attempt body (some handling) => Block.actions enter body ++ Block.actions enter handling
  | .loopWhile _ body => Block.actions enter body
  | .forEach _ _ body => Block.actions enter body
  | .loopTimes _ body => Block.actions enter body
  | _ => []

/-- The actions of a block: those of its statements, each with the actions inside it if `enter`
accepts it. -/
def Block.actions (enter : Action → Bool) : List Statement → List Action
  | [] => []
  | .mk _ a :: rest => a :: ((if enter a then a.inside enter else []) ++ Block.actions enter rest)

/-- The actions of the bodies of branches. -/
def Branch.actions (enter : Action → Bool) : List Branch → List Action
  | [] => []
  | .mk _ body :: rest => Block.actions enter body ++ Branch.actions enter rest

end

/-- An action and, if `enter` accepts it, the actions inside it. -/
def Action.parts (enter : Action → Bool) (a : Action) : List Action :=
  a :: if enter a then a.inside enter else []

theorem Block.actions_cons (enter : Action → Bool) (s : Statement) (rest : Block) :
    Block.actions enter (s :: rest) = s.action.parts enter ++ Block.actions enter rest := by
  cases s with
  | mk line a =>
      rw [Block.actions, Action.parts, List.cons_append]
      rfl

theorem Branch.mem_actions {enter : Action → Bool} {branches : List Branch} {x : Action} :
    x ∈ Branch.actions enter branches ↔
      ∃ condition body, .mk condition body ∈ branches ∧ x ∈ Block.actions enter body := by
  induction branches with
  | nil => simp [Branch.actions]
  | cons branch rest ih =>
      cases branch with
      | mk condition body =>
          simp only [Branch.actions, List.mem_append, ih, List.mem_cons, Branch.mk.injEq]
          constructor
          · rintro (h | ⟨c, b, hb, hx⟩)
            · exact ⟨condition, body, .inl ⟨rfl, rfl⟩, h⟩
            · exact ⟨c, b, .inr hb, hx⟩
          · rintro ⟨c, b, ⟨rfl, rfl⟩ | hb, hx⟩
            · exact .inl hx
            · exact .inr ⟨c, b, hb, hx⟩

/-- What is inside an action is what its blocks contain. -/
theorem Action.mem_inside {enter : Action → Bool} {a x : Action} :
    x ∈ a.inside enter ↔ ∃ b ∈ a.blocks, x ∈ Block.actions enter b := by
  cases a with
  | choose branches =>
      simp only [Action.inside, Action.blocks, Branch.mem_actions, List.mem_map]
      constructor
      · rintro ⟨condition, body, hb, hx⟩
        exact ⟨body, ⟨_, hb, rfl⟩, hx⟩
      · rintro ⟨body, ⟨⟨condition, b⟩, hb, rfl⟩, hx⟩
        exact ⟨condition, b, hb, hx⟩
  | attempt body handler => cases handler <;> simp [Action.inside, Action.blocks]
  | _ => simp [Action.inside, Action.blocks]

/-- An action that is looked into has the actions of its blocks among its parts. -/
theorem Action.actions_subset_parts {enter : Action → Bool} {a : Action} {b : Block}
    (ha : enter a = true) (hb : b ∈ a.blocks) : Block.actions enter b ⊆ a.parts enter := by
  intro x hx
  simp only [Action.parts, ha, if_true, List.mem_cons]
  exact .inr (Action.mem_inside.mpr ⟨b, hb, hx⟩)

section Induction

set_option linter.unusedSectionVars false

variable {P : Action → Prop} {Q : Block → Prop}
  (action : ∀ a, (∀ b ∈ a.blocks, Q b) → P a) (nil : Q [])
  (cons : ∀ line a rest, P a → Q rest → Q (.mk line a :: rest))

include action nil cons

mutual

/-- Induction over programs: an action may assume of its blocks, and a block of its first action and
of the rest, what is to be shown. -/
theorem Action.induction : ∀ a : Action, P a
  | .question _ yes no => action _ (List.forall_mem_cons.mpr
      ⟨Block.induction yes, List.forall_mem_singleton.mpr (Block.induction no)⟩)
  | .choose branches => action _ (Branch.induction branches)
  | .define _ _ body => action _ (List.forall_mem_singleton.mpr (Block.induction body))
  | .attempt body none => action _ (List.forall_mem_singleton.mpr (Block.induction body))
  | .attempt body (some handling) => action _ (List.forall_mem_cons.mpr
      ⟨Block.induction body, List.forall_mem_singleton.mpr (Block.induction handling)⟩)
  | .loopWhile _ body => action _ (List.forall_mem_singleton.mpr (Block.induction body))
  | .forEach _ _ body => action _ (List.forall_mem_singleton.mpr (Block.induction body))
  | .loopTimes _ body => action _ (List.forall_mem_singleton.mpr (Block.induction body))
  | .assign .. | .forget _ | .adjust .. | .createObject .. | .changeProperty ..
  | .transferProperty .. | .call .. | .giveBack _ | .append .. | .remove .. | .ask .. | .display ..
  | .writeTo .. | .readInto .. | .changeCase .. | .leave | .next | .unknown _ =>
      action _ (List.forall_mem_nil _)

theorem Block.induction : ∀ b : List Statement, Q b
  | [] => nil
  | .mk line a :: rest => cons line a rest (Action.induction a) (Block.induction rest)

theorem Branch.induction :
    ∀ branches : List Branch, ∀ b ∈ (Action.choose branches).blocks, Q b
  | [] => List.forall_mem_nil _
  | .mk _ body :: rest =>
      List.forall_mem_cons.mpr ⟨Block.induction body, Branch.induction rest⟩

end

end Induction

/-! ## All actions -/

/-- The actions of a block and of all blocks in it, also of those that are kept for later calls. -/
abbrev Block.allActions (b : Block) : List Action :=
  Block.actions (fun _ => true) b

/-- Looking into fewer actions finds no others. -/
theorem Block.actions_subset_allActions (enter : Action → Bool) (b : Block) :
    Block.actions enter b ⊆ b.allActions := by
  refine Block.induction (P := fun a => a.parts enter ⊆ a.parts fun _ => true)
    (Q := fun b => Block.actions enter b ⊆ b.allActions) (fun a ih => ?_) (List.Subset.refl _)
    (fun line a rest ha hrest => ?_) b
  · intro x hx
    rcases List.mem_cons.mp hx with rfl | hx
    · exact List.mem_cons_self
    · split at hx
      · obtain ⟨inner, hinner, hx⟩ := Action.mem_inside.mp hx
        exact Action.actions_subset_parts rfl hinner (ih inner hinner hx)
      · cases hx
  · unfold Block.allActions
    rw [Block.actions_cons, Block.actions_cons]
    exact List.append_subset.mpr ⟨fun x hx => List.mem_append_left _ (ha hx),
      fun x hx => List.mem_append_right _ (hrest hx)⟩

/-- What is inside an action of a block is in the block. -/
theorem Block.mem_allActions_of_inside {b : Block} {a x : Action} (ha : a ∈ b.allActions)
    (hx : x ∈ a.inside fun _ => true) : x ∈ b.allActions := by
  refine Block.induction (P := fun c => a ∈ c.parts (fun _ => true) → x ∈ c.parts fun _ => true)
    (Q := fun b => a ∈ b.allActions → x ∈ b.allActions) (fun c ih hc => ?_) nofun
    (fun line c rest hc hrest h => ?_) b ha
  · rcases List.mem_cons.mp hc with rfl | hc
    · exact List.mem_cons_of_mem _ (by rwa [if_pos rfl])
    · rw [if_pos rfl] at hc
      obtain ⟨inner, hinner, hmem⟩ := Action.mem_inside.mp hc
      exact Action.actions_subset_parts rfl hinner (ih inner hinner hmem)
  · unfold Block.allActions at h ⊢
    rw [Block.actions_cons] at h ⊢
    rcases List.mem_append.mp h with h | h
    · exact List.mem_append_left _ (hc h)
    · exact List.mem_append_right _ (hrest h)

/-- Something holds of an action and of all actions inside it. -/
def Action.All (Q : Action → Prop) (a : Action) : Prop :=
  ∀ x ∈ a.parts fun _ => true, Q x

/-- Something holds of all actions of a block. -/
def Block.All (Q : Action → Prop) (b : Block) : Prop :=
  ∀ a ∈ b.allActions, Q a

section All

variable {Q : Action → Prop} {a x : Action} {b : Block}

theorem Action.All.self (h : a.All Q) : Q a :=
  h a List.mem_cons_self

theorem Block.All.of_mem (h : b.All Q) (ha : a ∈ b.allActions) : a.All Q := by
  intro x hx
  rcases List.mem_cons.mp hx with rfl | hx
  · exact h x ha
  · rw [if_pos rfl] at hx
    exact h x (Block.mem_allActions_of_inside ha hx)

theorem Block.All.first {s : Statement} {rest : Block} (h : Block.All Q (s :: rest)) :
    s.action.All Q := by
  intro x hx
  refine h x ?_
  rw [Block.allActions, Block.actions_cons]
  exact List.mem_append_left _ hx

theorem Block.All.rest {s : Statement} {rest : Block} (h : Block.All Q (s :: rest)) :
    rest.All Q := by
  intro x hx
  refine h x ?_
  rw [Block.allActions, Block.actions_cons]
  exact List.mem_append_right _ hx

theorem Action.All.block (h : a.All Q) (hb : b ∈ a.blocks) : b.All Q :=
  fun x hx => h x (Action.actions_subset_parts rfl hb hx)

theorem Action.All.of_part {enter : Action → Bool} (h : a.All Q) (hx : x ∈ a.parts enter) :
    x.All Q := by
  rcases List.mem_cons.mp hx with rfl | hx
  · exact h
  · split at hx
    · obtain ⟨b, hb, hx⟩ := Action.mem_inside.mp hx
      exact (h.block hb).of_mem (Block.actions_subset_allActions enter b hx)
    · cases hx

end All

end Parlance
