import Parlance.Proofs.Machine.Simple
import Parlance.Proofs.Statement.Contents

/-!
# Runs stay within contracts

If everything that the actions in a block do on their own stays within a contract, then so does
running the block, whatever its conditions, loops and handlers lead to. The flow in which it ends
comes from an action in it: a signal to a loop from one that no loop stands around, a value that is
given back from one outside definitions.
-/

namespace Parlance

/-- The flows that actions can send: `near` are those whose signals to a loop get through, `far`
those that can give back a value. -/
def Flow.SentBy (near far : List Action) : Flow → Prop
  | .normal => True
  | .leave => .leave ∈ near
  | .next => .next ∈ near
  | .giveBack _ => ∃ text, .giveBack text ∈ far

theorem Flow.SentBy.mono {near near' far far' : List Action} {flow : Flow}
    (hnear : near ⊆ near') (hfar : far ⊆ far') (h : flow.SentBy near far) :
    flow.SentBy near' far' := by
  cases flow with
  | normal => trivial
  | leave => exact hnear h
  | next => exact hnear h
  | giveBack v =>
      obtain ⟨text, h⟩ := h
      exact ⟨text, hfar h⟩

/-- The flows that an action can end with. -/
def Action.CanEnd (a : Action) : Flow → Prop :=
  Flow.SentBy (a.parts Action.isBranching) (a.parts Action.runsInPlace)

/-- The flows that a block can end with. -/
def Block.CanEnd (b : Block) : Flow → Prop :=
  Flow.SentBy (Block.actions Action.isBranching b) (Block.actions Action.runsInPlace b)

/-- A branching action passes on the flows of its blocks. -/
theorem Action.canEnd_of_branching {a : Action} {b : Block} (ha : a.isBranching = true)
    (hb : b ∈ a.blocks) {flow : Flow} (h : Block.CanEnd b flow) : a.CanEnd flow := by
  have hrun : a.runsInPlace = true := by
    cases a <;> first | rfl | cases ha
  exact h.mono (Action.actions_subset_parts ha hb) (Action.actions_subset_parts hrun hb)

/-- A loop keeps the signals of its block to itself. -/
theorem Action.canEnd_of_loop {a : Action} {b : Block} (ha : a.runsInPlace = true)
    (hb : b ∈ a.blocks) {flow : Flow} (h : Contract.loopFlows (Block.CanEnd b) flow) :
    a.CanEnd flow := by
  cases flow with
  | normal => trivial
  | leave => exact h.elim
  | next => exact h.elim
  | giveBack v =>
      obtain ⟨text, h⟩ := h
      exact ⟨text, Action.actions_subset_parts ha hb h⟩

/-! ## Calls -/

namespace Exec

variable {r : Block → Exec Flow} {name : String} {args : List Value} {m : Machine}

theorem call_undefined (h : m.functions.get? name = none) :
    call r name args m = (.error (.failed (.undefinedFunction name)), m) := by
  simp only [call, h]

theorem call_tooDeep {function : Function} (h : m.functions.get? name = some function)
    (hdepth : m.settings.maxCallDepth ≤ m.depth) :
    call r name args m = (.error (.failed .callsTooDeep), m) := by
  simp only [call, h, hdepth, if_true]

/-- The machine on which the body of a called function starts. -/
def entering (m : Machine) (function : Function) (args : List Value) : Machine :=
  { m with vars := frame m.vars function.params args, depth := m.depth + 1 }

/-- What a caller gets when the body of a called function has ended. -/
def returning (caller : Machine) (ended : Except Halt Flow × Machine) :
    Except Halt (Option Value) × Machine :=
  (ended.1 >>= callResult, { ended.2 with vars := caller.vars, depth := ended.2.depth - 1 })

theorem call_enters {function : Function} (h : m.functions.get? name = some function)
    (hdepth : m.depth < m.settings.maxCallDepth) :
    call r name args m = returning m (r function.body (entering m function args)) := by
  simp only [call, h, Nat.not_le.mpr hdepth, if_false]
  rfl

/-- A call runs out of fuel only in the body of the function. -/
theorem exhausted_of_returning {caller : Machine} {ended : Except Halt Flow × Machine}
    (h : (returning caller ended).1 = .error .exhausted) : ended.1 = .error .exhausted := by
  rcases ended with ⟨outcome, m₁⟩
  cases outcome with
  | error e =>
      cases h
      rfl
  | ok flow =>
      cases flow with
      | giveBack v => cases v <;> cases h
      | _ => cases h

/-- What a call does: fail at once, or run a body and return. -/
theorem call_cases (name : String) (args : List Value) (m : Machine) :
    (∃ e, ∀ r : Block → Exec Flow, call r name args m = (.error (.failed e), m)) ∨
      ∃ function, m.functions.get? name = some function ∧ m.depth < m.settings.maxCallDepth := by
  cases h : m.functions.get? name with
  | none => exact .inl ⟨_, fun r => call_undefined h⟩
  | some function =>
      by_cases hdepth : m.settings.maxCallDepth ≤ m.depth
      · exact .inl ⟨_, fun r => call_tooDeep h hdepth⟩
      · exact .inr ⟨function, rfl, Nat.lt_of_not_le hdepth⟩

end Exec

namespace Contract

open Exec

variable {c : Contract} {r r' : Block → Exec Flow}

/-! ## The parts of a run -/

/-- What every statement may do stays within a contract: evaluating expressions and printing. -/
structure Basic (c : Contract) : Prop where
  evaluate : ∀ text, c.Keeps (evaluate text)
  print : ∀ text, c.Keeps (print text)
  failure : ∀ e, c.halt (.failed e)

/-- What an action does on its own stays within a contract, where `r` and `r'` are two ways to run
the body of a called function. -/
def Covers (c : Contract) (r r' : Block → Exec Flow) : Action → Prop
  | .call name _ =>
    (∀ args, c.Agree (fun _ => True) (call r name args) (call r' name args)) ∧
      ∀ v, c.Keeps (setVar lastResult v)
  | .attempt _ (some _) => ∀ v, c.Keeps (setVar errorName v)
  | .forEach item _ _ => ∀ v, c.Keeps (setVar item v)
  | a => ∀ act, simple? a = some act → c.Keeps act

/-- An action is covered if its own computation is, and the calls and bindings that it can make. -/
theorem covers_of_parts {a : Action} (hsimple : ∀ act, simple? a = some act → c.Keeps act)
    (hset : ∀ n ∈ a.binds, ∀ v, c.Keeps (setVar n v))
    (hcall : ∀ name args, c.Agree (fun _ => True) (call r name args) (call r' name args)) :
    c.Covers r r' a := by
  cases a with
  | call name args => exact ⟨hcall name, hset lastResult List.mem_cons_self⟩
  | attempt body handler =>
      cases handler with
      | none => exact hsimple
      | some handling => exact hset errorName List.mem_cons_self
  | forEach item iterable body => exact hset item List.mem_cons_self
  | _ => exact hsimple

theorem Basic.holds (basic : c.Basic) (expression : String) : c.Keeps (holds expression) :=
  (basic.evaluate expression).bind fun _ _ => Keeps.heap.bind fun _ _ => .pure trivial

theorem Basic.arguments (basic : c.Basic) (args : List String) : c.Keeps (arguments args) := by
  induction args with
  | nil => exact .pure trivial
  | cons arg args ih =>
      exact (basic.evaluate arg).bind fun _ _ => ih.bind fun _ _ => .pure trivial

/-- What is to be shown of an action. -/
def ActionAgrees (c : Contract) (r r' : Block → Exec Flow) (a : Action) : Prop :=
  (∀ x ∈ a.parts Action.runsInPlace, c.Covers r r' x) →
    c.Agree a.CanEnd (perform r a) (perform r' a)

/-- What is to be shown of a block. -/
def BlockAgrees (c : Contract) (r r' : Block → Exec Flow) (b : Block) : Prop :=
  (∀ x ∈ Block.actions Action.runsInPlace b, c.Covers r r' x) →
    c.Agree (Block.CanEnd b) (block r b) (block r' b)

theorem agree_simple {a : Action} {act : Exec Unit} (h : simple? a = some act) (hact : c.Keeps act) :
    c.Agree a.CanEnd (perform r a) (perform r' a) := by
  rw [perform_simple h, perform_simple h]
  exact hact.bind fun _ _ => .pure trivial

theorem agree_question (basic : c.Basic) {F : Flow → Prop} (hnormal : F .normal) (condition : String)
    {yes no : Block} (hyes : c.Agree F (block r yes) (block r' yes))
    (hno : c.Agree F (block r no) (block r' no)) :
    c.Agree F (perform r (.question condition yes no)) (perform r' (.question condition yes no)) := by
  simp only [perform]
  refine Agree.recover ?_ fun e => ?_
  · refine (basic.holds _).bind fun test _ => ?_
    cases test with
    | true => exact hyes
    | false => exact hno
  · exact (basic.print _).bind fun _ _ => .pure hnormal

theorem agree_choose (basic : c.Basic) {F : Flow → Prop} (hnormal : F .normal)
    (branches : List Branch)
    (h : ∀ condition body, .mk condition body ∈ branches →
      c.Agree F (block r body) (block r' body)) :
    c.Agree F (choose r branches) (choose r' branches) := by
  induction branches with
  | nil =>
      simp only [choose]
      exact .pure hnormal
  | cons branch rest ih =>
      rcases branch with ⟨_ | condition, body⟩
      · simp only [choose]
        exact h _ body List.mem_cons_self
      · simp only [choose]
        have hbody := h _ body List.mem_cons_self
        have hrest := ih fun condition body hb => h condition body (List.mem_cons_of_mem _ hb)
        refine Agree.bind (F := fun outcome => ∀ flow, outcome = some flow → F flow)
          (Agree.recover ?_ fun e => ?_) fun outcome houtcome => ?_
        · refine (basic.holds _).bind fun test _ => ?_
          cases test with
          | true =>
              refine hbody.bind fun flow hflow => .pure fun flow' h => ?_
              cases h
              exact hflow
          | false => exact .pure fun flow h => by cases h
        · refine (basic.print _).bind fun _ _ => .pure fun flow h => ?_
          cases h
          exact hnormal
        · cases outcome with
          | some flow => exact .pure (houtcome flow rfl)
          | none => exact hrest

theorem agree_call (basic : c.Basic) {F : Flow → Prop} (hnormal : F .normal) {name : String}
    (args : List String)
    (hcall : ∀ values, c.Agree (fun _ => True) (call r name values) (call r' name values))
    (hset : ∀ v, c.Keeps (setVar lastResult v)) :
    c.Agree F (perform r (.call name args)) (perform r' (.call name args)) := by
  simp only [perform]
  refine (basic.arguments args).bind fun values _ => (hcall values).bind fun result _ => ?_
  cases result with
  | some v => exact (hset v).bind fun _ _ => .pure hnormal
  | none => exact .pure hnormal

theorem agree_attempt (basic : c.Basic) {F : Flow → Prop} (hnormal : F .normal) {body : Block}
    {handler : Option Block} (hbody : c.Agree F (block r body) (block r' body))
    (hhandler : ∀ handling, handler = some handling →
      (∀ v, c.Keeps (setVar errorName v)) ∧ c.Agree F (block r handling) (block r' handling)) :
    c.Agree F (perform r (.attempt body handler)) (perform r' (.attempt body handler)) := by
  cases handler with
  | none =>
      simp only [perform]
      exact hbody.recover fun e => (basic.print _).bind fun _ _ => .pure hnormal
  | some handling =>
      obtain ⟨hset, hhandling⟩ := hhandler handling rfl
      simp only [perform]
      exact hbody.recover fun e => (hset _).bind fun _ _ => hhandling

theorem agree_loopWhile (basic : c.Basic) {F : Flow → Prop} (condition : String) {body : Block}
    (hbody : c.Agree F (block r body) (block r' body)) :
    c.Agree (loopFlows F) (perform r (.loopWhile condition body))
      (perform r' (.loopWhile condition body)) := by
  simp only [perform]
  exact Keeps.get.bind fun m _ => .whileLoop basic.print (basic.holds _) hbody _

theorem agree_forEach (basic : c.Basic) {F : Flow → Prop} {item : String} (iterable : String)
    {body : Block} (hset : ∀ v, c.Keeps (setVar item v))
    (hbody : c.Agree F (block r body) (block r' body)) :
    c.Agree (loopFlows F) (perform r (.forEach item iterable body))
      (perform r' (.forEach item iterable body)) := by
  simp only [perform]
  refine (basic.evaluate iterable).bind fun v _ => ?_
  exact Keeps.heap.bind fun heap _ => .forEachLoop hset hbody _

theorem agree_loopTimes (basic : c.Basic) {F : Flow → Prop} (count : String) {body : Block}
    (hbody : c.Agree F (block r body) (block r' body)) :
    c.Agree (loopFlows F) (perform r (.loopTimes count body))
      (perform r' (.loopTimes count body)) := by
  simp only [perform]
  refine (basic.evaluate count).bind fun v _ => ?_
  cases repetitions v with
  | ok times => exact .timesLoop hbody _
  | error e => exact .fail (basic.failure e)

/-- One action: its own work is covered, and its blocks agree. -/
theorem perform_agrees (basic : c.Basic) (a : Action)
    (ih : ∀ b ∈ a.blocks, c.BlockAgrees r r' b) : c.ActionAgrees r r' a := by
  intro covered
  have own : c.Covers r r' a := covered a List.mem_cons_self
  -- Blocks are looked at only where the action runs them, so not for a definition.
  have inner : a.runsInPlace = true →
      ∀ b ∈ a.blocks, c.Agree (Block.CanEnd b) (block r b) (block r' b) :=
    fun ha b hb => ih b hb fun x hx => covered x (Action.actions_subset_parts ha hb hx)
  cases a with
  | question condition yes no =>
      have hyes := inner rfl yes (by simp [Action.blocks])
      have hno := inner rfl no (by simp [Action.blocks])
      exact agree_question basic trivial condition
        (hyes.weaken fun _ => Action.canEnd_of_branching rfl (by simp [Action.blocks]))
        (hno.weaken fun _ => Action.canEnd_of_branching rfl (by simp [Action.blocks]))
  | choose branches =>
      simp only [perform]
      refine agree_choose basic trivial branches fun condition body hb => ?_
      have hmem : body ∈ (Action.choose branches).blocks := List.mem_map.mpr ⟨_, hb, rfl⟩
      exact (inner rfl body hmem).weaken fun _ => Action.canEnd_of_branching rfl hmem
  | call name args => exact agree_call basic trivial args own.1 own.2
  | giveBack value =>
      simp only [perform]
      exact (basic.evaluate value).bind fun v _ => .pure ⟨value, List.mem_cons_self⟩
  | attempt body handler =>
      have hbody := inner rfl body (by simp [Action.blocks])
      refine agree_attempt basic trivial
        (hbody.weaken fun _ => Action.canEnd_of_branching rfl (by simp [Action.blocks]))
        fun handling hh => ?_
      subst hh
      have hhandling := inner rfl handling (by simp [Action.blocks])
      exact ⟨own,
        hhandling.weaken fun _ => Action.canEnd_of_branching rfl (by simp [Action.blocks])⟩
  | loopWhile condition body =>
      have hbody := inner rfl body (by simp [Action.blocks])
      exact (agree_loopWhile basic condition hbody).weaken fun _ =>
        Action.canEnd_of_loop rfl (by simp [Action.blocks])
  | forEach item iterable body =>
      have hbody := inner rfl body (by simp [Action.blocks])
      exact (agree_forEach basic iterable own hbody).weaken fun _ =>
        Action.canEnd_of_loop rfl (by simp [Action.blocks])
  | loopTimes count body =>
      have hbody := inner rfl body (by simp [Action.blocks])
      exact (agree_loopTimes basic count hbody).weaken fun _ =>
        Action.canEnd_of_loop rfl (by simp [Action.blocks])
  | leave =>
      simp only [perform]
      exact .pure List.mem_cons_self
  | next =>
      simp only [perform]
      exact .pure List.mem_cons_self
  | _ => exact agree_simple rfl (own _ rfl)

theorem block_agrees_cons (line : Nat) (a : Action) (rest : Block) (ha : c.ActionAgrees r r' a)
    (hrest : c.BlockAgrees r r' rest) : c.BlockAgrees r r' (.mk line a :: rest) := by
  intro covered
  rw [Block.actions_cons] at covered
  have hfirst := ha fun x hx => covered x (List.mem_append_left _ hx)
  have hlast := hrest fun x hx => covered x (List.mem_append_right _ hx)
  have near := Block.actions_cons Action.isBranching (.mk line a) rest
  have far := Block.actions_cons Action.runsInPlace (.mk line a) rest
  have first_le : ∀ flow, a.CanEnd flow → Block.CanEnd (.mk line a :: rest) flow := by
    intro flow h
    unfold Block.CanEnd
    rw [near, far]
    exact h.mono (List.subset_append_left _ _) (List.subset_append_left _ _)
  have last_le : ∀ flow, Block.CanEnd rest flow → Block.CanEnd (.mk line a :: rest) flow := by
    intro flow h
    unfold Block.CanEnd
    rw [near, far]
    exact h.mono (List.subset_append_right _ _) (List.subset_append_right _ _)
  simp only [block, statement]
  refine hfirst.bind fun flow hflow => ?_
  cases flow with
  | normal => exact hlast.weaken last_le
  | leave => exact .pure (first_le _ hflow)
  | next => exact .pure (first_le _ hflow)
  | giveBack v => exact .pure (first_le _ hflow)

/-- A block stays within a contract that covers the actions it runs. -/
theorem block_agrees (basic : c.Basic) (b : Block) : c.BlockAgrees r r' b := by
  refine Block.induction (perform_agrees basic) ?_ block_agrees_cons b
  intro _
  simp only [block]
  exact .pure trivial

/-- An action stays within a contract that covers it and the actions that it runs. -/
theorem action_agrees (basic : c.Basic) (a : Action) : c.ActionAgrees r r' a :=
  perform_agrees basic a fun b _ => block_agrees basic b

end Contract

end Parlance
