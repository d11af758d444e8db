import Parlance.Proofs.Machine.CleanFailure

/-!
# The statements that a run executes

Running a block comes to its statements one after another, and through compound statements and calls
to those of further blocks. What holds of every machine that such a run passes is carried from
statement to statement; and what every statement without a block does to the heap, a whole run does.
-/

namespace Parlance

namespace Exec

open Contract

/-! ## Rounds of loops -/

/-- Runs rounds until one of them ends the loop. -/
def loop : List (Exec Flow) → Exec Flow
  | [] => return .normal
  | round :: rounds => do
    let flow ← round
    afterRound (loop rounds) flow

/-- One round of a loop on a condition. -/
def whileRound (test : Exec Bool) (body : Exec Flow) : Exec Flow :=
  recover (do if ← test then body else return .leave) fun e => do
    report ("Error in while loop: " ++ e.message)
    return .leave

/-- One round of a loop over values. -/
def itemRound (name : String) (body : Exec Flow) (item : Value) : Exec Flow := do
  setVar name item
  body

theorem whileLoop_eq_loop (test : Exec Bool) (body : Exec Flow) (limit : Nat) :
    whileLoop test body limit = loop (List.replicate limit (whileRound test body)) := by
  induction limit with
  | zero => rfl
  | succ limit ih =>
      rw [whileLoop, ih]
      rfl

theorem forEachLoop_eq_loop (name : String) (body : Exec Flow) (items : List Value) :
    forEachLoop name body items = loop (items.map (itemRound name body)) := by
  induction items with
  | nil => rfl
  | cons item items ih =>
      rw [forEachLoop, ih]
      simp only [List.map_cons, loop, itemRound, bind_assoc]

theorem timesLoop_eq_loop (body : Exec Flow) (count : Nat) :
    timesLoop body count = loop (List.replicate count body) := by
  induction count with
  | zero => rfl
  | succ count ih =>
      rw [timesLoop, ih]
      rfl

/-- Rounds behind each of which the loop went on. -/
inductive WentOn : List (Exec Flow) → Machine → Machine → Prop
  | nil (m : Machine) : WentOn [] m m
  | cons {round : Exec Flow} {rounds : List (Exec Flow)} {m m₁ m₂ : Machine} {flow : Flow}
      (run : round m = (.ok flow, m₁)) (goesOn : flow = .normal ∨ flow = .next)
      (more : WentOn rounds m₁ m₂) : WentOn (round :: rounds) m m₂

/-! ## Executed statements -/

/-- An action, performed on one machine, comes to run one of its blocks on another. -/
inductive Enters : Action → Machine → Block → Machine → Prop
  | yes {condition : String} {yes no : Block} {m m₁ : Machine}
      (test : holds (Condition.toExpression condition) m = (.ok true, m₁)) :
      Enters (.question condition yes no) m yes m₁
  | no {condition : String} {yes no : Block} {m m₁ : Machine}
      (test : holds (Condition.toExpression condition) m = (.ok false, m₁)) :
      Enters (.question condition yes no) m no m₁
  | branch {before behind : List Branch} {condition : String} {body : Block} {m m₁ m₂ : Machine}
      (passed : PassedOver before m m₁)
      (test : holds (Condition.toExpression condition) m₁ = (.ok true, m₂)) :
      Enters (.choose (before ++ .mk (some condition) body :: behind)) m body m₂
  | otherwise {before behind : List Branch} {body : Block} {m m₁ : Machine}
      (passed : PassedOver before m m₁) :
      Enters (.choose (before ++ .mk none body :: behind)) m body m₁
  | attempt {body : Block} {handler : Option Block} {m : Machine} :
      Enters (.attempt body handler) m body m
  | handler {body handling : Block} {m m₁ : Machine} {e : Error}
      (failed : runBlock body m = (.error (.failed e), m₁)) :
      Enters (.attempt body (some handling)) m handling
        { m₁ with vars := m₁.vars.set errorName (.str e.message) }
  | whileRound {condition : String} {body : Block} {m m₁ m₂ : Machine} {count : Nat}
      (limit : count < m.settings.maxLoopIterations)
      (rounds : WentOn (List.replicate count
        (whileRound (holds (Condition.toExpression condition)) (runBlock body))) m m₁)
      (test : holds (Condition.toExpression condition) m₁ = (.ok true, m₂)) :
      Enters (.loopWhile condition body) m body m₂
  | itemRound {name iterable : String} {body : Block} {m m₁ m₂ : Machine} {v item : Value}
      {front back : List Value} (value : evaluate iterable m = (.ok v, m₁))
      (items : elements m₁.store.heap v = front ++ item :: back)
      (rounds : WentOn (front.map (itemRound name (runBlock body))) m₁ m₂) :
      Enters (.forEach name iterable body) m body { m₂ with vars := m₂.vars.set name item }
  | timesRound {times : String} {body : Block} {m m₁ m₂ : Machine} {v : Value} {limit : Int}
      {count : Nat} (value : evaluate times m = (.ok v, m₁)) (whole : repetitions v = .ok limit)
      (less : count < limit.toNat)
      (rounds : WentOn (List.replicate count (runBlock body)) m₁ m₂) :
      Enters (.loopTimes times body) m body m₂

/-- Running a block on one machine comes to execute a statement on another. The variables of the
calls that wait for it meanwhile are listed from the innermost one outwards. -/
inductive Executes : Block → Machine → List Bindings → Statement → Machine → Prop
  | here {s : Statement} {rest : Block} {m : Machine} : Executes (s :: rest) m [] s m
  | later {s s' : Statement} {rest : Block} {m m₁ m' : Machine} {waiting : List Bindings}
      (run : runStatement s m = (.ok .normal, m₁)) (more : Executes rest m₁ waiting s' m') :
      Executes (s :: rest) m waiting s' m'
  | inside {s s' : Statement} {rest inner : Block} {m m₁ m' : Machine} {waiting : List Bindings}
      (enters : Enters s.action m inner m₁) (more : Executes inner m₁ waiting s' m') :
      Executes (s :: rest) m waiting s' m'
  | called {s s' : Statement} {rest : Block} {name : String} {args : List String}
      {values : List Value} {function : Function} {m m₁ m' : Machine} {waiting : List Bindings}
      (call : s.action = .call name args) (evaluated : arguments args m = (.ok values, m₁))
      (found : m₁.functions.get? name = some function)
      (room : m₁.depth < m₁.settings.maxCallDepth)
      (more : Executes function.body (entering m₁ function values) waiting s' m') :
      Executes (s :: rest) m (waiting ++ [m₁.vars]) s' m'

theorem Enters.mem_blocks {a : Action} {b : Block} {m m₁ : Machine} (h : Enters a m b m₁) :
    b ∈ a.blocks := by
  cases h with
  | branch => simp [Action.blocks]
  | otherwise => simp [Action.blocks]
  | _ => simp [Action.blocks]

theorem Enters.runsInPlace {a : Action} {b : Block} {m m₁ : Machine} (h : Enters a m b m₁) :
    a.runsInPlace = true := by
  cases h <;> rfl

theorem runStatement_perform (s : Statement) (m : Machine) :
    runStatement s m = perform runBlock s.action m := by
  rw [runStatement_eq]
  cases s with
  | mk line a =>
      simp only [statement]
      rfl

/-- A statement without a block leaves what its computation leaves. -/
theorem runStatement_simple {s : Statement} {act : Exec Unit} (h : simple? s.action = some act)
    (m : Machine) : (runStatement s m).2 = (act m).2 := by
  rw [runStatement_perform, perform_simple h, bind_run]
  rcases act m with ⟨_ | _, _⟩ <;> rfl

theorem block_runBlock (b : Block) : block runBlock b = runBlock b :=
  funext fun m => (runBlock_eq b m).symm

end Exec

/-! ## Contracts along a run -/

/-- The action that defines a function. -/
def Function.definition (function : Function) : Action :=
  .define function.name function.params function.body

/-- Something holds of all that the functions of a machine are made of. -/
def Machine.FunctionsAll (Q : Action → Prop) (m : Machine) : Prop :=
  ∀ name function, m.functions.get? name = some function → function.definition.All Q

namespace Contract

open Exec

variable {c : Contract}

theorem Keeps.change_of_run {x : Exec α} (h : c.Keeps x) {m m₁ : Machine} {r : Except Halt α}
    (hm : c.start m) (hrun : x m = (r, m₁)) : c.change m m₁ := by
  have allowed := (h m hm).2.change
  rwa [hrun] at allowed

theorem change_of_passedOver (basic : c.Basic) {branches : List Branch} {m m₁ : Machine}
    (hm : c.start m) (h : PassedOver branches m m₁) : c.change m m₁ := by
  induction h with
  | nil m => exact c.refl m
  | cons fails _ ih =>
      have first := (basic.holds _).change_of_run hm fails
      exact c.trans first (ih (c.keeps hm first))

theorem change_of_wentOn {rounds : List (Exec Flow)} {m m₁ : Machine} (hm : c.start m)
    (h : WentOn rounds m m₁) (keeps : ∀ round ∈ rounds, c.Keeps round) : c.change m m₁ := by
  induction h with
  | nil m => exact c.refl m
  | cons run _ _ ih =>
      have first := (keeps _ List.mem_cons_self).change_of_run hm run
      have others := fun round h => keeps round (List.mem_cons_of_mem _ h)
      exact c.trans first (ih (c.keeps hm first) others)

theorem keeps_whileRound (basic : c.Basic) {test : Exec Bool} {body : Exec Flow}
    (htest : c.Keeps test) (hbody : c.Keeps body) : c.Keeps (whileRound test body) := by
  refine Agree.recover (htest.bind fun holds _ => ?_) fun e => ?_
  · cases holds with
    | true => exact hbody
    | false => exact .pure trivial
  · exact (basic.print _).bind fun _ _ => .pure trivial

/-- A block whose actions are covered is run within the contract. -/
theorem keeps_runBlock (basic : c.Basic) {b : Block}
    (covered : ∀ x ∈ Block.actions Action.runsInPlace b, c.Covers runBlock runBlock x) :
    c.Keeps (runBlock b) := by
  rw [← block_runBlock]
  exact (block_agrees basic b covered).weaken fun _ _ => trivial

theorem keeps_runStatement (basic : c.Basic) {s : Statement}
    (covered : ∀ x ∈ s.action.parts Action.runsInPlace, c.Covers runBlock runBlock x) :
    c.Keeps (runStatement s) := by
  have hsame : runStatement s = perform runBlock s.action := funext (runStatement_perform s)
  rw [hsame]
  exact (action_agrees basic s.action covered).weaken fun _ _ => trivial

/-- On the way to a block of a covered action, a machine changes within the contract. -/
theorem change_of_enters (basic : c.Basic) {a : Action} {b : Block} {m m₁ : Machine}
    (covered : ∀ x ∈ a.parts Action.runsInPlace, c.Covers runBlock runBlock x) (hm : c.start m)
    (h : Enters a m b m₁) : c.change m m₁ := by
  have own := covered a List.mem_cons_self
  have bodies : ∀ inner ∈ a.blocks, c.Keeps (runBlock inner) := fun inner hinner =>
    keeps_runBlock basic fun x hx =>
      covered x (Action.actions_subset_parts h.runsInPlace hinner hx)
  cases h with
  | yes test => exact (basic.holds _).change_of_run hm test
  | no test => exact (basic.holds _).change_of_run hm test
  | branch passed test =>
      have first := change_of_passedOver basic hm passed
      exact c.trans first ((basic.holds _).change_of_run (c.keeps hm first) test)
  | otherwise passed => exact change_of_passedOver basic hm passed
  | attempt => exact c.refl m
  | @handler _ _ _ _ e failed =>
      have first := (bodies _ List.mem_cons_self).change_of_run hm failed
      have hset : c.Keeps (setVar errorName (.str e.message)) := own _
      exact c.trans first (hset.change_of_run (c.keeps hm first) rfl)
  | whileRound _ rounds test =>
      have first := change_of_wentOn hm rounds fun round hmem => by
        rw [List.eq_of_mem_replicate hmem]
        exact keeps_whileRound basic (basic.holds _) (bodies _ List.mem_cons_self)
      exact c.trans first ((basic.holds _).change_of_run (c.keeps hm first) test)
  | @itemRound name _ _ _ _ _ _ item _ _ value _ rounds =>
      have hset : ∀ v, c.Keeps (setVar name v) := own
      have first := (basic.evaluate _).change_of_run hm value
      have second := change_of_wentOn (c.keeps hm first) rounds fun round hmem => by
        obtain ⟨w, -, rfl⟩ := List.mem_map.mp hmem
        exact (hset w).bind fun _ _ => bodies _ List.mem_cons_self
      have both := c.trans first second
      exact c.trans both ((hset item).change_of_run (c.keeps hm both) rfl)
  | timesRound value _ _ rounds =>
      have first := (basic.evaluate _).change_of_run hm value
      have second := change_of_wentOn (c.keeps hm first) rounds fun round hmem =>
        List.eq_of_mem_replicate hmem ▸ bodies _ List.mem_cons_self
      exact c.trans first second

/-- If the contract covers all actions of a kind, given that it is kept by the bodies of functions
that are made of such actions, then it is kept by all such blocks. The induction is on the fuel. -/
theorem keeps_of_all (basic : c.Basic) (hexhausted : c.halt .exhausted) {Q : Action → Prop}
    (covers : ∀ r : Block → Exec Flow, (∀ b : Block, b.All Q → c.Keeps (r b)) →
      ∀ a : Action, a.All Q → c.Covers r r a) {b : Block} (hb : b.All Q) :
    c.Keeps (runBlock b) := by
  have each (fuel : Nat) (b : Block) (hb : b.All Q) : c.Keeps (blockFuel fuel b) := by
    induction fuel generalizing b with
    | zero =>
        intro m hm
        exact ⟨rfl, c.refl m, fun h hh => Except.error.inj hh ▸ hexhausted, nofun⟩
    | succ fuel ih =>
        refine (block_agrees basic b fun a ha => ?_).weaken fun _ _ => trivial
        exact covers _ ih a (hb.of_mem (Block.actions_subset_allActions _ b ha))
  intro m hm
  exact each (m.settings.maxCallDepth + 1) b hb m hm

/-- A contract that also allows what happens when a call starts is kept up to every statement that
is executed, and this statement is of the kind that the block and all functions are made of. -/
theorem change_of_executes (basic : c.Basic) {Q : Action → Prop}
    (stocked : ∀ {m}, c.start m → m.FunctionsAll Q)
    (covers : ∀ a : Action, a.All Q → c.Covers runBlock runBlock a)
    (calls : ∀ {m function} values, c.start m → function.definition.All Q →
      c.change m (entering m function values))
    {b : Block} {m m' : Machine} {waiting : List Bindings} {s : Statement}
    (h : Executes b m waiting s m') (hb : b.All Q) (hm : c.start m) :
    c.change m m' ∧ s.action.All Q := by
  induction h with
  | here => exact ⟨c.refl _, hb.first⟩
  | later run _ ih =>
      have first := (keeps_runStatement basic fun x hx =>
        covers x (hb.first.of_part hx)).change_of_run hm run
      obtain ⟨change, hs⟩ := ih hb.rest (c.keeps hm first)
      exact ⟨c.trans first change, hs⟩
  | inside enters _ ih =>
      have first := change_of_enters basic (fun x hx => covers x (hb.first.of_part hx)) hm enters
      obtain ⟨change, hs⟩ := ih (hb.first.block enters.mem_blocks) (c.keeps hm first)
      exact ⟨c.trans first change, hs⟩
  | @called _ _ _ _ _ values _ _ _ _ _ _ evaluated found _ _ ih =>
      have first := (basic.arguments _).change_of_run hm evaluated
      have hstart := c.keeps hm first
      have definition := stocked hstart _ _ found
      have second := c.trans first (calls values hstart definition)
      obtain ⟨change, hs⟩ := ih (definition.block List.mem_cons_self) (c.keeps hm second)
      exact ⟨c.trans second change, hs⟩

end Contract

end Parlance
