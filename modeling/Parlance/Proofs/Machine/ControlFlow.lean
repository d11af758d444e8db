import Parlance.Proofs.Machine.Termination

/-!
# Where a flow comes from

A block ends in a signal to a loop only if it contains the statement that sends it, outside all
loops and definitions, and gives back a value only if it contains a statement for that outside all
definitions. So a signal never gets out of a loop, and nothing but a failure out of a call.
-/

namespace Parlance

namespace Exec

open Contract

variable {m m' : Machine} {flow : Flow}

theorem runBlock_canEnd {b : Block} (h : runBlock b m = (.ok flow, m')) : Block.CanEnd b flow :=
  (runBlock_allowed b m).result flow (congrArg Prod.fst h)

theorem runStatement_canEnd {s : Statement} (h : runStatement s m = (.ok flow, m')) :
    s.action.CanEnd flow :=
  (runStatement_allowed s m).result flow (congrArg Prod.fst h)

/-- A loop sends no signal to another loop. -/
theorem ne_signal_of_loop {a : Action} (ha : a.isLoop = true) (h : a.CanEnd flow) :
    flow ≠ .leave ∧ flow ≠ .next := by
  have own : a.parts Action.isBranching = [a] := by cases a <;> cases ha <;> rfl
  constructor
  · rintro rfl
    change Action.leave ∈ a.parts Action.isBranching at h
    rw [own, List.mem_singleton] at h
    subst h
    cases ha
  · rintro rfl
    change Action.next ∈ a.parts Action.isBranching at h
    rw [own, List.mem_singleton] at h
    subst h
    cases ha

/-- A call sends nothing. -/
theorem eq_normal_of_call {name : String} {args : List String}
    (h : (Action.call name args).CanEnd flow) : flow = .normal := by
  cases flow with
  | normal => rfl
  | leave => cases List.mem_singleton.mp h
  | next => cases List.mem_singleton.mp h
  | giveBack v =>
      obtain ⟨text, h⟩ := h
      cases List.mem_singleton.mp h

/-- Every flow has its source in the program text: a signal to a loop in a statement that is reached
through questions, choices and attempts only, a value that is given back in a statement outside
definitions. In particular loops send no signals, and calls go on normally. -/
theorem flows_have_sources (m m' : Machine) :
    (∀ b, runBlock b m = (.ok .leave, m') → .leave ∈ Block.actions Action.isBranching b) ∧
      (∀ b, runBlock b m = (.ok .next, m') → .next ∈ Block.actions Action.isBranching b) ∧
      (∀ b v, runBlock b m = (.ok (.giveBack v), m') →
        ∃ text, .giveBack text ∈ Block.actions Action.runsInPlace b) ∧
      (∀ line a flow, a.isLoop = true → runStatement (.mk line a) m = (.ok flow, m') →
        flow ≠ .leave ∧ flow ≠ .next) ∧
      ∀ line name args flow, runStatement (.mk line (.call name args)) m = (.ok flow, m') →
        flow = .normal := by
  refine ⟨?_, ?_, ?_, ?_, ?_⟩
  · intro b h
    exact runBlock_canEnd h
  · intro b h
    exact runBlock_canEnd h
  · intro b v h
    exact runBlock_canEnd h
  · intro line a flow ha h
    exact ne_signal_of_loop ha (runStatement_canEnd h)
  · intro line name args flow h
    exact eq_normal_of_call (runStatement_canEnd h)

/-- A signal from inside an attempt, one from the handler of a failed attempt, a value that is given
back from inside a loop, a loop that receives the signal, and a call that gives back a value. -/
theorem flows_have_sources_nested :
    let leaving : Block := [.mk 1 (.attempt [.mk 2 .leave] none)]
    let skipping : Block := [.mk 1 (.attempt [.mk 2 (.giveBack "x")] (some [.mk 3 .next]))]
    let giving : Block := [.mk 1 (.loopTimes "2" [.mk 2 (.giveBack "7")])]
    let m : Machine := { functions := NameMap.set {} "f" ⟨"f", [], giving⟩ }
    ((runBlock leaving m).1 = .ok .leave ∧ .leave ∈ Block.actions Action.isBranching leaving) ∧
      ((runBlock skipping m).1 = .ok .next ∧ .next ∈ Block.actions Action.isBranching skipping) ∧
      ((runBlock giving m).1 = .ok (.giveBack (.int 7)) ∧
        ∃ text, .giveBack text ∈ Block.actions Action.runsInPlace giving) ∧
      (∃ flow m', runStatement (.mk 1 (.loopTimes "2" leaving)) m = (.ok flow, m') ∧
        flow ≠ .leave ∧ flow ≠ .next) ∧
      ∃ flow m', runStatement (.mk 1 (.call "f" [])) m = (.ok flow, m') ∧ flow = .normal := by
  intro leaving skipping giving m
  refine ⟨?_, ?_, ?_, ?_, ?_⟩
  · exact ⟨rfl, (flows_have_sources m (runBlock leaving m).2).1 leaving rfl⟩
  · exact ⟨rfl, (flows_have_sources m (runBlock skipping m).2).2.1 skipping rfl⟩
  · exact ⟨rfl, (flows_have_sources m (runBlock giving m).2).2.2.1 giving (.int 7) rfl⟩
  · refine ⟨.normal, (runStatement (.mk 1 (.loopTimes "2" leaving)) m).2, rfl, ?_⟩
    exact (flows_have_sources m _).2.2.2.1 1 (.loopTimes "2" leaving) .normal rfl rfl
  · refine ⟨.normal, (runStatement (.mk 1 (.call "f" [])) m).2, rfl, ?_⟩
    exact (flows_have_sources m _).2.2.2.2 1 "f" [] .normal rfl

end Exec

end Parlance
