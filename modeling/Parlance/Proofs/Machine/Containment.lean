import Parlance.Proofs.Machine.Termination

/-!
# Where failures stop

Questions, loops on a condition and attempts without a handler report a failure and go on. A choice
passes on only the failure of a branch without a condition. At the top of a program every failure
stops: each one is reported on one line, and the next statement goes on from where it happened.
-/

namespace Parlance

open Contract

namespace Exec

/-! ## Computations that do not fail -/

/-- A computation that fails on no machine. -/
def NeverFails (x : Exec α) : Prop :=
  ∀ m e, (x m).1 ≠ .error (.failed e)

theorem NeverFails.pure (a : α) : NeverFails (pure a : Exec α) := by
  intro m e h
  cases h

theorem NeverFails.print (text : String) : NeverFails (print text) := by
  intro m e h
  cases h

theorem NeverFails.bind {x : Exec α} {f : α → Exec β} (hx : NeverFails x)
    (hf : ∀ a, NeverFails (f a)) : NeverFails (x >>= f) := by
  intro m e h
  rw [bind_run] at h
  rcases hrun : x m with ⟨outcome, m₁⟩
  rw [hrun] at h
  cases outcome with
  | ok a => exact hf a m₁ e h
  | error halt =>
      cases h
      exact hx m e (congrArg Prod.fst hrun)

/-- Whatever fails, going on from it in a way that does not fail absorbs it. -/
theorem NeverFails.recover {f : Error → Exec α} (x : Exec α) (hf : ∀ e, NeverFails (f e)) :
    NeverFails (recover x f) := by
  intro m e h
  unfold Exec.recover at h
  rcases hrun : x m with ⟨(failure | _) | a, m₁⟩
  · rw [hrun] at h
    exact hf failure m₁ e h
  · rw [hrun] at h
    cases h
  · rw [hrun] at h
    cases h

theorem NeverFails.afterRound {goOn : Exec Flow} (h : NeverFails goOn) (flow : Flow) :
    NeverFails (afterRound goOn flow) := by
  cases flow with
  | normal => exact h
  | next => exact h
  | leave => exact .pure _
  | giveBack v => exact .pure _

theorem NeverFails.whileLoop (test : Exec Bool) (body : Exec Flow) (limit : Nat) :
    NeverFails (whileLoop test body limit) := by
  -- Each round is absorbed on its own, so nothing is asked of the test and the body.
  induction limit with
  | zero => exact .pure _
  | succ limit ih =>
      refine NeverFails.bind (.recover _ fun e => ?_) fun flow => ih.afterRound flow
      exact NeverFails.bind (.print _) fun _ => .pure _

variable {runBody : Block → Exec Flow}

theorem neverFails_question (condition : String) (yes no : Block) :
    NeverFails (perform runBody (.question condition yes no)) := by
  simp only [perform]
  exact .recover _ fun e => NeverFails.bind (.print _) fun _ => .pure _

theorem neverFails_loopWhile (condition : String) (body : Block) :
    NeverFails (perform runBody (.loopWhile condition body)) := by
  simp only [perform]
  refine NeverFails.bind ?_ fun m => .whileLoop _ _ _
  intro m e h
  cases h

theorem neverFails_attempt (body : Block) :
    NeverFails (perform runBody (.attempt body none)) := by
  simp only [perform]
  exact .recover _ fun e => NeverFails.bind (.print _) fun _ => .pure _

/-! ## Statements without fuel -/

/-- A statement that does not fail ends in a flow. -/
theorem runStatement_ok {a : Action} (h : NeverFails (perform runBlock a)) (line : Nat)
    (m : Machine) : ∃ flow m', runStatement (.mk line a) m = (.ok flow, m') := by
  have allowed := runStatement_allowed (.mk line a) m
  have hrun : runStatement (.mk line a) m = perform runBlock a m := by
    rw [runStatement_eq]
    simp only [statement]
  rw [hrun] at allowed ⊢
  rcases houtcome : perform runBlock a m with ⟨(e | _) | flow, m'⟩
  · exact absurd (congrArg Prod.fst houtcome) (h m e)
  · rw [houtcome] at allowed
    exact absurd rfl (allowed.halt _ rfl)
  · exact ⟨flow, m', rfl⟩

/-! ## Choices -/

/-- Branches whose conditions were found not to hold, one after another. -/
inductive PassedOver : List Branch → Machine → Machine → Prop
  | nil (m : Machine) : PassedOver [] m m
  | cons {condition : String} {body : Block} {rest : List Branch} {m m₁ m₂ : Machine}
      (fails : holds (Condition.toExpression condition) m = (.ok false, m₁))
      (more : PassedOver rest m₁ m₂) : PassedOver (.mk (some condition) body :: rest) m m₂

theorem choose_of_not_holds {condition : String} {m m₁ : Machine}
    (h : holds (Condition.toExpression condition) m = (.ok false, m₁)) (body : Block)
    (rest : List Branch) :
    choose runBody (.mk (some condition) body :: rest) m = choose runBody rest m₁ := by
  simp only [choose]
  rw [bind_run]
  unfold recover
  rw [bind_run, h]
  rfl

/-- A branch with a condition is passed over, or ends the choice without a failure. -/
theorem choose_conditional (condition : String) (body : Block) (rest : List Branch) (m : Machine) :
    (∃ m₁, holds (Condition.toExpression condition) m = (.ok false, m₁)) ∨
      ∀ e, (choose runBody (.mk (some condition) body :: rest) m).1 ≠ .error (.failed e) := by
  simp only [choose]
  rw [bind_run]
  unfold recover
  rw [bind_run]
  rcases holds (Condition.toExpression condition) m with ⟨(failure | _) | test, m₁⟩
  · exact .inr fun e h => by cases h
  · exact .inr fun e h => by cases h
  · cases test with
    | false => exact .inl ⟨m₁, rfl⟩
    | true =>
        simp only [if_true]
        rw [bind_run]
        rcases block runBody body m₁ with ⟨(failure | _) | flow, m₂⟩
        all_goals exact .inr fun e h => by cases h

/-- A choice fails exactly if it gets to a branch without a condition and this one fails. -/
theorem choose_failed_iff {branches : List Branch} {m m' : Machine} {e : Error} :
    choose runBlock branches m = (.error (.failed e), m') ↔
      ∃ before body behind m₁, branches = before ++ .mk none body :: behind ∧
        PassedOver before m m₁ ∧ runBlock body m₁ = (.error (.failed e), m') := by
  constructor
  · intro h
    induction branches generalizing m with
    | nil =>
        simp only [choose] at h
        cases h
    | cons branch rest ih =>
        rcases branch with ⟨_ | condition, body⟩
        · simp only [choose] at h
          rw [← runBlock_eq] at h
          exact ⟨[], body, rest, m, rfl, .nil m, h⟩
        · rcases choose_conditional condition body rest m with ⟨m₁, hholds⟩ | hfine
          · rw [choose_of_not_holds hholds] at h
            obtain ⟨before, last, behind, m₂, rfl, hpassed, hlast⟩ := ih h
            exact ⟨.mk (some condition) body :: before, last, behind, m₂, rfl,
              .cons hholds hpassed, hlast⟩
          · exact absurd (congrArg Prod.fst h) (hfine e)
  · rintro ⟨before, body, behind, m₁, rfl, hpassed, hbody⟩
    induction hpassed with
    | nil m =>
        simp only [List.nil_append, choose]
        rw [← runBlock_eq, hbody]
    | cons hholds _ ih =>
        rw [List.cons_append, choose_of_not_holds hholds]
        exact ih hbody

/-! ## Programs -/

/-- The machine with one more line printed. -/
def reporting (line : String) (m : Machine) : Machine :=
  { m with console := m.console.print (line ++ "\n") }

/-- How a program runs: its statements in order, each from the machine that the one before it left,
up to the end or to one that gives back a value. A failure of a statement is reported on one line,
and so is a signal to a loop that none received. -/
inductive ProgramRun : Block → Machine → Machine → Prop
  | done (m : Machine) : ProgramRun [] m m
  | normal {s : Statement} {rest : Block} {m m₁ m₂ : Machine}
      (run : runStatement s m = (.ok .normal, m₁)) (more : ProgramRun rest m₁ m₂) :
      ProgramRun (s :: rest) m m₂
  | giveBack {s : Statement} {rest : Block} {m m₁ : Machine} {v : Value}
      (run : runStatement s m = (.ok (.giveBack v), m₁)) : ProgramRun (s :: rest) m m₁
  | failed {s : Statement} {rest : Block} {m m₁ m₂ : Machine} {e : Error}
      (run : runStatement s m = (.error (.failed e), m₁))
      (more : ProgramRun rest (reporting ("Error: " ++ e.message) m₁) m₂) :
      ProgramRun (s :: rest) m m₂
  | leave {s : Statement} {rest : Block} {m m₁ m₂ : Machine}
      (run : runStatement s m = (.ok .leave, m₁))
      (more : ProgramRun rest (reporting "Error: 'break' outside loop" m₁) m₂) :
      ProgramRun (s :: rest) m m₂
  | next {s : Statement} {rest : Block} {m m₁ m₂ : Machine}
      (run : runStatement s m = (.ok .next, m₁))
      (more : ProgramRun rest (reporting "Error: 'continue' not properly in loop" m₁) m₂) :
      ProgramRun (s :: rest) m m₂

/-- The fuel that a program starts with serves all its statements, since none changes the settings. -/
theorem programFuel_run (b : Block) {m : Machine} {fuel : Nat}
    (hfuel : fuel = m.settings.maxCallDepth + 1) :
    ∃ m', programFuel fuel b m = (.ok (), m') ∧ ProgramRun b m m' := by
  induction b generalizing m with
  | nil => exact ⟨m, rfl, .done m⟩
  | cons s rest ih =>
      have first : statementFuel fuel s m = runStatement s m := by rw [hfuel]; rfl
      have allowed := runStatement_allowed s m
      simp only [programFuel]
      rw [bind_run]
      unfold recover
      rw [first]
      rcases hrun : runStatement s m with ⟨(e | _) | flow, m₁⟩
      all_goals rw [hrun] at allowed
      -- A report changes the console only, so the rest starts with the settings of the machine.
      · have hfuel₁ : fuel = (reporting ("Error: " ++ e.message) m₁).settings.maxCallDepth + 1 := by
          rw [hfuel, ← allowed.change.1]
          rfl
        obtain ⟨m₂, hrest, more⟩ := ih hfuel₁
        exact ⟨m₂, hrest, .failed hrun more⟩
      · exact absurd rfl (allowed.halt _ rfl)
      · have hfuel₁ : fuel = m₁.settings.maxCallDepth + 1 := by rw [hfuel, ← allowed.change.1]
        cases flow with
        | normal =>
            obtain ⟨m₂, hrest, more⟩ := ih hfuel₁
            exact ⟨m₂, hrest, .normal hrun more⟩
        | giveBack v => exact ⟨m₁, rfl, .giveBack hrun⟩
        | leave =>
            obtain ⟨m₂, hrest, more⟩ := @ih (reporting "Error: 'break' outside loop" m₁) hfuel₁
            exact ⟨m₂, hrest, .leave hrun more⟩
        | next =>
            obtain ⟨m₂, hrest, more⟩ :=
              @ih (reporting "Error: 'continue' not properly in loop" m₁) hfuel₁
            exact ⟨m₂, hrest, .next hrun more⟩

/-- Failures are contained: questions, loops on a condition and attempts without a handler end in a
flow, a choice fails only by a branch without a condition, and a program comes to its end. -/
theorem failures_are_contained (m : Machine) :
    (∀ line condition yes no, ∃ flow m',
        runStatement (.mk line (.question condition yes no)) m = (.ok flow, m')) ∧
      (∀ line condition body, ∃ flow m',
        runStatement (.mk line (.loopWhile condition body)) m = (.ok flow, m')) ∧
      (∀ line body, ∃ flow m', runStatement (.mk line (.attempt body none)) m = (.ok flow, m')) ∧
      (∀ line branches e m',
        runStatement (.mk line (.choose branches)) m = (.error (.failed e), m') ↔
          ∃ before body behind m₁, branches = before ++ .mk none body :: behind ∧
            PassedOver before m m₁ ∧ runBlock body m₁ = (.error (.failed e), m')) ∧
      ∀ b, ∃ m', runProgram b m = (.ok (), m') ∧ ProgramRun b m m' := by
  refine ⟨?_, ?_, ?_, ?_, ?_⟩
  · intro line condition yes no
    exact runStatement_ok (neverFails_question condition yes no) line m
  · intro line condition body
    exact runStatement_ok (neverFails_loopWhile condition body) line m
  · intro line body
    exact runStatement_ok (neverFails_attempt body) line m
  · intro line branches e m'
    rw [runStatement_eq]
    simp only [statement, perform]
    exact choose_failed_iff
  · intro b
    exact programFuel_run b rfl

end Exec

end Parlance
