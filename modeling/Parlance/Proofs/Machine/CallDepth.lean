import Parlance.Proofs.Machine.CleanFailure

/-!
# The depth of calls

Calls that are open at the same time are counted, up to a limit. Whatever a run does and however it
ends, it leaves the count as it found it; no body of a function starts beyond the limit; and a call
for which there is no room fails without a trace.
-/

namespace Parlance

/-- Whether a machine is inside a call, and not deeper than the limit allows. -/
def Machine.isInsideCall (m : Machine) : Bool :=
  decide (1 ≤ m.depth ∧ m.depth ≤ m.settings.maxCallDepth)

namespace Exec

/-- Runs the body of a function if the machine passes a test, and does something else if it does
not. -/
def guarded (test : Machine → Bool) (instead runBody : Block → Exec Flow) : Block → Exec Flow :=
  fun b m => if test m then runBody b m else instead b m

/-- Runs statements with so much fuel for nested calls, every body of a function, however deep,
under the guard of a test. -/
def guardedFuel (test : Machine → Bool) (instead : Block → Exec Flow) : Nat → Block → Exec Flow
  | 0, _ => throw .exhausted
  | fuel + 1, b => block (guarded test instead (guardedFuel test instead fuel)) b

/-- Runs the body of a function under the guard of a test, and all bodies that it calls. -/
def guardedBody (test : Machine → Bool) (instead : Block → Exec Flow) : Block → Exec Flow :=
  guarded test instead fun b => do guardedFuel test instead (← enoughFuel) b

end Exec

namespace Contract

open Exec

variable {settings : Settings} {depth : Nat} {instead : Block → Exec Flow}

/-- One call further in, and with room for it, the guard lets every body pass. -/
theorem guarded_agree {r r' : Block → Exec Flow} (hroom : depth < settings.maxCallDepth) {b : Block}
    {F : Flow → Prop} (h : (level settings (depth + 1)).Agree F (r b) (r' b)) :
    (level settings (depth + 1)).Agree F (guarded Machine.isInsideCall instead r b) (r' b) := by
  intro m hm
  obtain ⟨hsettings, hdepth⟩ := hm
  have passes : m.isInsideCall = true := by
    rw [Machine.isInsideCall, hsettings, hdepth]
    exact decide_eq_true ⟨by omega, by omega⟩
  have same : guarded Machine.isInsideCall instead r b m = r b m := if_pos passes
  rw [same]
  exact h m ⟨hsettings, hdepth⟩

theorem guardedFuel_agree (fuel depth : Nat) (hfuel : settings.maxCallDepth - depth < fuel)
    (b : Block) :
    (level settings depth).Agree (Block.CanEnd b)
      (guardedFuel Machine.isInsideCall instead fuel b) (runBlock b) := by
  -- As without a guard, each call inside takes one unit of the fuel and one of the room.
  induction fuel generalizing depth b with
  | zero => omega
  | succ fuel ih =>
      intro m hm
      rw [runBlock_eq]
      simp only [guardedFuel]
      refine block_agrees level_basic b (fun a _ => level_covers (fun hroom inner => ?_) a) m hm
      exact guarded_agree hroom ((ih (depth + 1) (by omega) inner).weaken fun _ _ => trivial)

/-- Below its own level, running bodies under the guard is running them. -/
theorem guardedBody_agree (hroom : depth < settings.maxCallDepth) (b : Block) :
    (level settings (depth + 1)).Agree (fun _ => True)
      (guardedBody Machine.isInsideCall instead b) (runBlock b) := by
  refine guarded_agree hroom fun m hm => ?_
  have same : (do guardedFuel Machine.isInsideCall instead (← enoughFuel) b : Exec Flow) m =
      guardedFuel Machine.isInsideCall instead (m.settings.maxCallDepth + 1) b m := rfl
  rw [same]
  obtain ⟨rfl, hdepth⟩ := hm
  exact (guardedFuel_agree _ _ (by omega) b).weaken (fun _ _ => trivial) m ⟨rfl, hdepth⟩

end Contract

namespace Exec

open Contract

/-! ## No body starts beyond the limit -/

theorem block_guarded (instead : Block → Exec Flow) (b : Block) (m : Machine) :
    block (guardedBody Machine.isInsideCall instead) b m = runBlock b m := by
  rw [runBlock_eq]
  refine (block_agrees (@level_basic m.settings m.depth) b ?_ m ⟨rfl, rfl⟩).1
  exact fun a _ => level_covers guardedBody_agree a

theorem statement_guarded (instead : Block → Exec Flow) (s : Statement) (m : Machine) :
    statement (guardedBody Machine.isInsideCall instead) s m = runStatement s m := by
  rw [runStatement_eq]
  cases s with
  | mk line a =>
      simp only [statement]
      refine (action_agrees (@level_basic m.settings m.depth) a ?_ m
        ⟨rfl, rfl⟩).1
      exact fun x _ => level_covers guardedBody_agree x

theorem call_guarded (instead : Block → Exec Flow) (name : String) (args : List Value)
    (m : Machine) :
    call (guardedBody Machine.isInsideCall instead) name args m = runCall name args m := by
  rw [runCall_eq]
  exact (level_call guardedBody_agree name args m ⟨rfl, rfl⟩).1

/-! ## Calls without room -/

/-- Why a call without room fails. -/
def refusal (m : Machine) (name : String) : Error :=
  if m.functions.contains name then .callsTooDeep else .undefinedFunction name

theorem call_refused {runBody : Block → Exec Flow} {m : Machine}
    (hfull : m.settings.maxCallDepth ≤ m.depth) (name : String) (args : List Value) :
    call runBody name args m = (.error (.failed (refusal m name)), m) := by
  unfold refusal NameMap.contains
  cases hfunction : m.functions.get? name with
  | none => exact call_undefined hfunction
  | some function => exact call_tooDeep hfunction hfull

/-- As a statement, such a call has only evaluated its arguments. -/
theorem callStatement_refused {m m₁ : Machine} (hfull : m.settings.maxCallDepth ≤ m.depth)
    (line : Nat) (name : String) {args : List String} {values : List Value}
    (hargs : arguments args m = (.ok values, m₁)) :
    runStatement (.mk line (.call name args)) m = (.error (.failed (refusal m name)), m₁) ∧
      m.Kept m₁ := by
  have kept : m.Kept m₁ := by
    have changed := (keeps_arguments args m trivial).2.change.1
    rwa [hargs] at changed
  have hfull₁ : m₁.settings.maxCallDepth ≤ m₁.depth := by
    rw [kept.settings, kept.depth]
    exact hfull
  have same : refusal m₁ name = refusal m name := by
    unfold refusal
    rw [kept.functions]
  refine ⟨?_, kept⟩
  rw [runStatement_eq]
  simp only [statement, perform]
  rw [bind_run, hargs]
  dsimp only
  rw [bind_run, call_refused hfull₁, same]

/-- The depth of calls after a run is the depth before it, however the run ends. Whatever would
happen in the place of a body that starts at depth zero or beyond the limit, even something that
nothing absorbs, the run is the same, so no body does. At the limit every call fails, with the
machine as it was; a call statement has evaluated its arguments. -/
theorem call_depth_is_kept (m : Machine) :
    ((∀ b, (runBlock b m).2.depth = m.depth) ∧ (∀ s, (runStatement s m).2.depth = m.depth) ∧
        ∀ name args, (runCall name args m).2.depth = m.depth) ∧
      (∀ instead : Block → Exec Flow,
        (∀ b, block (guardedBody Machine.isInsideCall instead) b m = runBlock b m) ∧
          (∀ s, statement (guardedBody Machine.isInsideCall instead) s m = runStatement s m) ∧
          ∀ name args,
            call (guardedBody Machine.isInsideCall instead) name args m = runCall name args m) ∧
      (m.depth = m.settings.maxCallDepth →
        (∀ name args, runCall name args m = (.error (.failed (refusal m name)), m)) ∧
          ∀ line name args values m₁, arguments args m = (.ok values, m₁) →
            runStatement (.mk line (.call name args)) m =
                (.error (.failed (refusal m name)), m₁) ∧
              m.Kept m₁) ∧
      ∀ name, (refusal m name).errorClass = .run ∧
        (refusal m name).message =
          if m.functions.contains name then "maximum recursion depth exceeded"
          else "Function '" ++ name ++ "' not defined" := by
  refine ⟨⟨?_, ?_, ?_⟩, ?_, ?_, ?_⟩
  · intro b
    exact (runBlock_allowed b m).change.2
  · intro s
    exact (runStatement_allowed s m).change.2
  · intro name args
    have hfuel := Nat.le_of_lt (room_lt_enough m)
    exact (callFuel_agree hfuel name args m ⟨rfl, rfl⟩).2.change.2
  · intro instead
    exact ⟨fun b => block_guarded instead b m, fun s => statement_guarded instead s m,
      fun name args => call_guarded instead name args m⟩
  · intro hfull
    refine ⟨fun name args => ?_, fun line name args values m₁ hargs => ?_⟩
    · rw [runCall_eq]
      exact call_refused (Nat.le_of_eq hfull.symm) name args
    · exact callStatement_refused (Nat.le_of_eq hfull.symm) line name hargs
  · intro name
    unfold refusal
    split
    · exact ⟨rfl, rfl⟩
    · exact ⟨rfl, rfl⟩

/-- A function that calls itself without end: with room for two calls, the third one fails, and the
failure leaves the depth where the program started. -/
theorem call_depth_is_kept_by_recursion :
    let body : Block := [.mk 2 (.call "f" [])]
    let m : Machine :=
      { settings := { maxCallDepth := 2 }, functions := NameMap.set {} "f" ⟨"f", [], body⟩ }
    let inside : Machine := { m with depth := 2 }
    (runCall "f" [] m).1 = .error (.failed .callsTooDeep) ∧ (runCall "f" [] m).2.depth = 0 ∧
      inside.depth = inside.settings.maxCallDepth ∧
      runCall "f" [] inside = (.error (.failed .callsTooDeep), inside) ∧
      runCall "g" [] inside = (.error (.failed (.undefinedFunction "g")), inside) := by
  intro body m inside
  have atLimit := (call_depth_is_kept inside).2.2.1 rfl
  exact ⟨rfl, (call_depth_is_kept m).1.2.2 "f" [], rfl, atLimit.1 "f" [], atLimit.1 "g" []⟩

end Exec

end Parlance
