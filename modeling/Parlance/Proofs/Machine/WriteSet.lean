import Parlance.Proofs.Machine.Termination

/-!
# The names that a block can change

Which names a block can bind or unbind is seen from its text, without the bodies of the definitions
in it and whatever the functions that it calls do: a call works on a copy of the variables.
-/

namespace Parlance

/-- The names that a block can bind or unbind. -/
def Block.writes (b : Block) : List String :=
  (Block.actions Action.runsInPlace b).flatMap Action.binds

namespace Contract

open Exec

/-- The contract of computations that bind and unbind no names but the given ones. -/
def framed (names : List String) : Contract where
  start _ := True
  change m m' := ∀ n, n ∉ names → m'.vars.get? n = m.vars.get? n
  halt _ := True
  refl _ _ _ := rfl
  trans h₁ h₂ n hn := (h₂ n hn).trans (h₁ n hn)
  keeps _ _ := trivial

variable {names : List String} {runBody : Block → Exec Flow}

theorem Agree.framed {x : Exec α} (h : (touching names).Keeps x) : (framed names).Keeps x :=
  h.relax (fun _ _ => trivial) (fun hc => hc.2.2) fun _ => trivial

theorem framed_basic : (framed names).Basic where
  evaluate text := (evaluate_touches text).framed
  print text := (print_touches text).framed
  failure _ := trivial

/-- A call leaves the variables of its caller as they are, whatever its body does with its own. -/
theorem call_vars (runBody : Block → Exec Flow) (name : String) (args : List Value) (m : Machine) :
    (call runBody name args m).2.vars = m.vars := by
  rcases call_cases name args m with ⟨e, hfail⟩ | ⟨function, hf, hdepth⟩
  · rw [hfail]
  · rw [call_enters hf hdepth]
    rfl

theorem framed_call (name : String) (args : List Value) :
    (framed names).Keeps (call runBody name args) := by
  intro m _
  refine ⟨rfl, ?_, fun _ _ => trivial, fun _ _ => trivial⟩
  intro n _
  rw [call_vars]

theorem framed_covers {a : Action} (h : ∀ n ∈ a.binds, n ∈ names) :
    (framed names).Covers runBody runBody a := by
  refine covers_of_parts (fun act ha => ?_) (fun n hn v => ?_) framed_call
  · exact (simple_touches ha h).framed
  · exact (setVar_touches (h n hn) v).framed

end Contract

namespace Exec

open Contract

/-- However a block ends, the names that it cannot write are bound as before. A call changes no
variable of its caller, and as a statement none but the one for what it gave back. -/
theorem unwritten_names_are_kept (m : Machine) :
    (∀ b n, n ∉ Block.writes b → (runBlock b m).2.vars.get? n = m.vars.get? n) ∧
      (∀ name args, (runCall name args m).2.vars = m.vars) ∧
      ∀ line name args n, n ≠ lastResult →
        (runStatement (.mk line (.call name args)) m).2.vars.get? n = m.vars.get? n := by
  refine ⟨?_, ?_, ?_⟩
  · intro b n hn
    have covered : ∀ a ∈ Block.actions Action.runsInPlace b,
        (framed (Block.writes b)).Covers runBlock runBlock a :=
      fun a ha => framed_covers fun x hx => List.mem_flatMap.mpr ⟨a, ha, hx⟩
    obtain ⟨_, allowed⟩ := block_agrees framed_basic b covered m trivial
    rw [runBlock_eq]
    exact allowed.change n hn
  · intro name args
    rw [runCall_eq]
    exact call_vars runBlock name args m
  · intro line name args n hn
    have covered : ∀ a ∈ (Action.call name args).parts Action.runsInPlace,
        (framed [lastResult]).Covers runBlock runBlock a := by
      intro a ha
      cases List.mem_singleton.mp ha
      exact framed_covers fun x hx => hx
    obtain ⟨_, allowed⟩ := action_agrees framed_basic (.call name args) covered m trivial
    rw [runStatement_eq]
    simp only [statement]
    exact allowed.change n fun h => hn (List.mem_singleton.mp h)

/-- A function that binds one name of its caller, unbinds another and then fails. Wherever it is
called, both names are as before. -/
theorem unwritten_names_are_kept_by_call :
    let body : Block :=
      [.mk 2 (.assign "x" "2"), .mk 3 (.forget "y"), .mk 4 (.assign "z" "missing")]
    let b : Block := [.mk 1 (.define "f" [] body), .mk 5 (.call "f" []), .mk 6 (.assign "w" "3")]
    let m : Machine :=
      { vars := (NameMap.set {} "x" (.int 1)).set "y" (.int 1),
        functions := NameMap.set {} "f" ⟨"f", [], body⟩ }
    "x" ∉ Block.writes b ∧ "y" ≠ lastResult ∧
      (runBlock b m).1 = .error (.failed (.undefined "missing")) ∧
      (runBlock b m).2.vars.get? "x" = m.vars.get? "x" ∧
      (runStatement (.mk 5 (.call "f" [])) m).2.vars.get? "y" = m.vars.get? "y" := by
  intro body b m
  have hx : "x" ∉ Block.writes b := by decide
  have hy : "y" ≠ lastResult := by decide
  refine ⟨hx, hy, rfl, ?_, ?_⟩
  · exact (unwritten_names_are_kept m).1 b "x" hx
  · exact (unwritten_names_are_kept m).2.2 5 "f" [] "y" hy

end Exec

end Parlance
