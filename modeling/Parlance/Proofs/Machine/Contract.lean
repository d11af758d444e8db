import Parlance.Machine.Loop
import Parlance.Machine.Run

/-!
# Contracts for computations

A contract says from which machines computations start, how they may change a machine, and how they
may come to a halt. Two computations agree under a contract if they do the same from every such
machine and stay within it. Agreement is closed under everything that computations are put together
with, so what holds of the parts of a run holds of the run.
-/

namespace Parlance

theorem Exec.bind_run (x : Exec α) (f : α → Exec β) (m : Machine) :
    (x >>= f) m =
      match x m with
      | (.ok a, m) => f a m
      | (.error h, m) => (.error h, m) := by
  change ExceptT.bindCont f (x m).1 (x m).2 = _
  rcases x m with ⟨_ | _, _⟩ <;> rfl

/-- What is promised of computations. -/
structure Contract where
  /-- The machines that computations start from. -/
  start : Machine → Prop
  /-- How a computation may change a machine. -/
  change : Machine → Machine → Prop
  /-- How a computation may come to a halt. -/
  halt : Halt → Prop
  refl : ∀ m, change m m
  trans : ∀ {m₁ m₂ m₃}, change m₁ m₂ → change m₂ m₃ → change m₁ m₃
  keeps : ∀ {m₁ m₂}, start m₁ → change m₁ m₂ → start m₂

namespace Contract

open Exec

variable {c : Contract} {F G : α → Prop}

/-- What a contract allows as the outcome of a computation whose result satisfies `F`. -/
structure Allows (c : Contract) (F : α → Prop) (m : Machine) (outcome : Except Halt α × Machine) :
    Prop where
  change : c.change m outcome.2
  halt : ∀ h, outcome.1 = .error h → c.halt h
  result : ∀ a, outcome.1 = .ok a → F a

/-- Two computations that do the same under a contract, with results that satisfy `F`. -/
def Agree (c : Contract) (F : α → Prop) (x y : Exec α) : Prop :=
  ∀ m, c.start m → x m = y m ∧ c.Allows F m (x m)

/-- A computation that stays within a contract. -/
abbrev Keeps (c : Contract) (x : Exec α) : Prop :=
  c.Agree (fun _ => True) x x

theorem Agree.weaken {x y : Exec α} (h : c.Agree F x y) (hFG : ∀ a, F a → G a) :
    c.Agree G x y := by
  intro m hm
  obtain ⟨same, allowed⟩ := h m hm
  exact ⟨same, allowed.change, allowed.halt, fun a ha => hFG a (allowed.result a ha)⟩

/-- A contract that asks for less is kept as well. -/
theorem Agree.relax {d : Contract} {x y : Exec α} (h : c.Agree F x y)
    (hstart : ∀ m, d.start m → c.start m) (hchange : ∀ {m m'}, c.change m m' → d.change m m')
    (hhalt : ∀ {h}, c.halt h → d.halt h) : d.Agree F x y := by
  intro m hm
  obtain ⟨same, allowed⟩ := h m (hstart m hm)
  exact ⟨same, hchange allowed.change, fun e he => hhalt (allowed.halt e he), allowed.result⟩

theorem Agree.pure {a : α} (ha : F a) : c.Agree F (pure a) (pure a) := by
  intro m hm
  refine ⟨rfl, c.refl m, ?_, ?_⟩
  · intro h hh
    cases hh
  · intro b hb
    cases hb
    exact ha

theorem Agree.bind {x y : Exec α} {f g : α → Exec β} {H : β → Prop} (h : c.Agree F x y)
    (hfg : ∀ a, F a → c.Agree H (f a) (g a)) : c.Agree H (x >>= f) (y >>= g) := by
  intro m hm
  obtain ⟨same, allowed⟩ := h m hm
  rw [bind_run, bind_run, ← same]
  rcases hx : x m with ⟨r, m₁⟩
  rw [hx] at allowed
  cases r with
  | error e =>
      refine ⟨rfl, allowed.change, ?_, ?_⟩
      · intro e' he
        cases he
        exact allowed.halt e rfl
      · intro b hb
        cases hb
  | ok a =>
      obtain ⟨same', allowed'⟩ :=
        hfg a (allowed.result a rfl) m₁ (c.keeps hm allowed.change)
      exact ⟨same', c.trans allowed.change allowed'.change, allowed'.halt, allowed'.result⟩

theorem Agree.recover {x y : Exec α} {f g : Error → Exec α} (h : c.Agree F x y)
    (hfg : ∀ e, c.Agree F (f e) (g e)) : c.Agree F (recover x f) (recover y g) := by
  intro m hm
  obtain ⟨same, allowed⟩ := h m hm
  unfold Exec.recover
  rw [← same]
  rcases hx : x m with ⟨r, m₁⟩
  rw [hx] at allowed
  rcases r with (e | _) | a
  · obtain ⟨same', allowed'⟩ := hfg e m₁ (c.keeps hm allowed.change)
    exact ⟨same', c.trans allowed.change allowed'.change, allowed'.halt, allowed'.result⟩
  · exact ⟨rfl, allowed⟩
  · exact ⟨rfl, allowed⟩

/-! ## Loops -/

/-- The flows that a loop can end with if its body ends with those in `F`. -/
def loopFlows (F : Flow → Prop) : Flow → Prop
  | .normal => True
  | .giveBack v => F (.giveBack v)
  | .leave => False
  | .next => False

theorem Agree.afterRound {F : Flow → Prop} {x y : Exec Flow} {flow : Flow}
    (h : c.Agree (loopFlows F) x y) (hflow : F flow) :
    c.Agree (loopFlows F) (afterRound x flow) (afterRound y flow) := by
  cases flow with
  | normal => exact h
  | next => exact h
  | leave => exact .pure trivial
  | giveBack v => exact .pure hflow

theorem Agree.whileLoop {F : Flow → Prop} {test : Exec Bool} {x y : Exec Flow}
    (hprint : ∀ text, c.Keeps (print text)) (htest : c.Keeps test) (h : c.Agree F x y)
    (limit : Nat) :
    c.Agree (loopFlows F) (whileLoop test x limit) (whileLoop test y limit) := by
  -- A round may also end the loop itself, with `leave`, so the flows of a round are wider than `F`.
  let R : Flow → Prop := fun flow => F flow ∨ flow = .leave
  induction limit with
  | zero => exact .pure trivial
  | succ limit ih =>
      have round : c.Agree R (do if ← test then x else return .leave)
          (do if ← test then y else return .leave) := by
        refine htest.bind fun holds _ => ?_
        cases holds with
        | true => exact h.weaken fun _ => .inl
        | false => exact .pure (.inr rfl)
      refine (round.recover fun e => ?_).bind fun flow hflow => ?_
      · exact (hprint _).bind fun _ _ => .pure (.inr rfl)
      · rcases hflow with hflow | rfl
        · exact ih.afterRound hflow
        · exact .pure trivial

theorem Agree.forEachLoop {F : Flow → Prop} {name : String} {x y : Exec Flow}
    (hset : ∀ v, c.Keeps (setVar name v)) (h : c.Agree F x y) (items : List Value) :
    c.Agree (loopFlows F) (forEachLoop name x items) (forEachLoop name y items) := by
  induction items with
  | nil => exact .pure trivial
  | cons item items ih =>
      exact (hset item).bind fun _ _ => h.bind fun flow hflow => ih.afterRound hflow

theorem Agree.timesLoop {F : Flow → Prop} {x y : Exec Flow} (h : c.Agree F x y) (count : Nat) :
    c.Agree (loopFlows F) (timesLoop x count) (timesLoop y count) := by
  induction count with
  | zero => exact .pure trivial
  | succ count ih => exact h.bind fun flow hflow => ih.afterRound hflow

/-! ## Reading the machine, changing it and failing -/

theorem Keeps.get : c.Keeps get := by
  intro m hm
  refine ⟨rfl, c.refl m, ?_, fun _ _ => trivial⟩
  intro h hh
  cases hh

theorem Keeps.heap : c.Keeps heap :=
  Keeps.get.bind fun _ _ => .pure trivial

theorem Keeps.modify {f : Machine → Machine} (hf : ∀ m, c.start m → c.change m (f m)) :
    c.Keeps (modify f) := by
  intro m hm
  refine ⟨rfl, hf m hm, ?_, fun _ _ => trivial⟩
  intro h hh
  cases hh

theorem Allows.failed {e : Error} (he : c.halt (.failed e)) (m : Machine) :
    c.Allows F m (.error (.failed e), m) := by
  refine ⟨c.refl m, ?_, ?_⟩
  · intro h hh
    cases hh
    exact he
  · intro a ha
    cases ha

theorem Agree.fail {e : Error} (he : c.halt (.failed e)) : c.Agree F (fail e) (fail e) :=
  fun m _ => ⟨rfl, .failed he m⟩

end Contract

end Parlance
