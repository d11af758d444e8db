import Parlance.Proofs.Expr.Recursion
import Parlance.Proofs.Machine.Composition
import Parlance.Proofs.Value.Walk

/-!
# Every run ends

The fuel of a run counts calls that are open at the same time. No statement changes the limit on
them or leaves the depth other than it found it, so a run that starts at some depth never needs
more fuel than the limit leaves room for, and with that much fuel more makes no difference.
-/

namespace Parlance

/-- A family of answers, one for each amount of fuel, that is one and the same answer from some
amount on. -/
def SettlesOn (run : Nat → α) (answer : α) : Prop :=
  ∃ enough, ∀ fuel, enough ≤ fuel → run fuel = answer

namespace Contract

open Exec

/-- The contract of computations at one depth of calls that do not run out of fuel. -/
def level (settings : Settings) (depth : Nat) : Contract where
  start m := m.settings = settings ∧ m.depth = depth
  change m m' := m'.settings = m.settings ∧ m'.depth = m.depth
  halt h := h ≠ .exhausted
  refl _ := ⟨rfl, rfl⟩
  trans h₁ h₂ := ⟨h₂.1.trans h₁.1, h₂.2.trans h₁.2⟩
  keeps h₁ h₂ := ⟨h₂.1.trans h₁.1, h₂.2.trans h₁.2⟩

variable {settings : Settings} {depth : Nat} {r r' : Block → Exec Flow}

/-- What touches some names only stays at its level. -/
theorem Agree.level {names : List String} {x : Exec α} (h : (touching names).Keeps x) :
    (level settings depth).Keeps x :=
  h.relax (fun _ _ => trivial) (fun hc => ⟨hc.1, hc.2.1⟩) fun hh => hh

theorem level_basic : (level settings depth).Basic where
  evaluate text := (@evaluate_touches [] text).level
  print text := (@print_touches [] text).level
  failure _ h := by cases h

/-- A call returns to its own level from the one below it. -/
theorem level_call
    (h : depth < settings.maxCallDepth →
      ∀ b, (level settings (depth + 1)).Agree (fun _ => True) (r b) (r' b))
    (name : String) (args : List Value) :
    (level settings depth).Agree (fun _ => True) (call r name args) (call r' name args) := by
  rintro m ⟨hs, hd⟩
  rcases call_cases name args m with ⟨e, hfail⟩ | ⟨function, hf, hdepth⟩
  · rw [hfail r, hfail r']
    exact ⟨rfl, .failed (fun hx => by cases hx) m⟩
  · have hroom : depth < settings.maxCallDepth := by rwa [hs, hd] at hdepth
    obtain ⟨same, allowed⟩ := h hroom function.body (entering m function args)
      ⟨hs, congrArg (· + 1) hd⟩
    rw [call_enters hf hdepth, call_enters hf hdepth, ← same]
    refine ⟨rfl, ⟨allowed.change.1, congrArg (· - 1) allowed.change.2⟩, ?_, fun _ _ => trivial⟩
    rintro e he rfl
    exact allowed.halt _ (exhausted_of_returning he) rfl

theorem level_covers
    (h : depth < settings.maxCallDepth →
      ∀ b, (level settings (depth + 1)).Agree (fun _ => True) (r b) (r' b))
    (a : Action) : (level settings depth).Covers r r' a := by
  refine covers_of_parts (fun act ha => ?_) (fun n _ v => ?_) (level_call h)
  · exact (simple_touches ha fun _ hn => hn).level
  · exact (setVar_touches (List.mem_singleton_self n) v).level

/-- From a given depth on, all amounts of fuel that exceed the room for calls do the same, and none
of them is used up. -/
theorem blockFuel_agree (fuel fuel' depth : Nat) (hfuel : settings.maxCallDepth - depth < fuel)
    (hfuel' : settings.maxCallDepth - depth < fuel') (b : Block) :
    (level settings depth).Agree (Block.CanEnd b) (blockFuel fuel b) (blockFuel fuel' b) := by
  -- The induction is on the fuel; each call inside takes one unit of it and one of the room.
  induction fuel generalizing fuel' depth b with
  | zero => omega
  | succ fuel ih =>
      obtain ⟨fuel', rfl⟩ : ∃ n, fuel' = n + 1 := ⟨fuel' - 1, by omega⟩
      simp only [blockFuel]
      refine block_agrees level_basic b fun a _ => level_covers (fun hroom inner => ?_) a
      exact (ih fuel' (depth + 1) (by omega) (by omega) inner).weaken fun _ _ => trivial

/-! ## Runs without fuel -/

theorem blockFuel_agree_runBlock {fuel : Nat} (hfuel : settings.maxCallDepth - depth < fuel)
    (b : Block) :
    (level settings depth).Agree (Block.CanEnd b) (blockFuel fuel b) (runBlock b) := by
  rintro m ⟨rfl, hd⟩
  exact blockFuel_agree fuel (m.settings.maxCallDepth + 1) depth hfuel (by omega) b m ⟨rfl, hd⟩

/-- With as much fuel as there is room for calls, a function is called as if its body were run
without fuel. -/
theorem callFuel_agree {fuel : Nat} (hfuel : settings.maxCallDepth - depth ≤ fuel) (name : String)
    (args : List Value) :
    (level settings depth).Agree (fun _ => True) (callFuel fuel name args)
      (call runBlock name args) := by
  refine level_call (fun hroom b => ?_) name args
  exact (blockFuel_agree_runBlock (by omega) b).weaken fun _ _ => trivial

theorem covers_runBlock {fuel : Nat} (hfuel : settings.maxCallDepth - depth ≤ fuel) (a : Action) :
    (level settings depth).Covers (blockFuel fuel) runBlock a := by
  refine level_covers (fun hroom b => ?_) a
  exact (blockFuel_agree_runBlock (by omega) b).weaken fun _ _ => trivial

theorem statementFuel_agree {fuel : Nat} (hfuel : settings.maxCallDepth - depth ≤ fuel)
    (s : Statement) :
    (level settings depth).Agree s.action.CanEnd (statementFuel fuel s) (statement runBlock s) := by
  cases s with
  | mk line a =>
      simp only [statementFuel, statement]
      exact action_agrees level_basic a fun x _ => covers_runBlock hfuel x

/-- Runs that agree with one and the same from some amount of fuel on settle on what it does. -/
theorem settles_of_agree {F : α → Prop} {run : Nat → Exec α} {ended : Exec α} {enough chosen : Nat}
    {m : Machine}
    (h : ∀ fuel, enough ≤ fuel → (level m.settings m.depth).Agree F (run fuel) ended)
    (hchosen : enough ≤ chosen) :
    (run chosen m).1 ≠ .error .exhausted ∧ SettlesOn (fun fuel => run fuel m) (run chosen m) := by
  obtain ⟨same, allowed⟩ := h chosen hchosen m ⟨rfl, rfl⟩
  refine ⟨fun he => allowed.halt _ he rfl, enough, fun fuel hfuel => ?_⟩
  exact (h fuel hfuel m ⟨rfl, rfl⟩).1.trans same.symm

end Contract

namespace Exec

open Contract

/-- A run is given more fuel than there is room for calls. -/
theorem room_lt_enough (m : Machine) :
    m.settings.maxCallDepth - m.depth < m.settings.maxCallDepth + 1 := by
  omega

theorem runBlock_allowed (b : Block) (m : Machine) :
    (level m.settings m.depth).Allows (Block.CanEnd b) m (runBlock b m) :=
  (blockFuel_agree_runBlock (room_lt_enough m) b m ⟨rfl, rfl⟩).2

theorem runStatement_allowed (s : Statement) (m : Machine) :
    (level m.settings m.depth).Allows s.action.CanEnd m (runStatement s m) :=
  (statementFuel_agree (Nat.le_of_lt (room_lt_enough m)) s m ⟨rfl, rfl⟩).2

/-- A block runs its statements in turn, and the bodies of called functions as blocks. -/
theorem runBlock_eq (b : Block) (m : Machine) : runBlock b m = block runBlock b m :=
  (block_agrees level_basic b (fun a _ => covers_runBlock (Nat.sub_le _ _) a) m ⟨rfl, rfl⟩).1

theorem runStatement_eq (s : Statement) (m : Machine) :
    runStatement s m = statement runBlock s m :=
  (statementFuel_agree (Nat.le_of_lt (room_lt_enough m)) s m ⟨rfl, rfl⟩).1

theorem runCall_eq (name : String) (args : List Value) (m : Machine) :
    runCall name args m = call runBlock name args m :=
  (callFuel_agree (Nat.le_of_lt (room_lt_enough m)) name args m ⟨rfl, rfl⟩).1

end Exec

/-! ## Values and expressions -/

namespace Value

theorem show_settles (heap : Heap) (quote : Bool) (v : Value) :
    SettlesOn (fun fuel => showFuel heap fuel [] quote v)
      (showFuel heap (heap.cellCount + 1) [] quote v) := by
  refine ⟨heap.cellCount + 1, fun fuel hfuel => showFuel_eq (.start ?_) (.start ?_) quote v⟩
  all_goals rw [Heap.length_refs]; omega

theorem detached_settles (v : Value) (store : Store) :
    SettlesOn (fun fuel => detachFuel store.heap fuel [] v store) (detached v store) := by
  refine ⟨store.heap.cellCount + 1, fun fuel hfuel => ?_⟩
  have same : detachFuel store.heap fuel [] v =
      detachFuel store.heap (store.heap.cellCount + 1) [] v := by
    refine detachFuel_eq (.start ?_) (.start ?_) v
    all_goals rw [Heap.length_refs]; omega
  exact congrFun same store

theorem equal_settles (heap : Heap) (left right : Value) :
    SettlesOn (fun fuel => equalFuel heap fuel [] left right) (equal heap left right) := by
  refine ⟨heap.cellCount * heap.cellCount + 1, fun fuel hfuel => ?_⟩
  refine equalFuel_eq (.start ?_) (.start ?_) left right
  all_goals rw [List.length_product, Heap.length_refs]; omega

theorem order_settles (heap : Heap) (symbol : String) (left right : Value) :
    SettlesOn (fun fuel => orderFuel heap symbol fuel [] left right)
      (order heap symbol left right) := by
  refine ⟨heap.lists.size * heap.lists.size + 1, fun fuel hfuel => ?_⟩
  refine orderFuel_eq (.start ?_) (.start ?_) symbol left right
  all_goals rw [List.length_product, List.length_range]; omega

end Value

namespace Exec

open Contract

/-- Every run ends: whatever the machine, running a block or a statement and calling a function stop
with an outcome of their own, which does not depend on the fuel once that is enough. So do cutting
and evaluating the text of an expression, where the index of a name is evaluated in turn, and walking
through values on any heap. -/
theorem every_run_ends (m : Machine) :
    (∀ b, (runBlock b m).1 ≠ .error .exhausted ∧
        SettlesOn (fun fuel => blockFuel fuel b m) (runBlock b m)) ∧
      (∀ s, (runStatement s m).1 ≠ .error .exhausted ∧
        SettlesOn (fun fuel => statementFuel fuel s m) (runStatement s m)) ∧
      (∀ name args, (runCall name args m).1 ≠ .error .exhausted ∧
        SettlesOn (fun fuel => callFuel fuel name args m) (runCall name args m)) ∧
      (∀ text, SettlesOn (fun fuel => Lexeme.scanFuel fuel text) (Lexeme.scan text)) ∧
      (∀ source,
        SettlesOn (fun fuel => Evaluate.textFuel m.vars fuel source.toList)
            (Evaluate.text m.vars source) ∧
          Evaluate.text m.vars source =
            Evaluate.textWith m.vars (fun index => Evaluate.text m.vars (String.ofList index))
              source.toList) ∧
      (∀ quote v, SettlesOn (fun fuel => Value.showFuel m.store.heap fuel [] quote v)
        (if quote then v.repr m.store.heap else v.display m.store.heap)) ∧
      (∀ v, SettlesOn (fun fuel => Value.detachFuel m.store.heap fuel [] v m.store)
        (v.detached m.store)) ∧
      (∀ v w, SettlesOn (fun fuel => Value.equalFuel m.store.heap fuel [] v w)
        (Value.equal m.store.heap v w)) ∧
      (∀ symbol v w, SettlesOn (fun fuel => Value.orderFuel m.store.heap symbol fuel [] v w)
        (Value.order m.store.heap symbol v w)) := by
  refine ⟨fun b => ?_, fun s => ?_, fun name args => ?_, fun text => ?_, fun source => ?_,
    fun quote v => ?_, fun v => v.detached_settles m.store, Value.equal_settles m.store.heap,
    Value.order_settles m.store.heap⟩
  · exact settles_of_agree (fun fuel hfuel => blockFuel_agree_runBlock hfuel b) (room_lt_enough m)
  · exact settles_of_agree (fun fuel hfuel => statementFuel_agree hfuel s)
      (Nat.le_of_lt (room_lt_enough m))
  · exact settles_of_agree (fun fuel hfuel => callFuel_agree hfuel name args)
      (Nat.le_of_lt (room_lt_enough m))
  · exact ⟨text.length, fun fuel hfuel => Lexeme.scanFuel_eq hfuel (Nat.le_refl _)⟩
  · refine ⟨⟨source.toList.length + 1, fun fuel hfuel => ?_⟩, Evaluate.text_eq_textWith m.vars source⟩
    exact Evaluate.textFuel_eq m.vars _ _ source.toList hfuel (Nat.lt_succ_self _)
  · cases quote with
    | true => exact Value.show_settles m.store.heap true v
    | false => exact Value.show_settles m.store.heap false v

end Exec

end Parlance
