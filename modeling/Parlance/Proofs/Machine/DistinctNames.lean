import Parlance.Proofs.Machine.StoryObjects
import Parlance.Proofs.Value.Bisimilarity

/-!
# Property names stay distinct

Records come about as copies of records and as story objects, whose properties are put under their
names one after another, and a property changes under the name that it has. So from a heap on which
no record doubles a property name no run leads away, wherever it stands and however it ends, and
neither does a session. On all these machines values are equal if a bisimulation relates them.
-/

namespace Parlance

namespace Policy

/-- Whatever doubles no property name. -/
def keepingNames : Policy where
  heap old new := old.Distinct → new.Distinct
  defines := True
  introduces := True
  grow _ := id
  trans first second := second ∘ first

theorem keepingNames_permits (a : Action) : keepingNames.Permits a where
  defines _ := trivial
  introduces _ := trivial
  items _ _ _ _ := id
  property _ _ cell name _ new _ h := h.put cell name new

end Policy

namespace Contract

open Exec

/-- The contract of computations that start where property names are distinct and keep them so. -/
def naming : Contract where
  start m := m.store.heap.Distinct
  change m m' := m.store.heap.Distinct → m'.store.heap.Distinct
  halt _ := True
  refl _ := id
  trans first second := second ∘ first
  keeps hm h := h hm

theorem naming_of_obeys {x : Exec α} (h : ∀ m, Obeys .keepingNames x m) : naming.Keeps x :=
  fun m _ => ⟨rfl, (h m).heap, fun _ _ => trivial, fun _ _ => trivial⟩

theorem naming_basic : naming.Basic where
  evaluate text := naming_of_obeys fun _ => .of_keeps (keeps_evaluate text)
  print _ := naming_of_obeys fun _ => .of_eq rfl rfl rfl rfl rfl
  failure _ := trivial

theorem obeys_runBlock (b : Block) (m : Machine) : Obeys .keepingNames (runBlock b) m :=
  obeys_of_steps b m fun _ s _ _ _ hact =>
    obeys_runStatement hact (Policy.keepingNames_permits s.action)

theorem naming_covers (a : Action) : naming.Covers runBlock runBlock a := by
  refine covers_of_parts (fun act hact => ?_) (fun n _ v => ?_) fun name args => ?_
  · exact naming_of_obeys fun _ => obeys_simple hact (Policy.keepingNames_permits a)
  · exact naming_of_obeys fun _ => .setVar n v
  · exact naming_of_obeys fun _ => obeys_call fun function _ _ => obeys_runBlock function.body _

theorem naming_runStatement (s : Statement) : naming.Keeps (runStatement s) :=
  keeps_runStatement naming_basic fun x _ => naming_covers x

end Contract

namespace Exec

open Contract

variable {m m' : Machine}

theorem distinct_runStatement (s : Statement) (hm : m.store.heap.Distinct) :
    (runStatement s m).2.store.heap.Distinct :=
  (naming_runStatement s m hm).2.change hm

/-- The end of a program is reached statement by statement. -/
theorem distinct_runProgram (b : Block) (hm : m.store.heap.Distinct) :
    (runProgram b m).2.store.heap.Distinct := by
  induction b generalizing m with
  | nil => exact hm
  | cons s rest ih =>
      have first := distinct_runStatement s hm
      cases hback : givesBack [s] m with
      | true =>
          obtain ⟨v, hv⟩ := givesBack_single_iff.mp hback
          rw [runProgram_givesBack hv]
          exact first
      | false =>
          have hsplit := runProgram_append hback rest
          rw [List.singleton_append] at hsplit
          rw [hsplit]
          refine ih ?_
          rw [runProgram_single hback, settled_store]
          exact first

theorem distinct_of_executes {b : Block} {waiting : List Bindings} {s : Statement}
    (h : Executes b m waiting s m') (hm : m.store.heap.Distinct) : m'.store.heap.Distinct := by
  have everything : b.All fun _ => True := fun _ _ => trivial
  obtain ⟨change, -⟩ := change_of_executes naming_basic (fun _ _ _ _ _ _ => trivial)
    (fun a _ => naming_covers a) (fun _ _ _ => id) h everything hm
  exact change hm

/-- Wherever a program comes to execute a statement, in itself or in a function, property names are
distinct if they were at its start. -/
theorem distinct_of_programExecutes {b : Block} {waiting : List Bindings} {s : Statement}
    (h : ProgramExecutes b m waiting s m') (hm : m.store.heap.Distinct) :
    m'.store.heap.Distinct := by
  induction h with
  | now executes => exact distinct_of_executes executes hm
  | later _ _ ih => exact ih (distinct_runProgram _ hm)

end Exec

namespace Session

open Exec

/-- A machine between the sources of a session. -/
inductive Arises : Machine → Prop
  | start (settings : Settings) (seed : Nat) (console : Console) (files : Files) (disk : Disk)
      (generator : Random.Generator) : Arises (start settings seed console files disk generator)
  | source {m : Machine} (source : String) (before : Arises m) : Arises (runSource source m).2
  | file {m : Machine} (path : String) (before : Arises m) : Arises (runFile path m).2
  | reset {m : Machine} (before : Arises m) : Arises (reset m)
  | printed {m : Machine} (before : Arises m) : Arises (takePrinted m).2

theorem distinct_runSource (source : String) {m : Machine} (hm : m.store.heap.Distinct) :
    (runSource source m).2.store.heap.Distinct := by
  rw [runSource_eq]
  exact distinct_runProgram _ hm

theorem distinct_of_arises {m : Machine} (h : Arises m) : m.store.heap.Distinct := by
  induction h with
  | start settings seed console files disk generator => exact nofun
  | source source _ ih => exact distinct_runSource source ih
  | @file m path _ ih =>
      unfold runFile
      dsimp only
      split
      · refine distinct_runSource _ ?_
        exact ih
      · exact ih
      · exact ih
  | reset _ ih => exact ih
  | printed _ ih => exact ih

/-- Between the sources of a session, and wherever a program stands that it runs, two values are
equal exactly if a bisimulation relates them. -/
theorem equal_iff_bisimilar_throughout {m : Machine} (h : Arises m) (v w : Value) :
    (v.equal m.store.heap w = true ↔ v.Bisimilar m.store.heap w) ∧
      ∀ b waiting s m', ProgramExecutes b m waiting s m' →
        (v.equal m'.store.heap w = true ↔ v.Bisimilar m'.store.heap w) := by
  have distinct := distinct_of_arises h
  refine ⟨Value.equal_iff_bisimilar distinct v w, fun b waiting s m' executes => ?_⟩
  exact Value.equal_iff_bisimilar (distinct_of_programExecutes executes distinct) v w

end Session

end Parlance
