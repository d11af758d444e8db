import Parlance.Proofs.Machine.Inventory

/-!
# Where executed statements come from

The functions of a machine are those that were there and those that statements have defined. So all
that a run executes is found in the text of its block or of a function that was there at the start,
and what introduces no story objects anywhere leaves the story objects as they are.
-/

namespace Parlance

namespace Contract

open Exec

variable {Q : Action → Prop}

/-- The contract of computations that define functions of one kind only. If nothing of this kind
introduces story objects, they keep these as they are. -/
def supplied (Q : Action → Prop) : Contract where
  start := Machine.FunctionsAll Q
  change m m' := (m.FunctionsAll Q → m'.FunctionsAll Q) ∧
    ((∀ a, Q a → a.introduces? = none) → m'.objects = m.objects)
  halt _ := True
  refl _ := ⟨id, fun _ => rfl⟩
  trans h₁ h₂ := ⟨h₂.1 ∘ h₁.1, fun quiet => (h₂.2 quiet).trans (h₁.2 quiet)⟩
  keeps hm h := h.1 hm

/-- A change of anything but the functions and the story objects. -/
theorem supplied_of_eq {m m' : Machine} (hf : m'.functions = m.functions)
    (ho : m'.objects = m.objects) : (supplied Q).change m m' :=
  ⟨fun hm name function h => hm name function (hf ▸ h), fun _ => ho⟩

theorem Agree.supplied {x : Exec α} (h : keeping.Keeps x) : (supplied Q).Keeps x :=
  h.relax (fun _ _ => trivial) (fun kept => supplied_of_eq kept.1.functions kept.1.objects)
    fun _ => trivial

theorem supplied_basic : (supplied Q).Basic where
  evaluate text := (keeps_evaluate text).supplied
  print _ := .modify fun _ _ => supplied_of_eq rfl rfl
  failure _ := trivial

theorem supplied_setVar (name : String) (v : Value) : (supplied Q).Keeps (setVar name v) :=
  .modify fun _ _ => supplied_of_eq rfl rfl

theorem functionsAll_define {m m' : Machine} {function : Function}
    (hfunction : function.definition.All Q) (hm : m.FunctionsAll Q)
    (hset : m'.functions = m.functions.set function.name function) : m'.FunctionsAll Q := by
  intro name found h
  rw [hset, NameMap.get?_set] at h
  split at h
  · cases h
    exact hfunction
  · exact hm name found h

theorem supplied_simple {a : Action} {act : Exec Unit} (ha : a.All Q) (h : simple? a = some act) :
    (supplied Q).Keeps act := by
  intro m hm
  obtain ⟨functions, objects⟩ := tables_of_simple h m
  refine ⟨rfl, ⟨fun _ => ?_, fun quiet => objects (quiet a ha.self)⟩, fun _ _ => trivial,
    fun _ _ => trivial⟩
  cases hdefines : a.defines? with
  | none =>
      intro name function hfound
      exact hm name function (functions hdefines ▸ hfound)
  | some function =>
      obtain rfl : function.definition = a := by
        cases a <;> cases hdefines
        rfl
      cases h
      exact functionsAll_define ha hm rfl

theorem supplied_call {r : Block → Exec Flow} (h : ∀ b : Block, b.All Q → (supplied Q).Keeps (r b))
    (name : String) (args : List Value) : (supplied Q).Keeps (call r name args) := by
  intro m hm
  refine ⟨rfl, ?_, fun _ _ => trivial, fun _ _ => trivial⟩
  rcases call_cases name args m with ⟨e, hfail⟩ | ⟨function, hf, hdepth⟩
  · rw [hfail]
    exact (supplied Q).refl m
  · rw [call_enters hf hdepth]
    have body : function.body.All Q := (hm name function hf).block List.mem_cons_self
    exact (h function.body body (entering m function args) hm).2.change

theorem supplied_covers {r : Block → Exec Flow}
    (h : ∀ b : Block, b.All Q → (supplied Q).Keeps (r b)) (a : Action) (ha : a.All Q) :
    (supplied Q).Covers r r a :=
  covers_of_parts (fun _ => supplied_simple ha) (fun n _ v => supplied_setVar n v) (supplied_call h)

theorem supplied_runBlock {b : Block} (hb : b.All Q) : (supplied Q).Keeps (runBlock b) :=
  keeps_of_all supplied_basic trivial (fun _ => supplied_covers) hb

theorem supplied_runStatement {s : Statement} (hs : s.action.All Q) :
    (supplied Q).Keeps (runStatement s) :=
  keeps_runStatement supplied_basic fun x hx =>
    supplied_covers (fun _ => supplied_runBlock) x (hs.of_part hx)

end Contract

namespace Exec

open Contract

variable {Q : Action → Prop} {b : Block} {m m' : Machine} {waiting : List Bindings} {s : Statement}

/-- What a run executes is of the kind that its block and the functions are made of. -/
theorem Executes.supplied (h : Executes b m waiting s m') (hb : b.All Q) (hm : m.FunctionsAll Q) :
    (supplied Q).change m m' ∧ s.action.All Q :=
  change_of_executes supplied_basic id (supplied_covers fun _ => supplied_runBlock)
    (fun _ _ _ => supplied_of_eq rfl rfl) h hb hm

end Exec

end Parlance
