import Parlance.Proofs.Machine.SharedState
import Parlance.Proofs.Value.Freshness

/-!
# What statements without a block change

A list changes in place only where something is appended to it or removed from it, a property only
where a story object loses or gains, functions only where one is defined, and story objects only
where one is introduced. Everything else that a statement does to the heap is to add to it.
-/

namespace Parlance

/-- Whether an action changes lists in place. -/
def Action.changesList : Action → Bool
  | .append .. => true
  | .remove .. => true
  | _ => false

/-- Whether an action changes properties of story objects. -/
def Action.changesProperty : Action → Bool
  | .changeProperty .. => true
  | .transferProperty .. => true
  | _ => false

/-- The story object that an action introduces. -/
def Action.introduces? : Action → Option String
  | .createObject name _ => some name
  | _ => none

/-- The function that an action defines. -/
def Action.defines? : Action → Option Function
  | .define name params body => some ⟨name, params, body⟩
  | _ => none

/-- A policy allows all that an action may do to what is shared, besides making new containers. -/
structure Policy.Permits (p : Policy) (a : Action) : Prop where
  defines : a.defines?.isSome = true → p.defines
  introduces : a.introduces?.isSome = true → p.introduces
  items : a.changesList = true → ∀ heap cell change, p.heap heap (heap.modifyItems cell change)
  property : a.changesProperty = true → ∀ heap cell name old new,
    (heap.fields cell).get? name = some old →
      p.heap heap (heap.modifyFields cell (Entries.put name new))

namespace Exec

open Contract

variable {p : Policy} {m : Machine}

/-! ## Containers -/

theorem obeys_newList (items : List Value) :
    Obeys p (onStore fun _ => Eval.newList items) m :=
  .of_keeps (keeps_newList items)

theorem obeys_getVar (name : String) : Obeys p (getVar? name) m :=
  .of_keeps (keeps_getVar name)

theorem obeys_modifyHeap {change : Heap → Heap}
    (h : p.heap m.store.heap (change m.store.heap)) : Obeys p (modifyHeap change) m :=
  ⟨rfl, rfl, h, fun _ => rfl, fun _ => rfl⟩

theorem obeys_define (function : Function) (permits : p.defines) : Obeys p (define function) m :=
  ⟨rfl, rfl, p.grow (.refl _) id, fun hp => absurd permits hp, fun _ => rfl⟩

theorem obeys_adjust (name amount : String) (direction : Direction) :
    Obeys p (adjust name amount direction) m := by
  refine .bind (.of_keeps (keeps_evaluate amount)) fun v m₁ _ => ?_
  refine .bind (obeys_getVar name) fun current m₂ _ => ?_
  rcases current with _ | current
  · cases direction with
    | increase => exact .setVar name v
    | decrease => exact .bind (.of_keeps (keeps_changed _ v .decrease)) fun _ _ _ => .setVar name _
  · exact .bind (.of_keeps (keeps_changed current v direction)) fun _ _ _ => .setVar name _

theorem obeys_createObject (name : String) (texts : List (String × String))
    (permits : p.introduces) : Obeys p (createObject name texts) m := by
  have evaluated := keeps_properties [] List.nodup_nil texts
  refine .bind (.of_keeps (evaluated.weaken fun _ _ => trivial)) fun fields m₁ hrun => ?_
  have hfields := (evaluated m trivial).2.result fields (congrArg Prod.fst hrun)
  refine .bind (.of_keeps (keeps_newRecordCell hfields)) fun cell m₂ _ => ?_
  have hobjects : Obeys p
      (modify fun m => { m with objects := m.objects.put name cell } : Exec Unit) m₂ :=
    ⟨rfl, rfl, p.grow (.refl _) id, fun _ => rfl, fun hp => absurd permits hp⟩
  exact .bind hobjects fun _ m₃ _ => .setVar name _

theorem obeys_changeObject (object property : String) (amount : Value) (direction : Direction)
    (permits : ∀ heap cell name old new, (heap.fields cell).get? name = some old →
      p.heap heap (heap.modifyFields cell (Entries.put name new))) :
    Obeys p (changeObject object property amount direction) m := by
  refine .bind (.of_keeps Keeps.get) fun now m₁ _ => ?_
  cases now.objects.get? object with
  | none => exact .pure _
  | some cell =>
      refine .bind (.of_keeps Keeps.heap) fun heap m₂ hheap => ?_
      cases hheap
      cases hcurrent : (m₁.store.heap.fields cell).get? property with
      | none =>
          dsimp only
          exact .pure _
      | some current =>
          dsimp only
          have working := keeps_changed current amount direction
          refine .bind (.of_keeps working) fun updated m₃ hrun => ?_
          -- The property is still there on the heap that working out its new value has left.
          have kept : m₁.Kept m₃ := (working.change_of_run trivial hrun).1
          have hcell := Heap.lt_size_of_mem_fields (Entries.mem_of_get? hcurrent)
          rw [← kept.heap.fields hcell] at hcurrent
          refine .bind (obeys_modifyHeap ?_) fun _ m₄ _ => .setVar object _
          exact permits _ cell property current updated hcurrent

theorem obeys_transferProperty (object source sourceProperty property : String)
    (permits : ∀ heap cell name old new, (heap.fields cell).get? name = some old →
      p.heap heap (heap.modifyFields cell (Entries.put name new))) :
    Obeys p (transferProperty object source sourceProperty property) m := by
  refine .bind (.of_keeps Keeps.get) fun now m₁ _ => ?_
  cases now.objects.get? source with
  | none => exact .pure _
  | some cell =>
      refine .bind (.of_keeps Keeps.heap) fun heap m₂ _ => ?_
      cases hamount : (heap.fields cell).get? sourceProperty with
      | none =>
          dsimp only
          exact .pure _
      | some amount =>
          dsimp only
          exact obeys_changeObject object property amount .increase permits

theorem obeys_append (item list : String)
    (permits : ∀ heap cell change, p.heap heap (heap.modifyItems cell change)) :
    Obeys p (append item list) m := by
  refine .bind (.of_keeps (keeps_evaluate item)) fun v m₁ _ => ?_
  refine .bind (obeys_getVar list) fun current m₂ _ => ?_
  rcases current with _ | current
  · exact .bind (obeys_newList _) fun _ _ _ => .setVar list _
  · cases current with
    | list cell => exact obeys_modifyHeap (permits _ cell _)
    | _ => exact .bind (obeys_newList _) fun _ _ _ => .setVar list _

theorem obeys_remove (item list : String)
    (permits : ∀ heap cell change, p.heap heap (heap.modifyItems cell change)) :
    Obeys p (remove item list) m := by
  refine .bind (.of_keeps (keeps_evaluate item)) fun v m₁ _ => ?_
  refine .bind (obeys_getVar list) fun current m₂ _ => ?_
  rcases current with _ | current
  · exact .pure _
  · cases current with
    | list cell =>
        refine .bind (.of_keeps Keeps.heap) fun heap m₃ _ => ?_
        cases hplace : (heap.items cell).findIdx? fun w => w.equal heap v with
        | none =>
            dsimp only
            exact .pure _
        | some place =>
            dsimp only
            exact obeys_modifyHeap (permits _ cell _)
    | _ => exact .pure _

theorem obeys_ask (prompt name : String) : Obeys p (ask prompt name) m := by
  refine .bind ?_ fun answer m₁ _ => .setVar name _
  unfold Obeys
  dsimp only
  split <;> exact .of_eq rfl rfl rfl rfl rfl

theorem obeys_display (value : String) (newline : Bool) : Obeys p (display value newline) m := by
  refine .recover ?_ fun e m₁ _ => ?_
  · exact .bind (.of_keeps (keeps_evaluateText value)) fun _ _ _ => .of_eq rfl rfl rfl rfl rfl
  · cases e.errorClass with
    | name => exact .report _
    | _ => exact .fail e

theorem obeys_writeTo (content path : String) : Obeys p (writeTo content path) m := by
  refine .bind (.of_keeps (keeps_evaluateText content)) fun text m₁ _ => ?_
  refine .bind (.of_keeps (keeps_evaluateText path)) fun path m₂ _ => ?_
  refine .bind (.of_keeps (keeps_noteUsed path)) fun _ m₃ _ => ?_
  refine .bind (.of_keeps Keeps.get) fun now m₄ _ => ?_
  cases now.files.write now.disk path text with
  | ok written => exact .of_eq rfl rfl rfl rfl rfl
  | error e => exact .fail e

theorem obeys_readInto (path name : String) : Obeys p (readInto path name) m := by
  refine .bind (.of_keeps (keeps_evaluateText path)) fun path m₁ _ => ?_
  refine .bind (.of_keeps (keeps_noteUsed path)) fun _ m₂ _ => ?_
  refine .bind (.of_keeps Keeps.get) fun now m₃ _ => ?_
  cases now.files.read now.disk path with
  | ok text => exact .setVar name _
  | error e => exact .fail e

/-- A statement without a block changes what is shared as a policy allows that permits it. -/
theorem obeys_simple {a : Action} {act : Exec Unit} (h : simple? a = some act)
    (permits : p.Permits a) : Obeys p act m := by
  cases a <;> cases h
  case assign name value =>
    exact .bind (.of_keeps (keeps_evaluate value)) fun v _ _ => .setVar name v
  case forget name => exact .of_eq rfl rfl rfl rfl rfl
  case adjust name amount direction => exact obeys_adjust name amount direction
  case createObject name texts => exact obeys_createObject name texts (permits.introduces rfl)
  case changeProperty object amount property direction =>
    exact .bind (.of_keeps (keeps_evaluate amount)) fun v _ _ =>
      obeys_changeObject object property v direction (permits.property rfl)
  case transferProperty object source sourceProperty property =>
    exact obeys_transferProperty object source sourceProperty property (permits.property rfl)
  case define name params body => exact obeys_define _ (permits.defines rfl)
  case append item list => exact obeys_append item list (permits.items rfl)
  case remove item list => exact obeys_remove item list (permits.items rfl)
  case ask prompt name => exact obeys_ask prompt name
  case display value newline => exact obeys_display value newline
  case writeTo content path => exact obeys_writeTo content path
  case readInto path name => exact obeys_readInto path name
  case changeCase value name letters =>
    exact .bind (.of_keeps (keeps_evaluateText value)) fun _ _ _ => .setVar name _
  case unknown text => exact .report _

/-- Functions and story objects change only where one is defined or introduced. -/
theorem tables_of_simple {a : Action} {act : Exec Unit} (h : simple? a = some act) (m : Machine) :
    (a.defines? = none → (act m).2.functions = m.functions) ∧
      (a.introduces? = none → (act m).2.objects = m.objects) := by
  let p : Policy :=
    { heap := fun _ _ => True
      defines := a.defines?.isSome = true
      introduces := a.introduces?.isSome = true
      grow := fun _ _ => trivial
      trans := fun _ _ => trivial }
  have moves : p.Moves m (act m).2 :=
    obeys_simple h ⟨id, id, fun _ _ _ _ => trivial, fun _ _ _ _ _ _ _ => trivial⟩
  refine ⟨fun hnone => moves.functions ?_, fun hnone => moves.objects ?_⟩
  · simp only [p, hnone, Option.isSome_none, Bool.false_eq_true, not_false_eq_true]
  · simp only [p, hnone, Option.isSome_none, Bool.false_eq_true, not_false_eq_true]

theorem obeys_runStatement {s : Statement} {act : Exec Unit} (h : simple? s.action = some act)
    (permits : p.Permits s.action) : Obeys p (runStatement s) m := by
  rw [Obeys, runStatement_simple h]
  exact obeys_simple h permits

end Exec

end Parlance
