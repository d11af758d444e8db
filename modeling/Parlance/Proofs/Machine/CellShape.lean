import Parlance.Proofs.Machine.Provenance

/-!
# The shape of containers over whole runs

A container that is there before a run is there after it, and a record has the same property names
in the same order then. The elements of a list and the values of properties stay as they are, unless
a statement that is meant to change them is executed: in the block itself or in a function that it
calls, at any depth.
-/

namespace Parlance

/-- Whether an action is meant to change containers of the kind of the given one in place. -/
def Action.changes (a : Action) : Ref → Bool
  | .list _ => a.changesList
  | .record _ => a.changesProperty

/-- Containers stay, and the properties of records keep their names and their order. -/
structure Heap.KeepsShape (old new : Heap) : Prop where
  refs : ∀ r ∈ old.refs, r ∈ new.refs
  names : ∀ cell, .record cell ∈ old.refs → (new.fields cell).names = (old.fields cell).names

namespace Heap

theorem KeepsShape.of_extends {old new : Heap} (h : old.Extends new) : old.KeepsShape new where
  refs _ hr := h.refs_subset hr
  names _ hr := congrArg Entries.names (h.agreeAt hr)

theorem KeepsShape.trans {h₁ h₂ h₃ : Heap} (first : h₁.KeepsShape h₂) (second : h₂.KeepsShape h₃) :
    h₁.KeepsShape h₃ where
  refs r hr := second.refs r (first.refs r hr)
  names cell hr := (second.names cell (first.refs _ hr)).trans (first.names cell hr)

theorem KeepsShape.modifyItems (heap : Heap) (cell : Nat) (change : List Value → List Value) :
    heap.KeepsShape (heap.modifyItems cell change) where
  refs r hr := by rwa [refs_modifyItems]
  names _ _ := rfl

theorem KeepsShape.put {heap : Heap} {cell : Nat} {name : String} {old : Value} (new : Value)
    (h : (heap.fields cell).get? name = some old) :
    heap.KeepsShape (heap.modifyFields cell (Entries.put name new)) where
  refs r hr := by rwa [refs_modifyFields]
  names other hr := by
    by_cases heq : other = cell
    · subst heq
      rw [fields_modifyFields (record_mem_refs_iff.mp hr), Entries.names_put_of_get? new h]
    · have hne : Ref.record other ≠ .record cell := fun h => heq (Ref.record.inj h)
      exact congrArg Entries.names (heap.agreeAt_modifyFields _ hne)

end Heap

namespace Policy

/-- Whatever keeps the shape of containers. -/
def keepingShape : Policy where
  heap := Heap.KeepsShape
  defines := True
  introduces := True
  grow ext _ := .of_extends ext
  trans := .trans

theorem keepingShape_permits (a : Action) : keepingShape.Permits a where
  defines _ := trivial
  introduces _ := trivial
  items _ := .modifyItems
  property _ _ _ _ _ new h := .put new h

/-- Whatever leaves one container as it is. -/
def leaving (r : Ref) : Policy where
  heap old new := r ∈ old.refs → r ∈ new.refs ∧ old.AgreeAt new r
  defines := True
  introduces := True
  grow ext _ hr := ⟨ext.refs_subset hr, ext.agreeAt hr⟩
  trans first second hr :=
    ⟨(second (first hr).1).1, (first hr).2.trans (second (first hr).1).2⟩

theorem leaving_permits {r : Ref} {a : Action} (h : a.changes r = false) :
    (leaving r).Permits a where
  defines _ := trivial
  introduces _ := trivial
  items hitems heap cell change hr := by
    have hne : r ≠ .list cell := by
      rintro rfl
      exact Bool.false_ne_true (h.symm.trans hitems)
    exact ⟨by rwa [Heap.refs_modifyItems], heap.agreeAt_modifyItems change hne⟩
  property hproperty heap cell name _ new _ hr := by
    have hne : r ≠ .record cell := by
      rintro rfl
      exact Bool.false_ne_true (h.symm.trans hproperty)
    exact ⟨by rwa [Heap.refs_modifyFields], heap.agreeAt_modifyFields _ hne⟩

end Policy

namespace Exec

theorem keepsShape_runBlock (b : Block) (m : Machine) :
    m.store.heap.KeepsShape (runBlock b m).2.store.heap := by
  have steps : StepsObey .keepingShape b m :=
    fun _ s _ _ _ hact => obeys_runStatement hact (Policy.keepingShape_permits s.action)
  exact (obeys_of_steps b m steps).heap

/-- Running a block comes to execute a statement that is meant to change containers like the given
one, and does change it. -/
def ChangesDuring (b : Block) (m : Machine) (r : Ref) : Prop :=
  ∃ waiting s m', Executes b m waiting s m' ∧ s.action.changes r = true ∧
    ¬ m'.store.heap.AgreeAt (runStatement s m').2.store.heap r

/-- A container that differs after a run was changed by a statement that the run has executed. -/
theorem agreeAt_or_changes (b : Block) (m : Machine) {r : Ref} (hr : r ∈ m.store.heap.refs) :
    m.store.heap.AgreeAt (runBlock b m).2.store.heap r ∨ ChangesDuring b m r := by
  by_cases hchanges : ChangesDuring b m r
  · exact .inr hchanges
  · have steps : StepsObey (.leaving r) b m := by
      intro waiting s m' hexecuted act hact
      cases hkind : s.action.changes r with
      | false => exact obeys_runStatement hact (Policy.leaving_permits hkind)
      | true =>
          have agree : m'.store.heap.AgreeAt (runStatement s m').2.store.heap r := by
            by_contra hdiffers
            exact hchanges ⟨waiting, s, m', hexecuted, hkind, hdiffers⟩
          have shape : Obeys .keepingShape (runStatement s) m' :=
            obeys_runStatement hact (Policy.keepingShape_permits s.action)
          exact ⟨shape.settings, shape.depth, fun hr => ⟨shape.heap.refs r hr, agree⟩,
            fun h => absurd trivial h, fun h => absurd trivial h⟩
    exact .inl ((obeys_of_steps b m steps).heap hr).2

/-- A block and functions without statements that change lists execute none. -/
theorem not_changesDuring {b : Block} {m : Machine} {cell : Nat}
    (hb : b.All fun a => a.changesList = false)
    (hm : m.FunctionsAll fun a => a.changesList = false) : ¬ ChangesDuring b m (.list cell) := by
  rintro ⟨waiting, s, m', hexecuted, hkind, -⟩
  have none := (hexecuted.supplied hb hm).2.self
  exact Bool.false_ne_true (none.symm.trans hkind)

/-- The definition of a function is no statement that changes lists, so its body counts. -/
theorem functionsAll_of_bodies {m : Machine}
    (h : ∀ name function, m.functions.get? name = some function →
      function.body.All fun a => a.changesList = false) :
    m.FunctionsAll fun a => a.changesList = false := by
  intro name function hfound x hx
  rcases List.mem_cons.mp hx with rfl | hx
  · rfl
  · exact h name function hfound x hx

/-- Whatever the outcome of a run, containers that were there keep their shape: a record has the
same property names in the same order, and its fields differ only if a change or a transfer of a
property that was executed has changed them; the elements of a list differ only if an append or a
remove that was executed has changed them, so without any in the block and in the functions they do
not. -/
theorem containers_keep_their_shape (b : Block) (m : Machine) :
    (∀ cell < m.store.heap.records.size,
        cell < (runBlock b m).2.store.heap.records.size ∧
          ((runBlock b m).2.store.heap.fields cell).names = (m.store.heap.fields cell).names ∧
          ((runBlock b m).2.store.heap.fields cell = m.store.heap.fields cell ∨
            ∃ waiting s m', Executes b m waiting s m' ∧ s.action.changesProperty = true ∧
              (runStatement s m').2.store.heap.fields cell ≠ m'.store.heap.fields cell)) ∧
      (∀ cell < m.store.heap.lists.size,
        cell < (runBlock b m).2.store.heap.lists.size ∧
          ((runBlock b m).2.store.heap.items cell = m.store.heap.items cell ∨
            ∃ waiting s m', Executes b m waiting s m' ∧ s.action.changesList = true ∧
              (runStatement s m').2.store.heap.items cell ≠ m'.store.heap.items cell)) ∧
      ((b.All fun a => a.changesList = false) →
        (∀ name function, m.functions.get? name = some function →
          function.body.All fun a => a.changesList = false) →
        ∀ cell < m.store.heap.lists.size,
          (runBlock b m).2.store.heap.items cell = m.store.heap.items cell) := by
  have shape := keepsShape_runBlock b m
  refine ⟨fun cell hcell => ?_, fun cell hcell => ?_, fun hb hfunctions cell hcell => ?_⟩
  · have hr := Heap.record_mem_refs_iff.mpr hcell
    exact ⟨Heap.record_mem_refs_iff.mp (shape.refs _ hr), shape.names cell hr,
      agreeAt_or_changes b m hr⟩
  · have hr := Heap.list_mem_refs_iff.mpr hcell
    exact ⟨Heap.list_mem_refs_iff.mp (shape.refs _ hr), agreeAt_or_changes b m hr⟩
  · have unchanged : ¬ ChangesDuring b m (.list cell) :=
      not_changesDuring hb (functionsAll_of_bodies hfunctions)
    exact (agreeAt_or_changes b m (Heap.list_mem_refs_iff.mpr hcell)).resolve_right unchanged

/-- A machine with a bag, a hero and a function in which the hero pays. -/
def innMachine : Machine :=
  { vars := NameMap.ofList [("bag", .list 0), ("hero", .record 0)]
    functions := NameMap.set {} "stay"
      ⟨"stay", ["price"], [.mk 2 (.changeProperty "hero" "price" "gold" .decrease)]⟩
    objects := [("hero", 0)]
    store := { heap := { lists := #[[.int 1]], records := #[[("gold", .int 5)]] } } }

/-- Staying at the inn leaves the bag as it is. The hero has less gold, because a statement in the
function was executed. -/
theorem containers_keep_their_shape_at_inn :
    let b : Block := [.mk 4 (.assign "luggage" "bag"), .mk 5 (.call "stay" ["2"])]
    let after := (runBlock b innMachine).2.store.heap
    (b.All fun a => a.changesList = false) ∧
      (∀ name function, innMachine.functions.get? name = some function →
        function.body.All fun a => a.changesList = false) ∧
      after.items 0 = [.int 1] ∧ (after.fields 0).names = ["gold"] ∧
      ((after.fields 0).get? "gold").bind Value.integral? = some 3 ∧
      ∃ waiting s m', Executes b innMachine waiting s m' ∧ s.action.changesProperty = true ∧
        (runStatement s m').2.store.heap.fields 0 ≠ m'.store.heap.fields 0 := by
  intro b after
  have hb : b.All fun a => a.changesList = false := by
    unfold Block.All
    decide
  have hfunctions : ∀ name function, innMachine.functions.get? name = some function →
      function.body.All fun a => a.changesList = false := by
    intro name function hfound
    rw [innMachine, NameMap.get?_set] at hfound
    split at hfound
    · cases hfound
      unfold Block.All
      decide
    · cases hfound
  have hpaid : ((after.fields 0).get? "gold").bind Value.integral? = some 3 := by decide +kernel
  obtain ⟨records, -, lists⟩ := containers_keep_their_shape b innMachine
  obtain ⟨-, hnames, hfields⟩ := records 0 (by decide)
  have hitems := lists hb hfunctions 0 (by decide)
  have hbag : innMachine.store.heap.items 0 = [.int 1] := rfl
  have hproperties : (innMachine.store.heap.fields 0).names = ["gold"] := rfl
  refine ⟨hb, hfunctions, hitems.trans hbag, hnames.trans hproperties, hpaid, ?_⟩
  refine hfields.resolve_left fun hsame => ?_
  have hgold : ((innMachine.store.heap.fields 0).get? "gold").bind Value.integral? = some 5 := rfl
  rw [← hsame, hpaid] at hgold
  exact absurd hgold (by decide)

end Exec

end Parlance
