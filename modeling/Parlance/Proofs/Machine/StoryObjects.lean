import Parlance.Proofs.Expr.Properties
import Parlance.Proofs.Machine.Provenance
import Parlance.Proofs.Machine.Session

/-!
# Story objects and their variables

A story object is known twice: as an object, in a table that all calls share, and as a variable, of
which every call has a copy of its own. A program that binds the names of its objects to nothing
else, and introduces none inside functions, never gets the two out of step: throughout a run,
wherever it stands, every object is bound to its own record in all calls that are open.
-/

namespace Parlance

/-! ## Programs that leave the names of objects alone -/

/-- The names that an action gives a value other than a story object, or forgets. -/
def Action.rebinds : Action → List String
  | .assign name _ => [name]
  | .forget name => [name]
  | .adjust name _ _ => [name]
  | .append _ list => [list]
  | .ask _ name => [name]
  | .readInto _ name => [name]
  | .changeCase _ name _ => [name]
  | .forEach item _ _ => [item]
  | .define _ params _ => params
  | _ => []

/-- An action leaves the names of story objects alone, and introduces no others. -/
structure Action.Respects (names : List String) (a : Action) : Prop where
  rebinds : ∀ n ∈ a.rebinds, n ∉ names
  introduces : ∀ n ∈ a.introduces?, n ∈ names
  bodies : ∀ function ∈ a.defines?, function.body.All fun x => x.introduces? = none

/-- The names of the story objects that a block introduces. -/
def Block.objectNames (b : Block) : List String :=
  b.allActions.filterMap Action.introduces?

/-- A block that introduces story objects outside functions only, and uses their names for nothing
else. -/
structure Block.KeepsObjects (b : Block) : Prop where
  rebinds : ∀ a ∈ b.allActions, ∀ n ∈ a.rebinds, n ∉ b.objectNames
  bodies : ∀ a ∈ b.allActions, ∀ function ∈ a.defines?,
    ∀ x ∈ function.body.allActions, x.introduces? = none
  error : Exec.errorName ∉ b.objectNames
  result : Exec.lastResult ∉ b.objectNames

theorem Block.KeepsObjects.respects {b : Block} (h : b.KeepsObjects) :
    b.All (Action.Respects b.objectNames) := by
  intro a ha
  exact ⟨h.rebinds a ha, fun n hn => List.mem_filterMap.mpr ⟨a, ha, hn⟩, h.bodies a ha⟩

/-- Apart from story objects and what calls and handlers leave, an action binds only what it
rebinds. -/
theorem Action.mem_rebinds_of_binds {a : Action} {n : String} (hn : n ∈ a.binds)
    (hintroduces : a.introduces? = none) (hproperty : a.changesProperty = false) :
    n ∈ a.rebinds ∨ n = Exec.errorName ∨ n = Exec.lastResult := by
  cases a with
  | createObject => cases hintroduces
  | changeProperty => cases hproperty
  | transferProperty => cases hproperty
  | call => exact .inr (.inr (List.mem_singleton.mp hn))
  | attempt body handler =>
      cases handler with
      | none => cases hn
      | some handling => exact .inr (.inl (List.mem_singleton.mp hn))
  | define => cases hn
  | _ => exact .inl hn

/-! ## Objects and variables in step -/

/-- Every story object is bound to its own record. -/
def InStep (objects : Entries Nat) (scope : Bindings) : Prop :=
  ∀ name cell, objects.get? name = some cell → scope.get? name = some (.record cell)

/-- The story objects of a machine have the given names and are in step with the variables, and its
functions leave these names alone. -/
structure Machine.Sharing (names : List String) (m : Machine) : Prop where
  functions : m.FunctionsAll (Action.Respects names)
  named : ∀ name cell, m.objects.get? name = some cell → name ∈ names
  inStep : InStep m.objects m.vars

theorem Entries.get?_put (entries : Entries α) (name other : String) (value : α) :
    (put name value entries).get? other =
      if other = name then some value else entries.get? other := by
  induction entries with
  | nil => simp [put, get?, NameMap.lookup_cons_ite]
  | cons head rest ih =>
      obtain ⟨key, old⟩ := head
      unfold get? at ih ⊢
      simp only [put]
      split
      · next heq =>
        subst heq
        by_cases h : other = name <;> simp [NameMap.lookup_cons_ite, h]
      · next hne =>
        rw [NameMap.lookup_cons_ite, NameMap.lookup_cons_ite, ih]
        by_cases h : other = name
        · subst h
          simp [hne]
        · simp [h]

namespace Machine.Sharing

variable {names : List String} {m m' : Machine}

/-- Only the functions, the story objects and the variables with their names count. -/
theorem of_eq (h : m.Sharing names) (hf : m'.FunctionsAll (Action.Respects names))
    (ho : m'.objects = m.objects) (hv : ∀ n ∈ names, m'.vars.get? n = m.vars.get? n) :
    m'.Sharing names where
  functions := hf
  named name cell hcell := h.named name cell (ho ▸ hcell)
  inStep name cell hcell := by
    rw [ho] at hcell
    rw [hv name (h.named name cell hcell)]
    exact h.inStep name cell hcell

theorem of_kept (h : m.Sharing names) (kept : m.Kept m') : m'.Sharing names :=
  h.of_eq (fun name function hf => h.functions name function (kept.functions ▸ hf)) kept.objects
    fun _ _ => by rw [kept.vars]

/-- Binding a name to the record of the object of that name. -/
theorem setObject (h : m.Sharing names) {name : String} {cell : Nat}
    (hcell : m.objects.get? name = some cell) :
    { m with vars := m.vars.set name (.record cell) }.Sharing names where
  functions := h.functions
  named := h.named
  inStep other cell' hother := by
    rw [NameMap.get?_set]
    split
    · next heq =>
      subst heq
      rw [Option.some.inj (hcell.symm.trans hother)]
    · exact h.inStep other cell' hother

/-- A new object is bound to its record as it is introduced. -/
theorem introduce (h : m.Sharing names) {name : String} (hname : name ∈ names) (cell : Nat) :
    { m with objects := m.objects.put name cell, vars := m.vars.set name (.record cell) }.Sharing
      names where
  functions := h.functions
  named other cell' hother := by
    rw [Entries.get?_put] at hother
    split at hother
    · next heq => exact heq ▸ hname
    · exact h.named other cell' hother
  inStep other cell' hother := by
    rw [Entries.get?_put] at hother
    rw [NameMap.get?_set]
    split at hother
    · next heq => rw [if_pos heq, Option.some.inj hother]
    · next hne =>
      rw [if_neg hne]
      exact h.inStep other cell' hother

/-- Functions introduce no objects, not even by calling others. -/
theorem quiet (h : m.Sharing names) : m.FunctionsAll fun a => a.introduces? = none := by
  intro name function hfound x hx
  rcases List.mem_cons.mp hx with rfl | hx
  · rfl
  · exact (h.functions name function hfound).self.bodies function rfl x hx

end Machine.Sharing

theorem Exec.frame_get? {params : List String} {n : String} (hn : n ∉ params) (scope : Bindings)
    (args : List Value) : (frame scope params args).get? n = scope.get? n := by
  unfold frame
  induction params generalizing scope args with
  | nil => rfl
  | cons param params ih =>
      rw [List.mem_cons, not_or] at hn
      cases args with
      | nil => rfl
      | cons arg args =>
          rw [List.zip_cons_cons, List.foldl_cons, ih hn.2, NameMap.get?_set, if_neg hn.1]

namespace Contract

open Exec

variable {names : List String}

/-- The contract of computations that keep story objects and variables in step. -/
def sharing (names : List String) : Contract where
  start := Machine.Sharing names
  change m m' := m.Sharing names → m'.Sharing names
  halt _ := True
  refl _ := id
  trans h₁ h₂ := h₂ ∘ h₁
  keeps hm h := h hm

/-- The same for computations that moreover introduce no objects. -/
def sharingFixed (names : List String) (objects : Entries Nat) : Contract where
  start m := m.Sharing names ∧ m.objects = objects
  change m m' := m.Sharing names ∧ m.objects = objects → m'.Sharing names ∧ m'.objects = objects
  halt _ := True
  refl _ := id
  trans h₁ h₂ := h₂ ∘ h₁
  keeps hm h := h hm

theorem Agree.sharing {F : α → Prop} {x : Exec α}
    (h : ∀ objects, (sharingFixed names objects).Agree F x x) : (sharing names).Agree F x x := by
  intro m hm
  have allowed := (h m.objects m ⟨hm, rfl⟩).2
  exact ⟨rfl, fun _ => (allowed.change ⟨hm, rfl⟩).1, fun _ _ => trivial, allowed.result⟩

theorem Agree.sharingFixed {F : α → Prop} {x : Exec α} (h : keeping.Agree F x x)
    (objects : Entries Nat) : (sharingFixed names objects).Agree F x x :=
  h.relax (fun _ _ => trivial)
    (fun kept hm => ⟨hm.1.of_kept kept.1, kept.1.objects.trans hm.2⟩) fun _ => trivial

theorem sharing_basic : (sharing names).Basic where
  evaluate text := .sharing fun objects => (keeps_evaluate text).sharingFixed objects
  print _ := .modify fun _ _ hm => hm.of_eq hm.functions rfl fun _ _ => rfl
  failure _ := trivial

theorem sharing_setVar {name : String} (hname : name ∉ names) (v : Value) :
    (sharing names).Keeps (setVar name v) := by
  refine .modify fun m _ hm => hm.of_eq hm.functions rfl fun n hn => ?_
  have hne : n ≠ name := fun heq => hname (heq ▸ hn)
  simp [NameMap.get?_set, hne]

/-! ## Statements about story objects -/

theorem sharing_createObject {name : String} (hname : name ∈ names)
    (texts : List (String × String)) : (sharing names).Keeps (createObject name texts) := by
  refine Agree.bind (.sharing fun objects =>
    (keeps_properties [] List.nodup_nil texts).sharingFixed objects) fun fields hfields => ?_
  refine Agree.bind (.sharing fun objects =>
    (keeps_newRecordCell hfields).sharingFixed objects) fun cell _ => ?_
  -- Between the two changes the new object is not bound, so they count as one.
  intro m hm
  exact ⟨rfl, fun _ => hm.introduce hname cell, fun _ _ => trivial, fun _ _ => trivial⟩

theorem sharingFixed_changeObject (objects : Entries Nat) (object property : String)
    (amount : Value) (direction : Direction) :
    (sharingFixed names objects).Keeps (changeObject object property amount direction) := by
  have now : (sharingFixed names objects).Agree (fun m => m.objects = objects) get get :=
    fun m hm => ⟨rfl, id, fun _ _ => trivial, fun _ h => Except.ok.inj h ▸ hm.2⟩
  refine now.bind fun m₀ hobjects => ?_
  cases hcell : m₀.objects.get? object with
  | none => exact .pure trivial
  | some cell =>
      refine Keeps.heap.bind fun heap _ => ?_
      cases (heap.fields cell).get? property with
      | none => exact .pure trivial
      | some current =>
          refine Agree.bind ((keeps_changed current amount direction).sharingFixed objects)
            fun updated _ => ?_
          have heap : (sharingFixed names objects).Keeps
              (modifyHeap fun h => h.modifyFields cell (·.put property updated)) :=
            .modify fun m _ hm => ⟨hm.1.of_eq hm.1.functions rfl fun _ _ => rfl, hm.2⟩
          refine heap.bind fun _ _ => Keeps.modify fun m _ hm => ⟨hm.1.setObject ?_, hm.2⟩
          rw [hm.2, ← hobjects]
          exact hcell

theorem sharingFixed_transferProperty (objects : Entries Nat)
    (object source sourceProperty property : String) :
    (sharingFixed names objects).Keeps
      (transferProperty object source sourceProperty property) := by
  refine Keeps.get.bind fun m₀ _ => ?_
  cases m₀.objects.get? source with
  | none => exact .pure trivial
  | some cell =>
      refine Keeps.heap.bind fun heap _ => ?_
      cases (heap.fields cell).get? sourceProperty with
      | none => exact .pure trivial
      | some amount => exact sharingFixed_changeObject objects object property amount .increase

/-! ## Whole runs -/

section Runs

variable (herror : errorName ∉ names) (hresult : lastResult ∉ names)

include herror hresult

theorem not_mem_of_binds {a : Action} (ha : a.Respects names) {n : String} (hn : n ∈ a.binds)
    (hintroduces : a.introduces? = none) (hproperty : a.changesProperty = false) : n ∉ names := by
  rcases a.mem_rebinds_of_binds hn hintroduces hproperty with h | rfl | rfl
  · exact ha.rebinds n h
  · exact herror
  · exact hresult

/-- Other statements leave the objects and the variables with their names alone. -/
theorem sharing_other {a : Action} {act : Exec Unit} (ha : a.All (Action.Respects names))
    (h : simple? a = some act) (hintroduces : a.introduces? = none)
    (hproperty : a.changesProperty = false) : (sharing names).Keeps act := by
  intro m hm
  refine ⟨rfl, fun _ => ?_, fun _ _ => trivial, fun _ _ => trivial⟩
  have functions := (supplied_simple ha h m hm.functions).2.change.1 hm.functions
  have vars := (simple_touches h (fun _ => id) m trivial).2.change.2.2
  refine hm.of_eq functions ((tables_of_simple h m).2 hintroduces) fun n hn => ?_
  refine vars n fun hbinds => ?_
  exact not_mem_of_binds herror hresult ha.self hbinds hintroduces hproperty hn

theorem sharing_simple {a : Action} {act : Exec Unit} (ha : a.All (Action.Respects names))
    (h : simple? a = some act) : (sharing names).Keeps act := by
  cases a with
  | createObject name texts =>
      cases h
      exact sharing_createObject (ha.self.introduces name rfl) texts
  | changeProperty object amount property direction =>
      cases h
      exact .sharing fun objects => ((keeps_evaluate amount).sharingFixed objects).bind fun v _ =>
        sharingFixed_changeObject objects object property v direction
  | transferProperty object source sourceProperty property =>
      cases h
      exact .sharing fun objects =>
        sharingFixed_transferProperty objects object source sourceProperty property
  | _ => exact sharing_other herror hresult ha h rfl rfl

omit herror hresult in
/-- A call gives its caller the variables back, and the objects are those that were there. -/
theorem sharing_call (name : String) (args : List Value) :
    (sharing names).Keeps (call runBlock name args) := by
  intro m hm
  refine ⟨rfl, fun _ => ?_, fun _ _ => trivial, fun _ _ => trivial⟩
  rcases call_cases name args m with ⟨e, hfail⟩ | ⟨function, hf, hdepth⟩
  · rw [hfail]
    exact hm
  · have body := (hm.functions name function hf).block List.mem_cons_self
    have quiet := (hm.quiet name function hf).block List.mem_cons_self
    have functions := (supplied_runBlock body (entering m function args) hm.functions).2.change.1
    have objects := (supplied_runBlock quiet (entering m function args) hm.quiet).2.change.2
    rw [call_enters hf hdepth]
    exact hm.of_eq (functions hm.functions) (objects fun _ h => h) fun _ _ => rfl

theorem sharing_covers (a : Action) (ha : a.All (Action.Respects names)) :
    (sharing names).Covers runBlock runBlock a := by
  cases a with
  | call name args => exact ⟨sharing_call name, sharing_setVar hresult⟩
  | attempt body handler =>
      cases handler with
      | none => exact fun _ h => by cases h
      | some handling => exact sharing_setVar herror
  | forEach item iterable body => exact sharing_setVar (ha.self.rebinds item List.mem_cons_self)
  | _ => exact fun _ h => sharing_simple herror hresult ha h

theorem sharing_runStatement {s : Statement} (hs : s.action.All (Action.Respects names)) :
    (sharing names).Keeps (runStatement s) :=
  keeps_runStatement sharing_basic fun x hx => sharing_covers herror hresult x (hs.of_part hx)

omit herror hresult in
theorem sharing_entering {m : Machine} {function : Function} (values : List Value)
    (hm : m.Sharing names) (hf : function.definition.All (Action.Respects names)) :
    (entering m function values).Sharing names :=
  hm.of_eq hm.functions rfl fun n hn => frame_get? (fun h => hf.self.rebinds n h hn) _ _

theorem sharing_of_executes {b : Block} {m m' : Machine} {waiting : List Bindings} {s : Statement}
    (h : Executes b m waiting s m') (hb : b.All (Action.Respects names)) (hm : m.Sharing names) :
    m'.Sharing names ∧ s.action.All (Action.Respects names) := by
  obtain ⟨change, hs⟩ := change_of_executes sharing_basic (·.functions)
    (sharing_covers herror hresult) (fun values hm hf _ => sharing_entering values hm hf) h hb hm
  exact ⟨change hm, hs⟩

/-- The calls that wait have their variables in step too: what they wait for introduces no
objects. -/
theorem waiting_inStep {b : Block} {m m' : Machine} {waiting : List Bindings} {s : Statement}
    (h : Executes b m waiting s m') (hb : b.All (Action.Respects names)) (hm : m.Sharing names) :
    ∀ scope ∈ waiting,
      InStep m'.objects scope ∧ InStep (runStatement s m').2.objects scope := by
  induction h with
  | here => exact nofun
  | later run _ ih =>
      exact ih hb.rest ((sharing_runStatement herror hresult hb.first).change_of_run hm run hm)
  | inside enters _ ih =>
      have change := change_of_enters sharing_basic
        (fun x hx => sharing_covers herror hresult x (hb.first.of_part hx)) hm enters
      exact ih (hb.first.block enters.mem_blocks) (change hm)
  | @called _ _ _ name _ values function _ m₁ m' _ _ evaluated found _ more ih =>
      have hm₁ : m₁.Sharing names := (sharing_basic.arguments _).change_of_run hm evaluated hm
      have definition := hm₁.functions name function found
      have quiet := (hm₁.quiet name function found).block List.mem_cons_self
      obtain ⟨change, hs⟩ := more.supplied quiet hm₁.quiet
      have before : m'.objects = m₁.objects := change.2 fun _ h => h
      have after := (supplied_runStatement hs m' (change.1 hm₁.quiet)).2.change.2 fun _ h => h
      intro scope hscope
      rcases List.mem_append.mp hscope with hscope | hscope
      · exact ih (definition.block List.mem_cons_self) (sharing_entering values hm₁ definition)
          scope hscope
      · rw [List.mem_singleton.mp hscope, after, before]
        exact ⟨hm₁.inStep, hm₁.inStep⟩

end Runs

end Contract

namespace Exec

open Contract

/-! ## Programs -/

/-- Running a program comes to execute a statement. A failure or a signal to a loop ends a statement
of the program only, a value that is given back ends the program. -/
inductive ProgramExecutes : Block → Machine → List Bindings → Statement → Machine → Prop
  | now {s s' : Statement} {rest : Block} {m m' : Machine} {waiting : List Bindings}
      (executes : Executes [s] m waiting s' m') : ProgramExecutes (s :: rest) m waiting s' m'
  | later {s s' : Statement} {rest : Block} {m m' : Machine} {waiting : List Bindings}
      (goesOn : givesBack [s] m = false)
      (more : ProgramExecutes rest (runProgram [s] m).2 waiting s' m') :
      ProgramExecutes (s :: rest) m waiting s' m'

theorem sharing_settled {names : List String} {ended : Except Halt Flow × Machine}
    (h : ended.2.Sharing names) : (settled ended).Sharing names := by
  rcases ended with ⟨(e | _) | flow, m⟩
  · exact ⟨h.functions, h.named, h.inStep⟩
  · exact h
  · cases flow <;> exact ⟨h.functions, h.named, h.inStep⟩

/-- Every statement of a program is executed where objects and variables are in step. -/
theorem sharing_of_programExecutes {names : List String} (herror : errorName ∉ names)
    (hresult : lastResult ∉ names) {b : Block} {m m' : Machine} {waiting : List Bindings}
    {s : Statement} (h : ProgramExecutes b m waiting s m') (hb : b.All (Action.Respects names))
    (hm : m.Sharing names) :
    m'.Sharing names ∧ (runStatement s m').2.Sharing names ∧ ∀ scope ∈ waiting,
      InStep m'.objects scope ∧ InStep (runStatement s m').2.objects scope := by
  induction h with
  | @now t _ _ _ m' _ executes =>
      have ht : Block.All (Action.Respects names) [t] := by
        intro x hx
        rw [Block.allActions, Block.actions_cons, Block.actions, List.append_nil] at hx
        exact hb.first x hx
      obtain ⟨hm', hs⟩ := sharing_of_executes herror hresult executes ht hm
      have after := (sharing_runStatement herror hresult hs m' hm').2.change hm'
      exact ⟨hm', after, waiting_inStep herror hresult executes ht hm⟩
  | @later t _ _ m _ _ goesOn _ ih =>
      refine ih hb.rest ?_
      rw [runProgram_single goesOn]
      exact sharing_settled ((sharing_runStatement herror hresult hb.first m hm).2.change hm)

/-- Executed on a machine, a statement gives a property of a story object a new value. -/
inductive GivesProperty : Statement → Machine → String → String → Value → Prop
  | change {line : Nat} {object amount property : String} {direction : Direction}
      {m m₁ m₂ : Machine} {v old new : Value} {cell : Nat}
      (value : evaluate amount m = (.ok v, m₁)) (known : m₁.objects.get? object = some cell)
      (current : (m₁.store.heap.fields cell).get? property = some old)
      (result : changed old v direction m₁ = (.ok new, m₂)) :
      GivesProperty (.mk line (.changeProperty object amount property direction)) m object property
        new
  | transfer {line : Nat} {object source sourceProperty property : String} {m m₁ : Machine}
      {v old new : Value} {cell sourceCell : Nat} (giver : m.objects.get? source = some sourceCell)
      (amount : (m.store.heap.fields sourceCell).get? sourceProperty = some v)
      (known : m.objects.get? object = some cell)
      (current : (m.store.heap.fields cell).get? property = some old)
      (result : changed old v .increase m = (.ok new, m₁)) :
      GivesProperty (.mk line (.transferProperty object source sourceProperty property)) m object
        property new

theorem get_run (m : Machine) : (get : Exec Machine) m = (.ok m, m) := rfl

theorem heap_run (m : Machine) : heap m = (.ok m.store.heap, m) := rfl

theorem changeObject_run {object property : String} {amount old new : Value} {direction : Direction}
    {m m₁ : Machine} {cell : Nat} (known : m.objects.get? object = some cell)
    (current : (m.store.heap.fields cell).get? property = some old)
    (result : changed old amount direction m = (.ok new, m₁)) :
    let after := (changeObject object property amount direction m).2
    after.objects.get? object = some cell ∧
      (after.store.heap.fields cell).get? property = some new := by
  intro after
  have kept : m.Kept m₁ := ((keeps_changed old amount direction).change_of_run trivial result).1
  have hcell : cell < m₁.store.heap.records.size := by
    have := Heap.lt_size_of_mem_fields (Entries.mem_of_get? current)
    have := kept.heap.records_size_le
    omega
  have hafter : after = { m₁ with
      vars := m₁.vars.set object (.record cell)
      store := { m₁.store with
        heap := m₁.store.heap.modifyFields cell (Entries.put property new) } } := by
    simp only [after, changeObject, bind_run, get_run, heap_run, known, current, result]
    rfl
  rw [hafter]
  refine ⟨kept.objects ▸ known, ?_⟩
  dsimp only
  rw [Heap.fields_modifyFields hcell, Entries.get?_put, if_pos rfl]

theorem stored_of_givesProperty {s : Statement} {m : Machine} {object property : String}
    {new : Value} (h : GivesProperty s m object property new) :
    ∃ cell, (runStatement s m).2.objects.get? object = some cell ∧
      ((runStatement s m).2.store.heap.fields cell).get? property = some new := by
  cases h with
  | @change _ _ _ _ _ _ _ _ _ _ _ cell value known current result =>
      rw [runStatement_simple rfl]
      simp only [changeProperty, bind_run, value]
      exact ⟨cell, changeObject_run known current result⟩
  | @transfer _ _ _ _ _ _ _ _ _ _ cell _ giver amount known current result =>
      rw [runStatement_simple rfl]
      simp only [transferProperty, bind_run, get_run, heap_run, giver, amount]
      exact ⟨cell, changeObject_run known current result⟩

/-- In a program that leaves the names of its story objects alone, started where there are no
functions and objects yet, every object is bound to its own record before and after every statement
that is executed, among the variables that this statement works on and among those of all calls that
wait for it. So a text of the object's name and a property that is looked up reads what the record
has at the time, with each of them; and a new value that a statement gives a property is what it then
reads. -/
theorem story_objects_stay_one_record {b : Block} (hb : b.KeepsObjects) {m : Machine}
    (hfunctions : m.functions = {}) (hobjects : m.objects = []) {waiting : List Bindings}
    {s : Statement} {m' : Machine} (h : ProgramExecutes b m waiting s m') :
    (∀ x ∈ [m', (runStatement s m').2], ∀ scope ∈ x.vars :: waiting,
        ∀ name cell, x.objects.get? name = some cell →
          scope.get? name = some (.record cell) ∧
            Entries.get? (Phrase.records x.store.heap scope) name =
              some (x.store.heap.fields cell) ∧
            ∀ (text : String) property v,
              Evaluate.LooksUp scope x.store text.toList name property →
                (x.store.heap.fields cell).get? property = some v →
                  Evaluate.text scope text x.store =
                    (.ok v, Evaluate.tried text.toList x.store)) ∧
      ∀ object property new, GivesProperty s m' object property new →
        ∀ scope ∈ (runStatement s m').2.vars :: waiting, ∀ text : String,
          Evaluate.LooksUp scope (runStatement s m').2.store text.toList object property →
            Evaluate.text scope text (runStatement s m').2.store =
              (.ok new, Evaluate.tried text.toList (runStatement s m').2.store) := by
  have hm : m.Sharing b.objectNames := by
    refine ⟨fun name function hf => ?_, fun name cell hcell => ?_, fun name cell hcell => ?_⟩
    · rw [hfunctions] at hf
      cases hf
    · rw [hobjects] at hcell
      cases hcell
    · rw [hobjects] at hcell
      cases hcell
  obtain ⟨before, after, waits⟩ :=
    sharing_of_programExecutes hb.error hb.result h hb.respects hm
  have inStep : ∀ x ∈ [m', (runStatement s m').2], ∀ scope ∈ x.vars :: waiting,
      InStep x.objects scope := by
    intro x hx scope hscope
    simp only [List.mem_cons, List.not_mem_nil, or_false] at hx hscope
    rcases hx with rfl | rfl <;> rcases hscope with rfl | hscope
    · exact before.inStep
    · exact (waits scope hscope).1
    · exact after.inStep
    · exact (waits scope hscope).2
  refine ⟨fun x hx scope hscope name cell hcell => ?_,
    fun object property new hgives scope hscope text hlooksUp => ?_⟩
  · have hbound := inStep x hx scope hscope name cell hcell
    exact ⟨hbound, Phrase.get?_records x.store.heap hbound,
      fun text property v hlooksUp hstored => Evaluate.text_of_property hlooksUp hbound hstored⟩
  · obtain ⟨cell, hcell, hstored⟩ := stored_of_givesProperty hgives
    have hbound := inStep _ (by simp) scope hscope object cell hcell
    exact Evaluate.text_of_property hlooksUp hbound hstored

/-- A machine at the start of a session. -/
def tollStart : Machine :=
  Session.start {} 0 {} (.memory {}) {}

/-- A function in which the hero pays. -/
def toll : Function :=
  ⟨"toll", ["price"], [.mk 3 (.changeProperty "hero" "price" "gold" .decrease)]⟩

/-- A hero is introduced and comes to the toll. -/
def tollProgram : Block :=
  [.mk 1 (.createObject "hero" [("gold", "5")]), .mk 2 toll.definition, .mk 4 (.call "toll" ["2"])]

/-- The machine in front of the call. -/
def tollMachine : Machine :=
  { tollStart with
    vars := NameMap.set {} "hero" (.record 0)
    functions := NameMap.set {} "toll" toll
    objects := [("hero", 0)]
    store := { tollStart.store with heap := { records := #[[("gold", .int 5)]] } } }

theorem tollProgram_executes :
    ProgramExecutes tollProgram tollStart [tollMachine.vars]
      (.mk 3 (.changeProperty "hero" "price" "gold" .decrease))
      (entering tollMachine toll [.int 2]) := by
  have reached : (runProgram [.mk 2 toll.definition]
      (runProgram [.mk 1 (.createObject "hero" [("gold", "5")])] tollStart).2).2 =
        tollMachine := rfl
  have evaluated : arguments ["2"] tollMachine = (.ok [.int 2], tollMachine) := rfl
  have found : tollMachine.functions.get? "toll" = some toll := rfl
  refine .later rfl (.later rfl (.now ?_))
  rw [reached]
  exact .called rfl evaluated found (by decide) .here

/-- While the hero pays inside the function, the program that waits for it has the hero bound to the
same record, and reads there what is left. -/
theorem story_objects_stay_one_record_at_toll :
    let s : Statement := .mk 3 (.changeProperty "hero" "price" "gold" .decrease)
    let inside := entering tollMachine toll [.int 2]
    let after := (runStatement s inside).2.store
    tollProgram.KeepsObjects ∧ tollStart.functions = {} ∧ tollStart.objects = [] ∧
      ProgramExecutes tollProgram tollStart [tollMachine.vars] s inside ∧
      GivesProperty s inside "hero" "gold" (.int 3) ∧
      tollMachine.vars.get? "hero" = some (.record 0) ∧
      Evaluate.LooksUp tollMachine.vars after "hero gold".toList "hero" "gold" ∧
      Evaluate.text tollMachine.vars "hero gold" after = (.ok (.int 3), after) := by
  intro s inside after
  have keeps : tollProgram.KeepsObjects := ⟨by decide, by decide, by decide, by decide⟩
  have value : evaluate "price" inside = (.ok (.int 2), inside) := rfl
  have known : inside.objects.get? "hero" = some 0 := rfl
  have current : (inside.store.heap.fields 0).get? "gold" = some (.int 5) := rfl
  have result : changed (.int 5) (.int 2) .decrease inside = (.ok (.int 3), inside) := rfl
  have gives : GivesProperty s inside "hero" "gold" (.int 3) := .change value known current result
  have looksUp : Evaluate.LooksUp tollMachine.vars after "hero gold".toList "hero" "gold" := by
    have spells : Phrase.Spells "hero gold".toList "hero".toList "gold".toList := by
      refine ⟨[' '], rfl, by decide, List.forall_mem_singleton.mpr rfl, fun c hc => ?_⟩
      cases hc
      rfl
    refine ⟨spells, by decide, ⟨_, rfl, nofun⟩, nofun,
      fun longer rest hlonger _ cell hcell => ?_⟩
    -- The hero is all that the program has a name for.
    have hmem : (longer, Value.record cell) ∈ tollMachine.vars.entries :=
      (tollMachine.vars.mem_entries_iff _).mpr hcell
    obtain ⟨rfl, -⟩ := Prod.mk.inj (List.mem_singleton.mp hmem)
    exact absurd hlonger (Nat.lt_irrefl _)
  obtain ⟨bound, reads⟩ := story_objects_stay_one_record keeps rfl rfl tollProgram_executes
  have waits : tollMachine.vars ∈ inside.vars :: [tollMachine.vars] := by simp
  refine ⟨keeps, rfl, rfl, tollProgram_executes, gives, ?_, looksUp, ?_⟩
  · exact (bound inside (by simp [inside]) _ waits "hero" 0 known).1
  · exact reads "hero" "gold" (.int 3) gives _ (by simp) "hero gold" looksUp

/-- An object gets two more of a property. -/
def markedChange (object property : String) : Statement :=
  .mk 3 (.changeProperty object "2" property .increase)

/-- An object with a property of some name, next to the gold of a hero and its bag. -/
def markedProgram (object property : String) : Block :=
  [.mk 1 (.createObject "hero gold" [("bag", "9")]),
    .mk 2 (.createObject object [("gold", "1"), (property, "5")]), markedChange object property]

/-- The machine on which the object has so much of the property. -/
def markedMachine (object property : String) (amount : Int64) : Machine :=
  { tollStart with
    vars := (NameMap.set {} "hero gold" (.record 0)).set object (.record 1)
    objects := Entries.put object 1 [("hero gold", 0)]
    store := { tollStart.store with
      heap := { records := #[[("bag", .int 9)], Entries.put property (.int amount)
        [("gold", .int 1)]] } } }

/-- What the text of the object and the property gives behind the change. -/
def markedRead (object property : String) : Except Error Value × Store :=
  let after := markedMachine object property 7
  Evaluate.text after.vars (object ++ " " ++ property) after.store

theorem marked_executes (object property : String) :
    ProgramExecutes (markedProgram object property) tollStart [] (markedChange object property)
      (markedMachine object property 5) :=
  .later rfl (.later rfl (.now .here))

/-- An integer is shown as itself on any heap. -/
theorem marked_unread {object property : String} {shown : Option String}
    (h : (markedRead object property).1.toOption.map
      (Value.display (markedRead object property).2.heap) = shown) (hne : shown ≠ some "7") :
    (markedRead object property).1 ≠ .ok (.int 7) := by
  intro hread
  rw [hread] at h
  exact hne h.symm

/-- Behind a change that a run executes, the object and its variable are one record with the new
value of the property, but the text of the object and the property gives another value, if it gives
one. -/
structure Misread (object property : String) (shown : Option String) : Prop where
  keeps : (markedProgram object property).KeepsObjects
  executes : ProgramExecutes (markedProgram object property) tollStart []
    (markedChange object property) (markedMachine object property 5)
  gives : GivesProperty (markedChange object property) (markedMachine object property 5) object
    property (.int 7)
  after : (runStatement (markedChange object property) (markedMachine object property 5)).2 =
    markedMachine object property 7
  known : (markedMachine object property 7).objects.get? object = some 1
  bound : (markedMachine object property 7).vars.get? object = some (.record 1)
  holds : ((markedMachine object property 7).store.heap.fields 1).get? property = some (.int 7)
  shows : (markedRead object property).1.toOption.map
    (Value.display (markedRead object property).2.heap) = shown
  unread : (markedRead object property).1 ≠ .ok (.int 7)

/-- Properties that their texts do not read. The text is no row of tokens, a name with an index, a
list as it stands, or a property of an object with a longer name; or the property starts with a
blank or is empty. -/
theorem unreadable_properties_are_not_read :
    tollStart.functions = {} ∧ tollStart.objects = [] ∧ Misread "hero" "gold$" none ∧
      Misread "hero" "[0]" (some "None") ∧ Misread "[1," "2]" (some "[1, 2]") ∧
      Misread "hero" "gold\tbag" (some "9") ∧ Misread "hero" " gold" (some "1") ∧
      Misread "hero" "" (some "\x7b'gold': 1, '': 7\x7d") := by
  refine ⟨rfl, rfl, ?_, ?_, ?_, ?_, ?_, ?_⟩
  all_goals
    refine ⟨⟨by decide, by decide, by decide, by decide⟩, marked_executes _ _, ?gives, rfl, rfl, rfl,
      rfl, ?shows, marked_unread ?shows (by decide)⟩
    case gives => exact .change (v := .int 2) rfl rfl rfl rfl
    case shows => decide +kernel

end Exec

end Parlance
