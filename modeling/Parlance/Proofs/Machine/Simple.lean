import Parlance.Proofs.Machine.Contract

/-!
# What simple statements touch

A statement without a block that runs in place does one computation and goes on normally. Such a
computation never runs out of fuel, leaves the settings and the depth of calls alone, and binds or
unbinds only the names that its statement mentions for that.
-/

namespace Parlance

/-- The names that an action itself binds or unbinds. -/
def Action.binds : Action → List String
  | .assign name _ => [name]
  | .forget name => [name]
  | .adjust name _ _ => [name]
  | .createObject name _ => [name]
  | .changeProperty object _ _ _ => [object]
  | .transferProperty object _ _ _ => [object]
  | .call .. => [Exec.lastResult]
  | .attempt _ (some _) => [Exec.errorName]
  | .forEach item _ _ => [item]
  | .append _ list => [list]
  | .ask _ name => [name]
  | .readInto _ name => [name]
  | .changeCase _ name _ => [name]
  | _ => []

namespace Exec

/-- The computation of a statement that goes on normally unless it fails. -/
def simple? : Action → Option (Exec Unit)
  | .assign name value => some (assign name value)
  | .forget name => some (forget name)
  | .adjust name amount direction => some (adjust name amount direction)
  | .createObject name texts => some (createObject name texts)
  | .changeProperty object amount property direction =>
    some (changeProperty object amount property direction)
  | .transferProperty object source sourceProperty property =>
    some (transferProperty object source sourceProperty property)
  | .define name params body => some (define ⟨name, params, body⟩)
  | .append item list => some (append item list)
  | .remove item list => some (remove item list)
  | .ask prompt name => some (ask prompt name)
  | .display value newline => some (display value newline)
  | .writeTo content path => some (writeTo content path)
  | .readInto path name => some (readInto path name)
  | .changeCase value name letters => some (changeCase value name letters)
  | .unknown text => some (report ("Unknown command: " ++ text))
  | _ => none

theorem perform_simple {a : Action} {act : Exec Unit} (h : simple? a = some act)
    (runBody : Block → Exec Flow) :
    perform runBody a = do
      act
      return .normal := by
  cases a <;> cases h <;> simp only [perform]

end Exec

namespace Contract

open Exec

/-- The contract of computations that touch no names but the given ones. -/
def touching (names : List String) : Contract where
  start _ := True
  change m m' :=
    m'.settings = m.settings ∧ m'.depth = m.depth ∧
      ∀ n, n ∉ names → m'.vars.get? n = m.vars.get? n
  halt h := h ≠ .exhausted
  refl _ := ⟨rfl, rfl, fun _ _ => rfl⟩
  trans h₁ h₂ :=
    ⟨h₂.1.trans h₁.1, h₂.2.1.trans h₁.2.1, fun n hn => (h₂.2.2 n hn).trans (h₁.2.2 n hn)⟩
  keeps _ _ := trivial

variable {names : List String}

/-- A change of anything but the settings, the depth and the variables. -/
theorem touching_of_eq {m m' : Machine} (hs : m'.settings = m.settings) (hd : m'.depth = m.depth)
    (hv : m'.vars = m.vars) : (touching names).change m m' :=
  ⟨hs, hd, fun _ _ => by rw [hv]⟩

/-! ## The steps that statements are made of -/

theorem onStore_touches (act : Bindings → Eval α) : (touching names).Keeps (onStore act) := by
  intro m _
  refine ⟨rfl, ?_, ?_, fun _ _ => trivial⟩
  · unfold onStore
    dsimp only
    split <;> exact touching_of_eq rfl rfl rfl
  · intro h hh
    unfold onStore at hh
    dsimp only at hh
    split at hh
    · cases hh
    · cases hh
      exact fun hx => by cases hx

theorem evaluate_touches (text : String) : (touching names).Keeps (evaluate text) :=
  onStore_touches _

theorem evaluateText_touches (text : String) : (touching names).Keeps (evaluateText text) :=
  (evaluate_touches text).bind fun _ _ => Keeps.heap.bind fun _ _ => .pure trivial

theorem modifyHeap_touches (change : Heap → Heap) : (touching names).Keeps (modifyHeap change) :=
  .modify fun _ _ => touching_of_eq rfl rfl rfl

theorem print_touches (text : String) : (touching names).Keeps (print text) :=
  .modify fun _ _ => touching_of_eq rfl rfl rfl

theorem getVar_touches (name : String) : (touching names).Keeps (getVar? name) :=
  Keeps.get.bind fun _ _ => .pure trivial

theorem setVar_touches {name : String} (h : name ∈ names) (v : Value) :
    (touching names).Keeps (setVar name v) := by
  refine .modify fun m _ => ⟨rfl, rfl, fun n hn => ?_⟩
  have hne : n ≠ name := fun heq => hn (heq ▸ h)
  simp [NameMap.get?_set, hne]

theorem fail_touches (e : Error) : (touching names).Keeps (fail e : Exec α) :=
  .fail fun h => by cases h

theorem noteUsed_touches (path : String) : (touching names).Keeps (noteUsed path) :=
  .modify fun _ _ => touching_of_eq rfl rfl rfl

theorem changed_touches (current amount : Value) (direction : Direction) :
    (touching names).Keeps (changed current amount direction) := by
  cases direction with
  | increase => exact onStore_touches fun _ => current.add amount
  | decrease => exact onStore_touches fun _ => current.subtract amount

/-! ## Simple statements -/

theorem forget_touches {name : String} (h : name ∈ names) : (touching names).Keeps (forget name) := by
  refine .modify fun m _ => ⟨rfl, rfl, fun n hn => ?_⟩
  have hne : n ≠ name := fun heq => hn (heq ▸ h)
  simp [NameMap.get?_erase, hne]

theorem assign_touches (value : String) {name : String} (h : name ∈ names) :
    (touching names).Keeps (assign name value) :=
  (evaluate_touches value).bind fun v _ => setVar_touches h v

theorem adjust_touches (amount : String) (direction : Direction) {name : String} (h : name ∈ names) :
    (touching names).Keeps (adjust name amount direction) := by
  refine (evaluate_touches amount).bind fun v _ => (getVar_touches name).bind fun current _ => ?_
  have store : ∀ updated, (touching names).Keeps (setVar name updated) := setVar_touches h
  rcases current with _ | current
  · cases direction with
    | increase => exact Agree.bind (F := fun _ => True) (.pure trivial) fun updated _ => store updated
    | decrease => exact (changed_touches _ v .decrease).bind fun updated _ => store updated
  · exact (changed_touches current v direction).bind fun updated _ => store updated

theorem properties_touches (fields : Entries Value) (texts : List (String × String)) :
    (touching names).Keeps (properties fields texts) := by
  induction texts generalizing fields with
  | nil => exact .pure trivial
  | cons head rest ih => exact (evaluate_touches head.2).bind fun v _ => ih (fields.put head.1 v)

theorem createObject_touches (texts : List (String × String)) {name : String} (h : name ∈ names) :
    (touching names).Keeps (createObject name texts) := by
  refine (properties_touches [] texts).bind fun fields _ => ?_
  refine (onStore_touches _).bind fun cell _ => ?_
  refine Agree.bind (Keeps.modify fun _ _ => touching_of_eq rfl rfl rfl) fun _ _ => ?_
  exact setVar_touches h _

theorem changeObject_touches (property : String) (amount : Value) (direction : Direction)
    {object : String} (h : object ∈ names) :
    (touching names).Keeps (changeObject object property amount direction) := by
  refine Keeps.get.bind fun m _ => ?_
  cases m.objects.get? object with
  | none => exact .pure trivial
  | some cell =>
      refine Keeps.heap.bind fun heap _ => ?_
      cases (heap.fields cell).get? property with
      | none => exact .pure trivial
      | some current =>
          refine (changed_touches current amount direction).bind fun updated _ => ?_
          exact (modifyHeap_touches _).bind fun _ _ => setVar_touches h _

theorem changeProperty_touches (amount property : String) (direction : Direction) {object : String}
    (h : object ∈ names) :
    (touching names).Keeps (changeProperty object amount property direction) :=
  (evaluate_touches amount).bind fun v _ => changeObject_touches property v direction h

theorem transferProperty_touches (source sourceProperty property : String) {object : String}
    (h : object ∈ names) :
    (touching names).Keeps (transferProperty object source sourceProperty property) := by
  refine Keeps.get.bind fun m _ => ?_
  cases m.objects.get? source with
  | none => exact .pure trivial
  | some cell =>
      refine Keeps.heap.bind fun heap _ => ?_
      cases (heap.fields cell).get? sourceProperty with
      | none => exact .pure trivial
      | some amount => exact changeObject_touches property amount .increase h

theorem define_touches (function : Function) : (touching names).Keeps (define function) :=
  .modify fun _ _ => touching_of_eq rfl rfl rfl

theorem append_touches (item : String) {list : String} (h : list ∈ names) :
    (touching names).Keeps (append item list) := by
  refine (evaluate_touches item).bind fun v _ => (getVar_touches list).bind fun current _ => ?_
  rcases current with _ | current
  · exact (onStore_touches _).bind fun made _ => setVar_touches h made
  · cases current with
    | list cell => exact modifyHeap_touches _
    | _ => exact (onStore_touches _).bind fun made _ => setVar_touches h made

theorem remove_touches (item list : String) : (touching names).Keeps (remove item list) := by
  refine (evaluate_touches item).bind fun v _ => (getVar_touches list).bind fun current _ => ?_
  rcases current with _ | current
  · exact .pure trivial
  · cases current with
    | list cell =>
        refine Keeps.heap.bind fun heap _ => ?_
        cases (heap.items cell).findIdx? fun w => w.equal heap v with
        | none => exact .pure trivial
        | some place => exact modifyHeap_touches _
    | _ => exact .pure trivial

theorem ask_touches (prompt : String) {name : String} (h : name ∈ names) :
    (touching names).Keeps (ask prompt name) := by
  refine Agree.bind (F := fun _ => True) ?_ fun answer _ => setVar_touches h _
  intro m _
  dsimp only
  refine ⟨rfl, ?_, ?_, fun _ _ => trivial⟩
  · split <;> exact touching_of_eq rfl rfl rfl
  · intro e he
    split at he
    · cases he
    · cases he
      exact fun hx => by cases hx

theorem display_touches (value : String) (newline : Bool) :
    (touching names).Keeps (display value newline) := by
  refine Agree.recover ?_ fun e => ?_
  · exact (evaluateText_touches value).bind fun _ _ => print_touches _
  · cases e.errorClass with
    | name => exact print_touches _
    | _ => exact fail_touches e

theorem writeTo_touches (content path : String) : (touching names).Keeps (writeTo content path) := by
  refine (evaluateText_touches content).bind fun text _ => ?_
  refine (evaluateText_touches path).bind fun path _ => ?_
  refine (noteUsed_touches path).bind fun _ _ => Keeps.get.bind fun m _ => ?_
  cases m.files.write m.disk path text with
  | ok written => exact Keeps.modify fun _ _ => touching_of_eq rfl rfl rfl
  | error e => exact fail_touches e

theorem readInto_touches (path : String) {name : String} (h : name ∈ names) :
    (touching names).Keeps (readInto path name) := by
  refine (evaluateText_touches path).bind fun path _ => ?_
  refine (noteUsed_touches path).bind fun _ _ => Keeps.get.bind fun m _ => ?_
  cases m.files.read m.disk path with
  | ok text => exact setVar_touches h _
  | error e => exact fail_touches e

theorem changeCase_touches (value : String) (letters : LetterCase) {name : String}
    (h : name ∈ names) : (touching names).Keeps (changeCase value name letters) :=
  (evaluateText_touches value).bind fun _ _ => setVar_touches h _

/-- A simple statement touches only the names that it binds. -/
theorem simple_touches {a : Action} {act : Exec Unit} (h : simple? a = some act)
    (hn : ∀ n ∈ a.binds, n ∈ names) : (touching names).Keeps act := by
  cases a <;> cases h
  case assign name value => exact assign_touches value (hn name (by simp [Action.binds]))
  case forget name => exact forget_touches (hn name (by simp [Action.binds]))
  case adjust name amount direction =>
    exact adjust_touches amount direction (hn name (by simp [Action.binds]))
  case createObject name texts => exact createObject_touches texts (hn name (by simp [Action.binds]))
  case changeProperty object amount property direction =>
    exact changeProperty_touches amount property direction (hn object (by simp [Action.binds]))
  case transferProperty object source sourceProperty property =>
    exact transferProperty_touches source sourceProperty property
      (hn object (by simp [Action.binds]))
  case define name params body => exact define_touches _
  case append item list => exact append_touches item (hn list (by simp [Action.binds]))
  case remove item list => exact remove_touches item list
  case ask prompt name => exact ask_touches prompt (hn name (by simp [Action.binds]))
  case display value newline => exact display_touches value newline
  case writeTo content path => exact writeTo_touches content path
  case readInto path name => exact readInto_touches path (hn name (by simp [Action.binds]))
  case changeCase value name letters =>
    exact changeCase_touches value letters (hn name (by simp [Action.binds]))
  case unknown text => exact print_touches _

end Contract

end Parlance
