import Parlance.Proofs.Expr.Growth
import Parlance.Proofs.Expr.Sharing
import Parlance.Proofs.Machine.Containment

/-!
# Failed statements change nothing

A statement without a block evaluates everything that can fail before it changes anything.
Evaluating only adds to the heap, so when such a statement fails, all that the program can see is as
before; a question that gets no answer has been printed, and a line that is not text is no longer
pending.
-/

namespace Parlance

/-- The same machine, but for new containers on the heap, draws from the random source and notes
about a disk that the files are not kept on. -/
structure Machine.Kept (m m' : Machine) : Prop where
  settings : m'.settings = m.settings
  vars : m'.vars = m.vars
  functions : m'.functions = m.functions
  objects : m'.objects = m.objects
  heap : m.store.heap.Extends m'.store.heap
  console : m'.console = m.console
  files : m'.files = m.files
  disk : ∀ {contents}, m.files = .memory contents → m'.disk = m.disk
  depth : m'.depth = m.depth

namespace Machine.Kept

theorem refl (m : Machine) : m.Kept m :=
  ⟨rfl, rfl, rfl, rfl, .refl _, rfl, rfl, fun _ => rfl, rfl⟩

theorem trans {m₁ m₂ m₃ : Machine} (h₁ : m₁.Kept m₂) (h₂ : m₂.Kept m₃) : m₁.Kept m₃ where
  settings := h₂.settings.trans h₁.settings
  vars := h₂.vars.trans h₁.vars
  functions := h₂.functions.trans h₁.functions
  objects := h₂.objects.trans h₁.objects
  heap := h₁.heap.trans h₂.heap
  console := h₂.console.trans h₁.console
  files := h₂.files.trans h₁.files
  disk hm := (h₂.disk (h₁.files.trans hm)).trans (h₁.disk hm)
  depth := h₂.depth.trans h₁.depth

end Machine.Kept

/-- The question that an action prints before it can fail. -/
def Action.question? : Action → Option String
  | .ask prompt _ => some (prompt ++ " ")
  | _ => none

/-- The next line of a stream is not text and has been used up, by a reader that stops there for
good if it has a time limit. -/
def Input.LosesLine (before after : Input) : Prop :=
  ∃ source limit line rest, before = .stream source limit ∧ source.next? = some (line, rest) ∧
    textOfBytes? line = none ∧ after = .stream (if limit.isSome then .closed else rest) limit

/-- What a program sees of a machine is as it was before an action failed, but for the question that
the action has asked and a line that cannot be an answer to it. -/
structure Machine.Unharmed (m m' : Machine) (a : Action) : Prop where
  vars : m'.vars = m.vars
  lists : ∀ cell < m.store.heap.lists.size, m'.store.heap.items cell = m.store.heap.items cell
  records : ∀ cell < m.store.heap.records.size,
    m'.store.heap.fields cell = m.store.heap.fields cell
  objects : m'.objects = m.objects
  functions : m'.functions = m.functions
  files : m'.files = m.files
  /-- Files that are kept in memory are all there is. -/
  disk : ∀ contents, m.files = .memory contents → m'.disk = m.disk
  input : m'.console.input = m.console.input ∨
    a.question?.isSome = true ∧ m.console.input.LosesLine m'.console.input
  printed : m'.console.printed = m.console.printed ++ a.question?.getD ""

theorem Machine.Kept.unharmed {m m' : Machine} (h : m.Kept m') {a : Action}
    (ha : a.question? = none) : m.Unharmed m' a where
  vars := h.vars
  lists _ hcell := h.heap.items hcell
  records _ hcell := h.heap.fields hcell
  objects := h.objects
  functions := h.functions
  files := h.files
  disk _ hm := h.disk hm
  input := .inl (congrArg Console.input h.console)
  printed := by rw [h.console, ha, Option.getD_none, String.append_empty]

namespace Contract

open Exec

/-- The contract of computations that only add to the heap, and no record that doubles a property
name unless one was there. -/
def keeping : Contract where
  start _ := True
  change m m' := m.Kept m' ∧ (m.store.heap.Distinct → m'.store.heap.Distinct)
  halt _ := True
  refl m := ⟨.refl m, id⟩
  trans h₁ h₂ := ⟨h₁.1.trans h₂.1, h₂.2 ∘ h₁.2⟩
  keeps _ _ := trivial

theorem keeps_onStore {act : Bindings → Eval α} (h : ∀ vars, Eval.Grows (act vars))
    (hnames : ∀ vars (store : Store), store.heap.Distinct → (act vars store).2.heap.Distinct) :
    keeping.Keeps (onStore act) := by
  intro m _
  refine ⟨rfl, ?_, fun _ _ => trivial, fun _ _ => trivial⟩
  have grown := h m.vars m.store
  have named := hnames m.vars m.store
  unfold onStore
  dsimp only
  rcases hrun : act m.vars m.store with ⟨_ | _, store⟩
  all_goals
    rw [hrun] at grown named
    exact ⟨⟨rfl, rfl, rfl, rfl, grown, rfl, rfl, fun _ => rfl, rfl⟩, named⟩

theorem keeps_evaluate (text : String) : keeping.Keeps (evaluate text) :=
  keeps_onStore (fun vars => Evaluate.grows_text vars text)
    fun vars _ => Evaluate.distinct_text vars text

theorem keeps_evaluateText (text : String) : keeping.Keeps (evaluateText text) :=
  (keeps_evaluate text).bind fun _ _ => Keeps.heap.bind fun _ _ => .pure trivial

theorem keeps_getVar (name : String) : keeping.Keeps (getVar? name) :=
  Keeps.get.bind fun _ _ => .pure trivial

theorem keeps_changed (current amount : Value) (direction : Direction) :
    keeping.Keeps (changed current amount direction) := by
  cases direction with
  | increase =>
      exact keeps_onStore (fun _ => current.grows_add amount) fun _ _ => current.distinct_add amount
  | decrease => exact keeps_onStore (fun _ => .lift _) fun _ _ => id

/-- The properties of an object are put under their names one after another, so these are distinct.
-/
theorem keeps_properties (fields : Entries Value) (hfields : fields.names.Nodup)
    (texts : List (String × String)) :
    keeping.Agree (fun fields => fields.names.Nodup) (properties fields texts)
      (properties fields texts) := by
  induction texts generalizing fields with
  | nil => exact .pure hfields
  | cons head rest ih =>
      exact (keeps_evaluate head.2).bind fun v _ =>
        ih _ (Entries.nodup_names_put hfields head.1 v)

theorem keeps_arguments (args : List String) : keeping.Keeps (arguments args) := by
  induction args with
  | nil => exact .pure trivial
  | cons arg args ih =>
      exact (keeps_evaluate arg).bind fun _ _ => ih.bind fun _ _ => .pure trivial

theorem keeps_newList (items : List Value) :
    keeping.Keeps (onStore fun _ => Eval.newList items) :=
  keeps_onStore (fun _ => .newList items) fun _ _ => id

theorem keeps_newRecordCell {fields : Entries Value} (hfields : fields.names.Nodup) :
    keeping.Keeps (onStore fun _ => Eval.newRecordCell fields) :=
  keeps_onStore (fun _ => .newRecordCell fields) fun _ _ h => h.newRecord hfields

/-- Files in memory leave no notes on the disk. -/
theorem keeps_noteUsed (path : String) : keeping.Keeps (noteUsed path) := by
  refine .modify fun m _ => ⟨⟨rfl, rfl, rfl, rfl, .refl _, rfl, rfl, ?_, rfl⟩, id⟩
  intro contents hm
  simp only [hm, Files.noteUsed]

theorem keeps_fail (e : Error) : keeping.Keeps (fail e : Exec α) :=
  .fail trivial

end Contract

namespace Exec

open Contract

/-! ## Computations that fail before they change anything -/

/-- A computation that leaves the machine as it was whenever it fails. -/
def FailsClean (x : Exec α) : Prop :=
  ∀ m e m', x m = (.error (.failed e), m') → m.Kept m'

theorem FailsClean.of_keeps {x : Exec α} (hx : keeping.Keeps x) : FailsClean x := by
  intro m e m' h
  have allowed := (hx m trivial).2.change.1
  rwa [h] at allowed

theorem FailsClean.of_neverFails {x : Exec α} (hx : NeverFails x) : FailsClean x := by
  intro m e m' h
  exact absurd (congrArg Prod.fst h) (hx m e)

/-- What only adds to the heap may stand in front. -/
theorem FailsClean.after {x : Exec α} {f : α → Exec β} (hx : keeping.Keeps x)
    (hf : ∀ a, FailsClean (f a)) : FailsClean (x >>= f) := by
  intro m e m' h
  have first := (hx m trivial).2.change.1
  rw [bind_run] at h
  rcases hrun : x m with ⟨halt | a, m₁⟩
  all_goals rw [hrun] at h first
  · cases h
    exact first
  · exact first.trans (hf a m₁ e m' h)

/-- What does not fail may stand behind. -/
theorem FailsClean.before {x : Exec α} {f : α → Exec β} (hx : FailsClean x)
    (hf : ∀ a, NeverFails (f a)) : FailsClean (x >>= f) := by
  intro m e m' h
  rw [bind_run] at h
  rcases hrun : x m with ⟨halt | a, m₁⟩
  all_goals rw [hrun] at h
  · cases h
    exact hx m e m' hrun
  · exact absurd (congrArg Prod.fst h) (hf a m₁ e)

theorem FailsClean.recover {x : Exec α} {f : Error → Exec α} (hx : FailsClean x)
    (hf : ∀ e, FailsClean (f e)) : FailsClean (recover x f) := by
  intro m e m' h
  unfold Exec.recover at h
  rcases hrun : x m with ⟨(failure | _) | a, m₁⟩
  all_goals rw [hrun] at h
  · exact (hx m failure m₁ hrun).trans (hf failure m₁ e m' h)
  · cases h
  · cases h

theorem NeverFails.modify (f : Machine → Machine) : NeverFails (modify f : Exec Unit) := by
  intro m e h
  cases h

theorem FailsClean.setVar (name : String) (v : Value) : FailsClean (setVar name v) :=
  .of_neverFails (.modify _)

/-! ## Simple statements -/

theorem adjust_failsClean (name amount : String) (direction : Direction) :
    FailsClean (adjust name amount direction) := by
  refine .after (keeps_evaluate amount) fun v => .after (keeps_getVar name) fun current => ?_
  rcases current with _ | current
  · cases direction with
    | increase => exact .setVar name v
    | decrease => exact .after (keeps_changed _ v .decrease) fun _ => .setVar name _
  · exact .after (keeps_changed current v direction) fun _ => .setVar name _

theorem createObject_failsClean (name : String) (texts : List (String × String)) :
    FailsClean (createObject name texts) := by
  have evaluated := keeps_properties [] List.nodup_nil texts
  refine .after (evaluated.weaken fun _ _ => trivial) fun fields => ?_
  have made : NeverFails (onStore fun _ => Eval.newRecordCell fields) := by
    intro m e h
    cases h
  exact .of_neverFails (made.bind fun _ => NeverFails.bind (.modify _) fun _ => .modify _)

theorem changeObject_failsClean (object property : String) (amount : Value)
    (direction : Direction) : FailsClean (changeObject object property amount direction) := by
  refine .after Keeps.get fun m => ?_
  cases m.objects.get? object with
  | none => exact .of_neverFails (.pure ())
  | some cell =>
      refine .after Keeps.heap fun heap => ?_
      cases (heap.fields cell).get? property with
      | none => exact .of_neverFails (.pure ())
      | some current =>
          refine .after (keeps_changed current amount direction) fun updated => ?_
          exact .of_neverFails (NeverFails.bind (.modify _) fun _ => .modify _)

theorem transferProperty_failsClean (object source sourceProperty property : String) :
    FailsClean (transferProperty object source sourceProperty property) := by
  refine .after Keeps.get fun m => ?_
  cases m.objects.get? source with
  | none => exact .of_neverFails (.pure ())
  | some cell =>
      refine .after Keeps.heap fun heap => ?_
      cases (heap.fields cell).get? sourceProperty with
      | none => exact .of_neverFails (.pure ())
      | some amount => exact changeObject_failsClean object property amount .increase

theorem append_failsClean (item list : String) : FailsClean (append item list) := by
  refine .after (keeps_evaluate item) fun v => .after (keeps_getVar list) fun current => ?_
  rcases current with _ | current
  · exact .after (keeps_newList _) fun _ => .setVar list _
  · cases current with
    | list cell => exact .of_neverFails (.modify _)
    | _ => exact .after (keeps_newList _) fun _ => .setVar list _

theorem remove_failsClean (item list : String) : FailsClean (remove item list) := by
  refine .after (keeps_evaluate item) fun v => .after (keeps_getVar list) fun current => ?_
  rcases current with _ | current
  · exact .of_neverFails (.pure ())
  · cases current with
    | list cell =>
        refine .after Keeps.heap fun heap => ?_
        cases (heap.items cell).findIdx? fun w => w.equal heap v with
        | none => exact .of_neverFails (.pure ())
        | some place => exact .of_neverFails (.modify _)
    | _ => exact .of_neverFails (.pure ())

theorem display_failsClean (value : String) (newline : Bool) :
    FailsClean (display value newline) := by
  refine FailsClean.recover ?_ fun e => ?_
  · exact .after (keeps_evaluateText value) fun _ => .of_neverFails (.print _)
  · cases e.errorClass with
    | name => exact .of_neverFails (.print _)
    | _ => exact .of_keeps (keeps_fail e)

theorem writeTo_failsClean (content path : String) : FailsClean (writeTo content path) := by
  refine .after (keeps_evaluateText content) fun text => ?_
  refine .after (keeps_evaluateText path) fun path => ?_
  refine .after (keeps_noteUsed path) fun _ => .after Keeps.get fun m => ?_
  cases m.files.write m.disk path text with
  | ok written => exact .of_neverFails (.modify _)
  | error e => exact .of_keeps (keeps_fail e)

theorem readInto_failsClean (path name : String) : FailsClean (readInto path name) := by
  refine .after (keeps_evaluateText path) fun path => ?_
  refine .after (keeps_noteUsed path) fun _ => .after Keeps.get fun m => ?_
  cases m.files.read m.disk path with
  | ok text => exact .setVar name _
  | error e => exact .of_keeps (keeps_fail e)

/-- Simple statements but for questions to the user fail before they change anything. -/
theorem simple_failsClean {a : Action} {act : Exec Unit} (h : simple? a = some act)
    (hask : ∀ prompt name, a ≠ .ask prompt name) : FailsClean act := by
  cases a <;> cases h
  case assign name value => exact .after (keeps_evaluate value) fun v => .setVar name v
  case forget name => exact .of_neverFails (.modify _)
  case adjust name amount direction => exact adjust_failsClean name amount direction
  case createObject name texts => exact createObject_failsClean name texts
  case changeProperty object amount property direction =>
    exact .after (keeps_evaluate amount) fun v =>
      changeObject_failsClean object property v direction
  case transferProperty object source sourceProperty property =>
    exact transferProperty_failsClean object source sourceProperty property
  case define name params body => exact .of_neverFails (.modify _)
  case append item list => exact append_failsClean item list
  case remove item list => exact remove_failsClean item list
  case ask prompt name => exact absurd rfl (hask prompt name)
  case display value newline => exact display_failsClean value newline
  case writeTo content path => exact writeTo_failsClean content path
  case readInto path name => exact readInto_failsClean path name
  case changeCase value name letters =>
    exact .after (keeps_evaluateText value) fun _ => .setVar name _
  case unknown text => exact .of_neverFails (.print _)

theorem perform_failsClean {runBody : Block → Exec Flow} {a : Action} {act : Exec Unit}
    (h : simple? a = some act) (hask : ∀ prompt name, a ≠ .ask prompt name) :
    FailsClean (perform runBody a) := by
  rw [perform_simple h]
  exact (simple_failsClean h hask).before fun _ => .pure _

/-! ## Questions to the user -/

end Exec

namespace Console

variable {e : Error}

/-- Without an answer a stream is as before, unless a line was there but is not text. -/
theorem streamAnswer_failed {source source' : ByteStream} {limit : Option Nat}
    (h : streamAnswer source limit = (.error e, source')) :
    source' = source ∨ (Input.stream source limit).LosesLine (.stream source' limit) := by
  unfold streamAnswer at h
  split at h
  · next line rest hnext =>
    split at h
    · cases h
    · next htext =>
      cases h
      exact .inr ⟨source, limit, line, rest, rfl, hnext, htext, rfl⟩
  · split at h
    · cases h
      exact .inl rfl
    · cases h
      exact .inl rfl

/-- A question without an answer has been printed, and no scripted answer is used up. -/
theorem ask_failed {console console' : Console} {prompt : String}
    (h : console.ask prompt = (.error e, console')) :
    console'.printed = console.printed ++ prompt ∧
      (console'.input = console.input ∨ console.input.LosesLine console'.input) := by
  unfold ask at h
  dsimp only [print] at h
  split at h
  · cases h
    exact ⟨rfl, .inl rfl⟩
  · cases h
  · next source limit hinput =>
    rcases hanswer : streamAnswer source limit with ⟨answer, source'⟩
    rw [hanswer] at h
    cases h
    refine ⟨rfl, ?_⟩
    rw [hinput]
    rcases streamAnswer_failed hanswer with rfl | hlost
    · exact .inl rfl
    · exact .inr hlost

end Console

namespace Exec

open Contract

/-- Asking fails in the console, before a name is bound. -/
theorem ask_failed {prompt name : String} {m m' : Machine} {e : Error}
    (h : ask prompt name m = (.error (.failed e), m')) : m.Unharmed m' (.ask prompt name) := by
  unfold ask at h
  rw [bind_run] at h
  rcases hask : m.console.ask (prompt ++ " ") with ⟨failure | answer, console⟩
  all_goals
    dsimp only at h
    rw [hask] at h
    cases h
  obtain ⟨hprinted, hinput⟩ := Console.ask_failed hask
  refine ⟨rfl, fun _ _ => rfl, fun _ _ => rfl, rfl, rfl, rfl, fun _ _ => rfl, ?_, hprinted⟩
  exact hinput.imp_right fun hlost => ⟨rfl, hlost⟩

/-! ## Calls -/

/-- A call statement gets as far as to run the body of a function: its arguments have values, the
function is defined, and there is room for one more call. -/
def StartsBody (name : String) (args : List String) (m : Machine) : Prop :=
  ∃ values m₁ function, arguments args m = (.ok values, m₁) ∧
    m₁.functions.get? name = some function ∧ m₁.depth < m₁.settings.maxCallDepth

/-- A call that does not get there fails before anything has changed, whatever the bodies would do.
-/
theorem call_failed {runBody : Block → Exec Flow} {name : String} {args : List String}
    {m m' : Machine} {e : Error} (hstart : ¬ StartsBody name args m)
    (h : perform runBody (.call name args) m = (.error (.failed e), m')) : m.Kept m' := by
  have evaluated := (keeps_arguments args m trivial).2.change.1
  simp only [perform] at h
  rw [bind_run] at h
  rcases hargs : arguments args m with ⟨halt | values, m₁⟩
  all_goals rw [hargs] at h evaluated
  · cases h
    exact evaluated
  · dsimp only at h
    rw [bind_run] at h
    rcases call_cases name values m₁ with ⟨failure, hfail⟩ | ⟨function, hf, hdepth⟩
    · rw [hfail] at h
      cases h
      exact evaluated
    · exact absurd ⟨values, m₁, function, hargs, hf, hdepth⟩ hstart

end Exec

/-- Whether an action holds blocks that it runs itself. -/
def Action.isCompound (a : Action) : Bool :=
  a.isBranching || a.isLoop

namespace Exec

open Contract

/-- An action without blocks fails before it changes anything. -/
theorem perform_failed {runBody : Block → Exec Flow} {a : Action} {m m' : Machine} {e : Error}
    (hsimple : a.isCompound = false)
    (hcall : ∀ name args, a = .call name args → ¬ StartsBody name args m)
    (h : perform runBody a m = (.error (.failed e), m')) : m.Unharmed m' a := by
  have clean {x : Exec Flow} (hx : FailsClean x) (hrun : x m = (.error (.failed e), m'))
      (ha : a.question? = none) : m.Unharmed m' a :=
    (hx m e m' hrun).unharmed ha
  cases a with
  | ask prompt name =>
      rw [perform_simple rfl, bind_run] at h
      rcases hrun : ask prompt name m with ⟨halt | _, m₁⟩
      all_goals
        rw [hrun] at h
        cases h
      exact ask_failed hrun
  | call name args => exact (call_failed (hcall name args rfl) h).unharmed rfl
  | giveBack value =>
      simp only [perform] at h
      exact clean (.after (keeps_evaluate value) fun v => .of_neverFails (.pure _)) h rfl
  | leave =>
      simp only [perform] at h
      exact clean (.of_neverFails (.pure _)) h rfl
  | next =>
      simp only [perform] at h
      exact clean (.of_neverFails (.pure _)) h rfl
  | question | choose | attempt | loopWhile | forEach | loopTimes => cases hsimple
  | _ =>
      exact clean (perform_failsClean rfl fun _ _ ha => by cases ha) h rfl

/-- The first property of a new object that has no value ends its making. -/
theorem properties_failed {before after : List (String × String)} {property text : String}
    {fields known : Entries Value} {m m₁ m' : Machine} {e : Error}
    (hbefore : properties known before m = (.ok fields, m₁))
    (htext : evaluate text m₁ = (.error (.failed e), m')) :
    properties known (before ++ (property, text) :: after) m = (.error (.failed e), m') := by
  induction before generalizing known m with
  | nil =>
      cases hbefore
      rw [List.nil_append, properties, bind_run, htext]
  | cons head before ih =>
      rw [properties, bind_run] at hbefore
      rw [List.cons_append, properties, bind_run]
      rcases hhead : evaluate head.2 m with ⟨halt | v, m₂⟩
      all_goals rw [hhead] at hbefore
      · cases hbefore
      · exact ih hbefore

/-- A statement without a block that fails, a call before the body of its function has started,
leaves everything that the program sees as it was. It has printed nothing but the question that it
asked, and used up nothing but a line of a stream that is not text. So an object one of whose
properties has no value is not introduced, and an older one of its name stays as it is. The console
is one whose output takes every text. -/
theorem failed_statements_change_nothing (m m' : Machine) (e : Error) :
    (∀ s : Statement, s.action.isCompound = false →
      (∀ name args, s.action = .call name args → ¬ StartsBody name args m) →
      runStatement s m = (.error (.failed e), m') → m.Unharmed m' s.action) ∧
      ∀ line name before property text after fields m₁,
        properties [] before m = (.ok fields, m₁) →
        evaluate text m₁ = (.error (.failed e), m') →
          runStatement (.mk line (.createObject name (before ++ (property, text) :: after))) m =
              (.error (.failed e), m') ∧
            m'.objects = m.objects ∧ m'.vars = m.vars ∧
            ∀ cell < m.store.heap.records.size, m.objects.get? name = some cell →
              m'.store.heap.fields cell = m.store.heap.fields cell := by
  constructor
  · rintro ⟨line, a⟩ hsimple hcall hrun
    rw [runStatement_eq] at hrun
    simp only [statement] at hrun
    exact perform_failed hsimple hcall hrun
  · intro line name before property text after fields m₁ hbefore htext
    have hmade : createObject name (before ++ (property, text) :: after) m =
        (.error (.failed e), m') := by
      rw [createObject, bind_run, properties_failed hbefore htext]
    have kept : m.Kept m' := createObject_failsClean _ _ m e m' hmade
    refine ⟨?_, kept.objects, kept.vars, fun cell hcell _ => kept.heap.fields hcell⟩
    rw [runStatement_eq]
    simp only [statement, perform]
    rw [bind_run, hmade]

/-- A machine with one story object, and nobody to answer questions. -/
def heroAlone : Machine where
  vars := NameMap.set {} "hero" (.record 0)
  objects := [("hero", 0)]
  store := { heap := { records := #[[("health", .int 5)]] } }
  console := { printed := "> " }

/-- An object that is introduced anew, with a second property that has no value; a question without
an answer; and a call of a function that is not defined. -/
theorem failed_statements_change_nothing_anew :
    let making : Statement := .mk 1 (.createObject "hero" [("health", "1"), ("gold", "missing")])
    let asking : Statement := .mk 2 (.ask "Name?" "hero")
    let calling : Statement := .mk 3 (.call "f" ["1"])
    (runStatement making heroAlone = (.error (.failed (.undefined "missing")), heroAlone) ∧
        heroAlone.Unharmed heroAlone making.action) ∧
      (∃ m', runStatement asking heroAlone = (.error (.failed .endOfInput), m') ∧
        heroAlone.Unharmed m' asking.action) ∧
      (runStatement calling heroAlone = (.error (.failed (.undefinedFunction "f")), heroAlone) ∧
        heroAlone.Unharmed heroAlone calling.action) := by
  refine ⟨?_, ⟨_, rfl, ?_⟩, ⟨rfl, ?_⟩⟩
  · obtain ⟨hrun, -⟩ :=
      (failed_statements_change_nothing heroAlone heroAlone (.undefined "missing")).2 1 "hero"
        [("health", "1")] "gold" "missing" [] [("health", .int 1)] heroAlone rfl rfl
    refine ⟨hrun, ?_⟩
    exact (failed_statements_change_nothing _ _ _).1 _ rfl (fun _ _ h => by cases h) hrun
  · exact (failed_statements_change_nothing _ _ _).1 (.mk 2 (.ask "Name?" "hero")) rfl
      (fun _ _ h => by cases h) rfl
  · refine (failed_statements_change_nothing _ _ _).1 (.mk 3 (.call "f" ["1"])) rfl ?_ rfl
    rintro name args h ⟨values, m₁, function, hargs, hf, -⟩
    cases h
    have evaluated : arguments ["1"] heroAlone = (.ok [.int 1], heroAlone) := rfl
    cases evaluated.symm.trans hargs
    cases hf

/-- The hero with a stream of answers, the first of which is not text. -/
def heroAsked : Machine :=
  { heroAlone with console := { input := .stream { pending := [255, 10, 52, 49, 10] } none } }

/-- Not all input is still there after a failure: the line is gone, and the next one comes up. -/
theorem failed_question_uses_up_a_line :
    ∃ m', runStatement (.mk 1 (.ask "Name?" "hero")) heroAsked =
        (.error (.failed .inputNotText), m') ∧
      m'.console.input = .stream { pending := [52, 49, 10] } none ∧
      m'.console.input ≠ heroAsked.console.input := by
  refine ⟨_, rfl, rfl, ?_⟩
  intro h
  cases h

end Exec

end Parlance
