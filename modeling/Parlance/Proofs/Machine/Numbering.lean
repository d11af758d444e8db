import Parlance.Proofs.Expr.Bindings
import Parlance.Proofs.Machine.Simple
import Parlance.Proofs.Machine.Composition
import Parlance.Proofs.Statement.Numbering

/-!
# Runs do not look at line numbers

The numbers of lines are nowhere in a machine but in the bodies of its functions, and no run reads
them there. Of the names in scope, a run sees what they are bound to. So a program with other
numbers, on a machine with other numbers and with a scope that cannot be told apart, does the same
and ends on a machine that is alike again.
-/

namespace Parlance

namespace NameMap

/-- The map with another value for each of its names. -/
def mapValues (f : α → β) (map : NameMap α) : NameMap β :=
  ⟨map.held.map fun e => (e.1, f e.2), by
    rw [List.map_map]
    exact map.distinct⟩

theorem lookup_map (f : α → β) (name : String) (entries : List (String × α)) :
    (entries.map fun e => (e.1, f e.2)).lookup name = (entries.lookup name).map f := by
  induction entries with
  | nil => rfl
  | cons head rest ih =>
      obtain ⟨key, value⟩ := head
      simp only [List.map_cons, lookup_cons_ite, ih]
      split <;> rfl

theorem get?_mapValues (f : α → β) (map : NameMap α) (name : String) :
    (map.mapValues f).get? name = (map.get? name).map f :=
  lookup_map f name map.held

theorem without_map (f : α → β) (name : String) (entries : List (String × α)) :
    without name (entries.map fun e => (e.1, f e.2)) =
      (without name entries).map fun e => (e.1, f e.2) := by
  simp only [without, List.filter_map]
  rfl

theorem mapValues_set (f : α → β) (map : NameMap α) (name : String) (value : α) :
    (map.set name value).mapValues f = (map.mapValues f).set name (f value) := by
  simp only [set, mapValues, without_map, List.map_cons]

end NameMap

/-- The function with other numbers for the lines of its body. -/
def Function.renumber (f : Nat → Nat) (function : Function) : Function :=
  { function with body := Block.renumber f function.body }

/-- The machine with other numbers for the lines of its functions. -/
def Machine.renumber (f : Nat → Nat) (m : Machine) : Machine :=
  { m with functions := m.functions.mapValues (Function.renumber f) }

/-- What is on a machine, without the numbers of lines. -/
def Machine.unnumbered (m : Machine) : Machine :=
  m.renumber fun _ => 0

/-- A relation between scopes that runs keep: related scopes agree, and stay related as names are
bound and unbound. -/
class Bindings.Congruence (V : Bindings → Bindings → Prop) : Prop where
  agrees {s t : Bindings} (h : V s t) : s.Agrees t
  set {s t : Bindings} (h : V s t) (name : String) (value : Value) :
    V (s.set name value) (t.set name value)
  erase {s t : Bindings} (h : V s t) (name : String) : V (s.erase name) (t.erase name)

instance : Bindings.Congruence Eq where
  agrees h _ := by rw [h]
  set h _ _ := by rw [h]
  erase h _ := by rw [h]

/-- Related scopes are related as scopes of a call. -/
theorem Bindings.Congruence.frame {V : Bindings → Bindings → Prop} [Bindings.Congruence V]
    {s t : Bindings} (h : V s t) (params : List String) (args : List Value) :
    V (Exec.frame s params args) (Exec.frame t params args) := by
  unfold Exec.frame
  induction params.zip args generalizing s t with
  | nil => exact h
  | cons pair rest ih => exact ih (Bindings.Congruence.set h pair.1 pair.2)

namespace Machine

/-- The machine with other numbers for lines, and with other bindings. -/
def recast (f : Nat → Nat) (vars : Bindings) (m : Machine) : Machine :=
  { m.renumber f with vars }

variable (f : Nat → Nat) (vars : Bindings) (m : Machine)

@[simp] theorem recast_vars : (m.recast f vars).vars = vars := rfl

@[simp] theorem recast_objects : (m.recast f vars).objects = m.objects := rfl

@[simp] theorem recast_store : (m.recast f vars).store = m.store := rfl

@[simp] theorem recast_console : (m.recast f vars).console = m.console := rfl

@[simp] theorem recast_files : (m.recast f vars).files = m.files := rfl

@[simp] theorem recast_disk : (m.recast f vars).disk = m.disk := rfl

theorem get?_recast_functions (name : String) :
    (m.recast f vars).functions.get? name = (m.functions.get? name).map (Function.renumber f) :=
  NameMap.get?_mapValues _ _ _

/-- Machines that differ in the numbers of lines, and in bindings that are related, only. -/
inductive Alike (V : Bindings → Bindings → Prop) (f : Nat → Nat) : Machine → Machine → Prop
  | mk {m : Machine} {vars : Bindings} (related : V m.vars vars) : Alike V f m (m.recast f vars)

end Machine

namespace Exec

/-! ## Computations that match -/

/-- Two runs end alike if their outcomes are the same and their machines are alike. -/
inductive EndAlike (V : Bindings → Bindings → Prop) (f : Nat → Nat) :
    Except Halt α × Machine → Except Halt α × Machine → Prop
  | mk (outcome : Except Halt α) {m m' : Machine} (alike : Machine.Alike V f m m') :
      EndAlike V f (outcome, m) (outcome, m')

/-- Computations that end alike on machines that are alike. -/
def Matches (V : Bindings → Bindings → Prop) (f : Nat → Nat) (x y : Exec α) : Prop :=
  ∀ m m', Machine.Alike V f m m' → EndAlike V f (x m) (y m')

/-- A computation that sees no difference between machines that are alike. -/
abbrev Blind (V : Bindings → Bindings → Prop) (f : Nat → Nat) (x : Exec α) : Prop :=
  Matches V f x x

variable {V : Bindings → Bindings → Prop} {f : Nat → Nat}

namespace Matches

theorem pure (a : α) : Blind V f (pure a : Exec α) :=
  fun _ _ alike => .mk _ alike

theorem fail (e : Error) : Blind V f (fail e : Exec α) :=
  fun _ _ alike => .mk _ alike

theorem heap : Blind V f heap :=
  fun m _ ⟨related⟩ => .mk (.ok m.store.heap) (.mk related)

theorem modify {change change' : Machine → Machine}
    (h : ∀ m m', Machine.Alike V f m m' → Machine.Alike V f (change m) (change' m')) :
    Matches V f (modify change : Exec Unit) (modify change') :=
  fun m m' alike => .mk (.ok ()) (h m m' alike)

theorem bind {x y : Exec α} {g h : α → Exec β} (hxy : Matches V f x y)
    (hgh : ∀ a, Matches V f (g a) (h a)) : Matches V f (x >>= g) (y >>= h) := by
  intro m m' alike
  have hrun := hxy m m' alike
  rw [bind_run, bind_run]
  generalize x m = ended, y m' = ended' at hrun
  obtain ⟨_ | a, alike⟩ := hrun
  · exact .mk _ alike
  · exact hgh a _ _ alike

/-- Reading the machine: what is done with it must not depend on how machines that are alike differ. -/
theorem get {g h : Machine → Exec β}
    (hgh : ∀ m m', Machine.Alike V f m m' → Matches V f (g m) (h m')) :
    Matches V f (get >>= g) (get >>= h) := by
  intro m m' alike
  rw [bind_run, bind_run]
  exact hgh m m' alike m m' alike

theorem recover {x y : Exec α} {g h : Error → Exec α} (hxy : Matches V f x y)
    (hgh : ∀ e, Matches V f (g e) (h e)) : Matches V f (recover x g) (recover y h) := by
  intro m m' alike
  have hrun := hxy m m' alike
  unfold Exec.recover
  generalize x m = ended, y m' = ended' at hrun
  obtain ⟨(e | _) | a, alike⟩ := hrun
  · exact hgh e _ _ alike
  · exact .mk _ alike
  · exact .mk _ alike

theorem afterRound {x y : Exec Flow} (h : Matches V f x y) (flow : Flow) :
    Matches V f (afterRound x flow) (afterRound y flow) := by
  cases flow with
  | normal => exact h
  | next => exact h
  | leave => exact .pure _
  | giveBack v => exact .pure _

theorem modifyHeap (change : Heap → Heap) : Blind V f (modifyHeap change) :=
  modify fun _ _ ⟨related⟩ => .mk related

theorem print (text : String) : Blind V f (print text) :=
  modify fun _ _ ⟨related⟩ => .mk related

theorem noteUsed (path : String) : Blind V f (noteUsed path) :=
  modify fun _ _ ⟨related⟩ => .mk related

theorem define (function : Function) :
    Matches V f (define function) (define (function.renumber f)) := by
  refine modify ?_
  rintro m _ @⟨vars, related⟩
  have hset : { m.recast f vars with
      functions := (m.recast f vars).functions.set function.name (function.renumber f) } =
      Machine.recast f vars
        { m with functions := m.functions.set function.name function } := by
    simp only [Machine.recast, Machine.renumber, NameMap.mapValues_set]
  exact hset ▸ .mk related

/-- A computation on the store that sees no difference between related scopes. -/
theorem onStore (act : Bindings → Eval α) (hact : ∀ s t, V s t → act s = act t) :
    Blind V f (onStore act) := by
  rintro m _ ⟨related⟩
  unfold Exec.onStore
  simp only [Machine.recast_vars, Machine.recast_store, ← hact _ _ related]
  rcases act m.vars m.store with ⟨_ | a, store⟩
  · exact .mk _ (.mk related)
  · exact .mk _ (.mk related)

theorem changed (current amount : Value) (direction : Direction) :
    Blind V f (changed current amount direction) := by
  cases direction with
  | increase => exact onStore (fun _ => current.add amount) fun _ _ _ => rfl
  | decrease => exact onStore (fun _ => current.subtract amount) fun _ _ _ => rfl

theorem whileLoop {test : Exec Bool} {x y : Exec Flow} (htest : Blind V f test) (h : Matches V f x y)
    (limit : Nat) : Matches V f (whileLoop test x limit) (whileLoop test y limit) := by
  induction limit with
  | zero => exact pure _
  | succ limit ih =>
      refine (Matches.recover ?_ fun e => ?_).bind fun flow => ih.afterRound flow
      · refine htest.bind fun holds => ?_
        cases holds with
        | true => exact h
        | false => exact pure _
      · exact (print _).bind fun _ => pure _

theorem timesLoop {x y : Exec Flow} (h : Matches V f x y) (count : Nat) :
    Matches V f (timesLoop x count) (timesLoop y count) := by
  induction count with
  | zero => exact pure _
  | succ count ih => exact h.bind fun flow => ih.afterRound flow

/-- A caller goes on with bindings of its own. -/
theorem returning {m : Machine} {vars : Bindings} (related : V m.vars vars)
    {ended ended' : Except Halt Flow × Machine} (h : EndAlike V f ended ended') :
    EndAlike V f (returning m ended) (returning (m.recast f vars) ended') := by
  obtain ⟨outcome, ⟨_⟩⟩ := h
  exact .mk _ (.mk related)

/-! ## The steps that statements are made of -/

variable [Bindings.Congruence V]

theorem getVar (name : String) : Blind V f (getVar? name) := by
  refine get fun m _ ⟨related⟩ => ?_
  rw [Machine.recast_vars, ← Bindings.Congruence.agrees related name]
  exact pure _

theorem evaluate (text : String) : Blind V f (evaluate text) :=
  onStore _ fun _ _ related => Evaluate.text_of_agrees (Bindings.Congruence.agrees related) text

theorem evaluateText (text : String) : Blind V f (evaluateText text) :=
  (evaluate text).bind fun _ => heap.bind fun _ => .pure _

theorem holds (expression : String) : Blind V f (holds expression) :=
  (evaluate expression).bind fun _ => heap.bind fun _ => .pure _

theorem setVar (name : String) (v : Value) : Blind V f (setVar name v) :=
  modify fun _ _ ⟨related⟩ => .mk (Bindings.Congruence.set related name v)

theorem arguments (args : List String) : Blind V f (arguments args) := by
  induction args with
  | nil => exact .pure _
  | cons arg args ih => exact (evaluate arg).bind fun _ => ih.bind fun _ => .pure _

theorem properties (fields : Entries Value) (texts : List (String × String)) :
    Blind V f (properties fields texts) := by
  induction texts generalizing fields with
  | nil => exact .pure _
  | cons head rest ih => exact (evaluate head.2).bind fun v => ih (fields.put head.1 v)

/-! ## Simple statements -/

theorem adjust (name amount : String) (direction : Direction) :
    Blind V f (adjust name amount direction) := by
  refine (evaluate amount).bind fun v => (getVar name).bind fun current => ?_
  rcases current with _ | current
  · cases direction with
    | increase => exact (pure v).bind fun updated => setVar name updated
    | decrease => exact (changed _ v .decrease).bind fun updated => setVar name updated
  · exact (changed current v direction).bind fun updated => setVar name updated

theorem createObject (name : String) (texts : List (String × String)) :
    Blind V f (createObject name texts) := by
  refine (properties [] texts).bind fun fields => (onStore _ fun _ _ _ => rfl).bind fun cell => ?_
  exact Matches.bind (modify fun _ _ ⟨related⟩ => .mk related) fun _ => setVar name _

theorem changeObject (object property : String) (amount : Value) (direction : Direction) :
    Blind V f (changeObject object property amount direction) := by
  refine get fun m _ ⟨_⟩ => ?_
  rw [Machine.recast_objects]
  cases m.objects.get? object with
  | none => exact .pure _
  | some cell =>
      refine heap.bind fun heap => ?_
      cases (heap.fields cell).get? property with
      | none => exact .pure _
      | some current =>
          refine (changed current amount direction).bind fun updated => ?_
          exact (modifyHeap _).bind fun _ => setVar object _

theorem transferProperty (object source sourceProperty property : String) :
    Blind V f (transferProperty object source sourceProperty property) := by
  refine get fun m _ ⟨_⟩ => ?_
  rw [Machine.recast_objects]
  cases m.objects.get? source with
  | none => exact .pure _
  | some cell =>
      refine heap.bind fun heap => ?_
      cases (heap.fields cell).get? sourceProperty with
      | none => exact .pure _
      | some amount => exact changeObject object property amount .increase

theorem append (item list : String) : Blind V f (append item list) := by
  refine (evaluate item).bind fun v => (getVar list).bind fun current => ?_
  rcases current with _ | current
  · exact (onStore _ fun _ _ _ => rfl).bind fun made => setVar list made
  · cases current with
    | list cell => exact modifyHeap _
    | _ => exact (onStore _ fun _ _ _ => rfl).bind fun made => setVar list made

theorem remove (item list : String) : Blind V f (remove item list) := by
  refine (evaluate item).bind fun v => (getVar list).bind fun current => ?_
  rcases current with _ | current
  · exact .pure _
  · cases current with
    | list cell =>
        refine heap.bind fun heap => ?_
        cases (heap.items cell).findIdx? fun w => w.equal heap v with
        | none => exact .pure _
        | some place => exact modifyHeap _
    | _ => exact .pure _

theorem ask (prompt name : String) : Blind V f (ask prompt name) := by
  refine Matches.bind (fun m _ ⟨related⟩ => ?_) fun answer => setVar name _
  simp only [Machine.recast_console]
  rcases m.console.ask (prompt ++ " ") with ⟨_ | answer, console⟩
  · exact .mk _ (.mk related)
  · exact .mk _ (.mk related)

theorem display (value : String) (newline : Bool) : Blind V f (display value newline) := by
  refine Matches.recover ?_ fun e => ?_
  · exact (evaluateText value).bind fun _ => print _
  · cases e.errorClass with
    | name => exact print _
    | _ => exact fail e

theorem writeTo (content path : String) : Blind V f (writeTo content path) := by
  refine (evaluateText content).bind fun text => (evaluateText path).bind fun path => ?_
  refine (noteUsed path).bind fun _ => get fun m _ ⟨_⟩ => ?_
  rw [Machine.recast_files, Machine.recast_disk]
  cases m.files.write m.disk path text with
  | ok written => exact modify fun _ _ ⟨related⟩ => .mk related
  | error e => exact fail e

theorem readInto (path name : String) : Blind V f (readInto path name) := by
  refine (evaluateText path).bind fun path => (noteUsed path).bind fun _ => get fun m _ ⟨_⟩ => ?_
  rw [Machine.recast_files, Machine.recast_disk]
  cases m.files.read m.disk path with
  | ok text => exact setVar name _
  | error e => exact fail e

/-- A statement without a block, which may be a definition all the same, with other numbers. -/
theorem simple {a : Action} {act : Exec Unit} (h : simple? a = some act) :
    ∃ act', simple? (a.renumber f) = some act' ∧ Matches V f act act' := by
  cases a <;> cases h
  case assign name value =>
    exact ⟨_, rfl, (evaluate value).bind fun v => setVar name v⟩
  case forget name =>
    exact ⟨_, rfl, modify fun _ _ ⟨related⟩ => .mk (Bindings.Congruence.erase related name)⟩
  case adjust name amount direction => exact ⟨_, rfl, adjust name amount direction⟩
  case createObject name texts => exact ⟨_, rfl, createObject name texts⟩
  case changeProperty object amount property direction =>
    exact ⟨_, rfl, (evaluate amount).bind fun v => changeObject object property v direction⟩
  case transferProperty object source sourceProperty property =>
    exact ⟨_, rfl, transferProperty object source sourceProperty property⟩
  case define name params body => exact ⟨_, rfl, define ⟨name, params, body⟩⟩
  case append item list => exact ⟨_, rfl, append item list⟩
  case remove item list => exact ⟨_, rfl, remove item list⟩
  case ask prompt name => exact ⟨_, rfl, ask prompt name⟩
  case display value newline => exact ⟨_, rfl, display value newline⟩
  case writeTo content path => exact ⟨_, rfl, writeTo content path⟩
  case readInto path name => exact ⟨_, rfl, readInto path name⟩
  case changeCase value name letters =>
    exact ⟨_, rfl, (evaluateText value).bind fun _ => setVar name _⟩
  case unknown text => exact ⟨_, rfl, print _⟩

/-! ## Loops and choices -/

theorem forEachLoop (name : String) {x y : Exec Flow} (h : Matches V f x y) (items : List Value) :
    Matches V f (forEachLoop name x items) (forEachLoop name y items) := by
  induction items with
  | nil => exact pure _
  | cons item items ih =>
      exact (setVar name item).bind fun _ => h.bind fun flow => ih.afterRound flow

variable {r r' : Block → Exec Flow}

theorem choose (branches : List Branch)
    (h : ∀ condition body, .mk condition body ∈ branches →
      Matches V f (block r body) (block r' (Block.renumber f body))) :
    Matches V f (choose r branches) (choose r' (Branch.renumber f branches)) := by
  induction branches with
  | nil =>
      simp only [Exec.choose, Branch.renumber]
      exact pure _
  | cons branch rest ih =>
      rcases branch with ⟨_ | condition, body⟩
      · simp only [Exec.choose, Branch.renumber]
        exact h _ body List.mem_cons_self
      · have hbody := h _ body List.mem_cons_self
        have hrest := ih fun condition body hb => h condition body (List.mem_cons_of_mem _ hb)
        simp only [Exec.choose, Branch.renumber]
        refine (Matches.recover ?_ fun e => ?_).bind fun outcome => ?_
        · refine (holds _).bind fun test => ?_
          cases test with
          | true => exact hbody.bind fun flow => pure _
          | false => exact pure _
        · exact (print _).bind fun _ => pure _
        · cases outcome with
          | some flow => exact pure _
          | none => exact hrest

/-! ## Calls -/

theorem call (hbody : ∀ b, Matches V f (r b) (r' (Block.renumber f b))) (name : String)
    (args : List Value) : Matches V f (call r name args) (call r' name args) := by
  rintro m _ @⟨vars, related⟩
  have hfunctions := m.get?_recast_functions f vars name
  cases hname : m.functions.get? name with
  | none =>
      rw [hname, Option.map_none] at hfunctions
      rw [call_undefined hname, call_undefined hfunctions]
      exact .mk _ (.mk related)
  | some function =>
      rw [hname, Option.map_some] at hfunctions
      by_cases hdepth : m.settings.maxCallDepth ≤ m.depth
      · rw [call_tooDeep hname hdepth, call_tooDeep hfunctions hdepth]
        exact .mk _ (.mk related)
      · have hdepth := Nat.lt_of_not_le hdepth
        rw [call_enters hname hdepth, call_enters hfunctions hdepth]
        have inside : Machine.Alike V f (entering m function args)
            (entering (m.recast f vars) (function.renumber f) args) :=
          .mk (Bindings.Congruence.frame related function.params args)
        exact returning related (hbody function.body _ _ inside)

/-! ## Statements and blocks -/

theorem perform_of_simple {a : Action} {act : Exec Unit} (h : simple? a = some act) :
    Matches V f (perform r a) (perform r' (a.renumber f)) := by
  obtain ⟨act', h', hmatch⟩ := simple (V := V) h
  rw [perform_simple h, perform_simple h']
  exact hmatch.bind fun _ => pure _

/-- One action: its own work does not look at numbers, and its blocks match. -/
theorem perform (hcall : ∀ b, Matches V f (r b) (r' (Block.renumber f b))) (a : Action)
    (ih : ∀ b ∈ a.blocks, Matches V f (block r b) (block r' (Block.renumber f b))) :
    Matches V f (perform r a) (perform r' (a.renumber f)) := by
  cases a with
  | question condition yes no =>
      simp only [Action.renumber, Exec.perform]
      refine Matches.recover ((holds _).bind fun test => ?_) fun e => (print _).bind fun _ => pure _
      cases test with
      | true => exact ih yes (by simp [Action.blocks])
      | false => exact ih no (by simp [Action.blocks])
  | choose branches =>
      simp only [Action.renumber, Exec.perform]
      exact choose branches fun condition body hb => ih body (List.mem_map.mpr ⟨_, hb, rfl⟩)
  | call name args =>
      simp only [Action.renumber, Exec.perform]
      refine (arguments args).bind fun values => (call hcall name values).bind fun result => ?_
      cases result with
      | some v => exact (setVar _ v).bind fun _ => pure _
      | none => exact pure _
  | giveBack value =>
      simp only [Action.renumber, Exec.perform]
      exact (evaluate value).bind fun v => pure _
  | attempt body handler =>
      have hbody := ih body (by simp [Action.blocks])
      cases handler with
      | none =>
          simp only [Action.renumber, Exec.perform]
          exact hbody.recover fun e => (print _).bind fun _ => pure _
      | some handling =>
          simp only [Action.renumber, Exec.perform]
          exact hbody.recover fun e =>
            (setVar _ _).bind fun _ => ih handling (by simp [Action.blocks])
  | loopWhile condition body =>
      simp only [Action.renumber, Exec.perform]
      refine get fun m m' alike => ?_
      obtain ⟨related⟩ := alike
      exact whileLoop (holds _) (ih body (by simp [Action.blocks])) _
  | forEach item iterable body =>
      simp only [Action.renumber, Exec.perform]
      refine (evaluate iterable).bind fun v => heap.bind fun heap => ?_
      exact forEachLoop item (ih body (by simp [Action.blocks])) _
  | loopTimes count body =>
      simp only [Action.renumber, Exec.perform]
      refine (evaluate count).bind fun v => ?_
      cases repetitions v with
      | ok times => exact timesLoop (ih body (by simp [Action.blocks])) _
      | error e => exact fail e
  | leave =>
      simp only [Action.renumber, Exec.perform]
      exact pure _
  | next =>
      simp only [Action.renumber, Exec.perform]
      exact pure _
  | _ => exact perform_of_simple rfl

theorem block (hcall : ∀ b, Matches V f (r b) (r' (Block.renumber f b))) (b : Block) :
    Matches V f (block r b) (block r' (Block.renumber f b)) := by
  refine Block.induction (P := fun a => Matches V f (Exec.perform r a) (Exec.perform r' (a.renumber f)))
    (Q := fun b => Matches V f (Exec.block r b) (Exec.block r' (Block.renumber f b)))
    (perform hcall) ?_ ?_ b
  · simp only [Exec.block, Block.renumber]
    exact pure _
  · intro line a rest ha hrest
    simp only [Exec.block, Block.renumber, Exec.statement]
    refine ha.bind fun flow => ?_
    cases flow with
    | normal => exact hrest
    | _ => exact pure _

theorem blockFuel (fuel : Nat) (b : Block) :
    Matches V f (blockFuel fuel b) (blockFuel fuel (Block.renumber f b)) := by
  induction fuel generalizing b with
  | zero => exact fun _ _ alike => .mk _ alike
  | succ fuel ih => exact block ih b

/-- A program with other numbers does the same, but for the numbers that its definitions leave on the
machine. -/
theorem programFuel (fuel : Nat) (b : Block) :
    Matches V f (programFuel fuel b) (programFuel fuel (Block.renumber f b)) := by
  induction b with
  | nil =>
      simp only [Exec.programFuel, Block.renumber]
      exact pure _
  | cons s rest ih =>
      cases s with
      | mk line a =>
          have hstatement : Matches V f (statementFuel fuel (.mk line a))
              (statementFuel fuel (.mk (f line) (a.renumber f))) := by
            simp only [Exec.statementFuel, Exec.statement]
            exact perform (blockFuel fuel) a fun b _ => block (blockFuel fuel) b
          simp only [Exec.programFuel, Block.renumber]
          refine (hstatement.recover fun e => (print _).bind fun _ => pure _).bind fun flow => ?_
          cases flow with
          | normal => exact ih
          | giveBack v => exact pure _
          | leave => exact (print _).bind fun _ => ih
          | next => exact (print _).bind fun _ => ih

theorem runProgram (b : Block) : Matches V f (runProgram b) (runProgram (Block.renumber f b)) := by
  rintro m _ ⟨related⟩
  exact programFuel (m.settings.maxCallDepth + 1) b m _ (.mk related)

theorem runBlock (b : Block) : Matches V f (runBlock b) (runBlock (Block.renumber f b)) := by
  rintro m _ ⟨related⟩
  exact blockFuel (m.settings.maxCallDepth + 1) b m _ (.mk related)

end Matches

/-- A program with other numbers, on a machine with other numbers, ends on the same machine with
other numbers. -/
theorem runProgram_renumber (f : Nat → Nat) (b : Block) (m : Machine) :
    runProgram (Block.renumber f b) (m.renumber f) =
      ((runProgram b m).1, (runProgram b m).2.renumber f) := by
  have hrun := Matches.runProgram b m (m.renumber f) (.mk (V := Eq) rfl)
  generalize runProgram b m = ended, runProgram (Block.renumber f b) (m.renumber f) = ended' at hrun
  obtain ⟨_, ⟨rfl⟩⟩ := hrun
  rfl

/-- Programs that say the same end alike, on machines that differ in numbers of lines only. -/
theorem runProgram_unnumbered {b b' : Block} (h : b.unnumbered = b'.unnumbered) (m : Machine) :
    (runProgram b m).1 = (runProgram b' m).1 ∧
      (runProgram b m).2.unnumbered = (runProgram b' m).2.unnumbered := by
  have hb := runProgram_renumber (fun _ => 0) b m
  have hb' := runProgram_renumber (fun _ => 0) b' m
  have hsame : Block.renumber (fun _ => 0) b = Block.renumber (fun _ => 0) b' := h
  rw [hsame, hb', Prod.mk.injEq] at hb
  exact ⟨hb.1.symm, hb.2.symm⟩

end Exec

end Parlance
