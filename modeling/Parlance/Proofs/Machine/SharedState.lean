import Parlance.Proofs.Machine.Executed

/-!
# What a run does to the state that calls share

Variables belong to a call, but the heap, the functions and the story objects are one for all calls.
Between the statements that a run executes, machines only add to the heap. So a run changes what is
shared in no other way than the statements without a block that it executes, be it in the block
itself or in functions that are called.
-/

namespace Parlance

/-- The ways in which shared state may change. To make new containers, with property names that are
distinct as long as the old ones are, is always one of them. -/
structure Policy where
  heap : Heap → Heap → Prop
  /-- Whether functions may be defined. -/
  defines : Prop
  /-- Whether story objects may be introduced. -/
  introduces : Prop
  grow : ∀ {old new : Heap}, old.Extends new → (old.Distinct → new.Distinct) → heap old new
  trans : ∀ {h₁ h₂ h₃ : Heap}, heap h₁ h₂ → heap h₂ h₃ → heap h₁ h₃

/-- A change of a machine that a policy allows, at one depth of calls. -/
structure Policy.Moves (p : Policy) (m m' : Machine) : Prop where
  settings : m'.settings = m.settings
  depth : m'.depth = m.depth
  heap : p.heap m.store.heap m'.store.heap
  functions : ¬ p.defines → m'.functions = m.functions
  objects : ¬ p.introduces → m'.objects = m.objects

namespace Policy.Moves

variable {p : Policy} {m m₁ m₂ : Machine}

theorem of_kept (h : m.Kept m₁) (hnames : m.store.heap.Distinct → m₁.store.heap.Distinct) :
    p.Moves m m₁ :=
  ⟨h.settings, h.depth, p.grow h.heap hnames, fun _ => h.functions, fun _ => h.objects⟩

theorem refl (m : Machine) : p.Moves m m :=
  of_kept (.refl m) id

theorem trans (h₁ : p.Moves m m₁) (h₂ : p.Moves m₁ m₂) : p.Moves m m₂ where
  settings := h₂.settings.trans h₁.settings
  depth := h₂.depth.trans h₁.depth
  heap := p.trans h₁.heap h₂.heap
  functions hp := (h₂.functions hp).trans (h₁.functions hp)
  objects hp := (h₂.objects hp).trans (h₁.objects hp)

/-- A change of what belongs to a call, of the console or of files. -/
theorem of_eq (hs : m₁.settings = m.settings) (hd : m₁.depth = m.depth)
    (hstore : m₁.store = m.store) (hf : m₁.functions = m.functions) (ho : m₁.objects = m.objects) :
    p.Moves m m₁ :=
  ⟨hs, hd, by rw [hstore]; exact p.grow (.refl _) id, fun _ => hf, fun _ => ho⟩

end Policy.Moves

namespace Exec

open Contract

variable {p : Policy} {m : Machine}

/-- A computation changes a machine as a policy allows. -/
def Obeys (p : Policy) (x : Exec α) (m : Machine) : Prop :=
  p.Moves m (x m).2

namespace Obeys

theorem pure (a : α) : Obeys p (pure a) m :=
  .refl m

theorem fail (e : Error) : Obeys p (fail e : Exec α) m :=
  .refl m

theorem of_keeps {x : Exec α} (h : keeping.Keeps x) : Obeys p x m := by
  obtain ⟨kept, hnames⟩ := (h m trivial).2.change
  exact .of_kept kept hnames

theorem setVar (name : String) (v : Value) : Obeys p (setVar name v) m :=
  .of_eq rfl rfl rfl rfl rfl

theorem report (text : String) : Obeys p (report text) m :=
  .of_eq rfl rfl rfl rfl rfl

/-- What follows starts where the first computation ended. -/
theorem bind {x : Exec α} {f : α → Exec β} (hx : Obeys p x m)
    (hf : ∀ a m₁, x m = (.ok a, m₁) → Obeys p (f a) m₁) : Obeys p (x >>= f) m := by
  unfold Obeys at hx ⊢
  rw [bind_run]
  rcases hrun : x m with ⟨halt | a, m₁⟩
  all_goals rw [hrun] at hx
  · exact hx
  · exact hx.trans (hf a m₁ hrun)

theorem recover {x : Exec α} {f : Error → Exec α} (hx : Obeys p x m)
    (hf : ∀ e m₁, x m = (.error (.failed e), m₁) → Obeys p (f e) m₁) :
    Obeys p (recover x f) m := by
  unfold Obeys at hx ⊢
  unfold Exec.recover
  rcases hrun : x m with ⟨(e | _) | a, m₁⟩
  all_goals rw [hrun] at hx
  · exact hx.trans (hf e m₁ hrun)
  · exact hx
  · exact hx

end Obeys

/-! ## Compound statements -/

theorem keeps_holds (expression : String) : keeping.Keeps (holds expression) :=
  (keeps_evaluate expression).bind fun _ _ => Keeps.heap.bind fun _ _ => .pure trivial

theorem obeys_loop {rounds : List (Exec Flow)}
    (h : ∀ front round back m₁, rounds = front ++ round :: back → WentOn front m m₁ →
      Obeys p round m₁) : Obeys p (loop rounds) m := by
  induction rounds generalizing m with
  | nil => exact .pure _
  | cons round rounds ih =>
      refine .bind (h [] round rounds m rfl (.nil m)) fun flow m₁ hrun => ?_
      have more (hflow : flow = .normal ∨ flow = .next) : Obeys p (loop rounds) m₁ := by
        refine ih fun front later back m₂ heq hwent => ?_
        refine h (round :: front) later back m₂ ?_ (.cons hrun hflow hwent)
        rw [heq, List.cons_append]
      cases flow with
      | normal => exact more (.inl rfl)
      | next => exact more (.inr rfl)
      | leave => exact .pure _
      | giveBack v => exact .pure _

theorem obeys_whileRound {test : Exec Bool} {body : Exec Flow} (htest : keeping.Keeps test)
    (hbody : ∀ m₁, test m = (.ok true, m₁) → Obeys p body m₁) :
    Obeys p (whileRound test body) m := by
  refine .recover (.bind (.of_keeps htest) fun holds m₁ hholds => ?_) fun e m₁ _ => ?_
  · cases holds with
    | true => exact hbody m₁ hholds
    | false => exact .pure _
  · exact .bind (.report _) fun _ _ _ => .pure _

/-- A choice goes on to the next branch only if the condition did not hold. -/
theorem not_holds_of_passed {expression message : String} {body : Exec Flow} {m₁ : Machine}
    (h : recover (do if ← holds expression then return some (← body) else return none)
      (fun e => do
        report (message ++ e.message)
        return some .normal) m = (.ok none, m₁)) : holds expression m = (.ok false, m₁) := by
  unfold recover at h
  rw [bind_run] at h
  rcases hrun : holds expression m with ⟨(e | _) | test, m₂⟩
  all_goals rw [hrun] at h
  · cases h
  · cases h
  · cases test with
    | false =>
        cases h
        rfl
    | true =>
        simp only [if_true] at h
        rw [bind_run] at h
        rcases hbody : body m₂ with ⟨(e | _) | flow, m₃⟩
        all_goals
          rw [hbody] at h
          cases h

theorem obeys_choose {branches : List Branch}
    (hbranch : ∀ before condition body behind m₁ m₂,
      branches = before ++ .mk (some condition) body :: behind → PassedOver before m m₁ →
        holds (Condition.toExpression condition) m₁ = (.ok true, m₂) → Obeys p (runBlock body) m₂)
    (hotherwise : ∀ before body behind m₁, branches = before ++ .mk none body :: behind →
      PassedOver before m m₁ → Obeys p (runBlock body) m₁) :
    Obeys p (choose runBlock branches) m := by
  induction branches generalizing m with
  | nil =>
      simp only [choose]
      exact .pure _
  | cons branch rest ih =>
      rcases branch with ⟨_ | condition, body⟩
      · simp only [choose, block_runBlock]
        exact hotherwise [] body rest m rfl (.nil m)
      · simp only [choose, block_runBlock]
        refine .bind (.recover (.bind (.of_keeps (keeps_holds _)) fun test m₁ htest => ?_)
          fun e m₁ _ => ?_) fun outcome m₁ houtcome => ?_
        · cases test with
          | true =>
              refine .bind (hbranch [] condition body rest m m₁ rfl (.nil m) htest) fun _ _ _ => ?_
              exact .pure _
          | false => exact .pure _
        · exact .bind (.report _) fun _ _ _ => .pure _
        · cases outcome with
          | some flow => exact .pure _
          | none =>
              have hfails := not_holds_of_passed houtcome
              refine ih (fun before condition' body' behind m₂ m₃ heq hpassed htest => ?_)
                fun before body' behind m₂ heq hpassed => ?_
              · refine hbranch (.mk (some condition) body :: before) condition' body' behind m₂ m₃
                  ?_ (.cons hfails hpassed) htest
                rw [heq, List.cons_append]
              · refine hotherwise (.mk (some condition) body :: before) body' behind m₂ ?_
                  (.cons hfails hpassed)
                rw [heq, List.cons_append]

/-! ## Runs -/

/-- Whatever statements without a block a run comes to execute, they change what is shared as a
policy allows. -/
def StepsObey (p : Policy) (b : Block) (m : Machine) : Prop :=
  ∀ waiting s m', Executes b m waiting s m' → ∀ act, simple? s.action = some act →
    Obeys p (runStatement s) m'

theorem Executes.of_singleton {s s' : Statement} {m' : Machine} {waiting : List Bindings}
    (h : Executes [s] m waiting s' m') (rest : Block) : Executes (s :: rest) m waiting s' m' := by
  cases h with
  | here => exact .here
  | later run more => cases more
  | inside enters more => exact .inside enters more
  | called call evaluated found room more => exact .called call evaluated found room more

/-- A call changes what is shared as the body of its function does. -/
theorem obeys_call {name : String} {values : List Value}
    (h : ∀ function, m.functions.get? name = some function → m.depth < m.settings.maxCallDepth →
      Obeys p (runBlock function.body) (entering m function values)) :
    Obeys p (call runBlock name values) m := by
  unfold Obeys
  rcases call_cases name values m with ⟨e, hfail⟩ | ⟨function, hf, hdepth⟩
  · rw [hfail]
    exact .refl m
  · have hbody := h function hf hdepth
    rw [call_enters hf hdepth]
    exact ⟨hbody.settings, congrArg (· - 1) hbody.depth, hbody.heap, hbody.functions, hbody.objects⟩

/-- What an action does itself, its blocks and the function that it calls change what is shared as a
policy allows, each wherever the action comes to it. -/
theorem obeys_perform {a : Action}
    (own : ∀ act, simple? a = some act → Obeys p (perform runBlock a) m)
    (inner : ∀ b m₁, Enters a m b m₁ → Obeys p (runBlock b) m₁)
    (called : ∀ name args values m₁ function, a = .call name args →
      arguments args m = (.ok values, m₁) → m₁.functions.get? name = some function →
      m₁.depth < m₁.settings.maxCallDepth →
        Obeys p (runBlock function.body) (entering m₁ function values)) :
    Obeys p (perform runBlock a) m := by
  cases a with
  | question condition yes no =>
      simp only [perform, block_runBlock]
      refine .recover (.bind (.of_keeps (keeps_holds _)) fun test m₁ htest => ?_) fun e m₁ _ => ?_
      · cases test with
        | true => exact inner yes m₁ (.yes htest)
        | false => exact inner no m₁ (.no htest)
      · exact .bind (.report _) fun _ _ _ => .pure _
  | choose branches =>
      simp only [perform]
      refine obeys_choose (fun before condition body behind m₁ m₂ heq hpassed htest => ?_)
        fun before body behind m₁ heq hpassed => ?_
      · subst heq
        exact inner body m₂ (.branch hpassed htest)
      · subst heq
        exact inner body m₁ (.otherwise hpassed)
  | call name args =>
      simp only [perform]
      refine .bind (.of_keeps (keeps_arguments args)) fun values m₁ hargs => ?_
      refine .bind (obeys_call fun function hf hroom => ?_) fun result m₂ _ => ?_
      · exact called name args values m₁ function rfl hargs hf hroom
      · cases result with
        | some v => exact .bind (.setVar _ v) fun _ _ _ => .pure _
        | none => exact .pure _
  | giveBack value =>
      simp only [perform]
      exact .bind (.of_keeps (keeps_evaluate value)) fun _ _ _ => .pure _
  | attempt body handler =>
      cases handler with
      | none =>
          simp only [perform, block_runBlock]
          refine .recover (inner body m .attempt) fun e m₁ _ => ?_
          exact .bind (.report _) fun _ _ _ => .pure _
      | some handling =>
          simp only [perform, block_runBlock]
          refine .recover (inner body m .attempt) fun e m₁ hfailed => ?_
          refine .bind (.setVar _ _) fun _ m₂ hset => ?_
          cases hset
          exact inner handling _ (.handler hfailed)
  | loopWhile condition body =>
      simp only [perform, block_runBlock]
      refine .bind (.of_keeps Keeps.get) fun now m₁ hget => ?_
      cases hget
      rw [whileLoop_eq_loop]
      refine obeys_loop fun front round back m₂ heq hwent => ?_
      obtain ⟨hlength, hfront, hback⟩ := List.replicate_eq_append_iff.mp heq
      obtain rfl : round = _ := List.eq_of_mem_replicate (hback ▸ List.mem_cons_self)
      rw [hfront] at hwent
      refine obeys_whileRound (keeps_holds _) fun m₃ htest => ?_
      refine inner body m₃ (.whileRound ?_ hwent htest)
      rw [List.length_cons] at hlength
      omega
  | forEach item iterable body =>
      simp only [perform, block_runBlock]
      refine .bind (.of_keeps (keeps_evaluate iterable)) fun v m₁ hv => ?_
      refine .bind (.of_keeps Keeps.heap) fun heap m₂ hheap => ?_
      cases hheap
      rw [forEachLoop_eq_loop]
      refine obeys_loop fun front round back m₃ heq hwent => ?_
      obtain ⟨front', back', hitems, rfl, hback⟩ := List.map_eq_append_iff.mp heq
      obtain ⟨w, back'', rfl, rfl, -⟩ := List.map_eq_cons_iff.mp hback
      refine .bind (.setVar _ w) fun _ m₄ hset => ?_
      cases hset
      exact inner body _ (.itemRound hv hitems hwent)
  | loopTimes count body =>
      simp only [perform, block_runBlock]
      refine .bind (.of_keeps (keeps_evaluate count)) fun v m₁ hv => ?_
      cases hwhole : repetitions v with
      | error e => exact .fail e
      | ok limit =>
          dsimp only
          rw [timesLoop_eq_loop]
          refine obeys_loop fun front round back m₂ heq hwent => ?_
          obtain ⟨hlength, hfront, hback⟩ := List.replicate_eq_append_iff.mp heq
          obtain rfl : round = runBlock body :=
            List.eq_of_mem_replicate (hback ▸ List.mem_cons_self)
          rw [hfront] at hwent
          refine inner body m₂ (.timesRound hv hwhole ?_ hwent)
          rw [List.length_cons] at hlength
          omega
  | leave =>
      simp only [perform]
      exact .pure _
  | next =>
      simp only [perform]
      exact .pure _
  | _ => exact own _ rfl

theorem Enters.level {a : Action} {b : Block} {m₁ : Machine} (h : Enters a m b m₁) :
    m₁.settings = m.settings ∧ m₁.depth = m.depth := by
  refine change_of_enters (@level_basic m.settings m.depth) (fun x _ => ?_) ⟨rfl, rfl⟩ h
  refine level_covers (fun _ inner m₂ hm => ?_) x
  obtain ⟨hsettings, hdepth⟩ := hm
  have allowed := runBlock_allowed inner m₂
  rw [hsettings, hdepth] at allowed
  exact ⟨rfl, allowed.change, allowed.halt, fun _ _ => trivial⟩

/-- How many calls a machine has room for. -/
def room (m : Machine) : Nat :=
  m.settings.maxCallDepth - m.depth

theorem room_of_moves {m₁ : Machine} (hs : m₁.settings = m.settings) (hd : m₁.depth = m.depth) :
    room m₁ = room m := by
  rw [room, room, hs, hd]

/-- A block is run as a policy allows if its steps obey and so do the bodies of functions, for which
there is less room. The induction is on the block. -/
theorem obeys_block {n : Nat}
    (bodies : ∀ (b : Block) (m : Machine), room m < n → StepsObey p b m → Obeys p (runBlock b) m)
    (b : Block) (hroom : room m < n + 1) (steps : StepsObey p b m) : Obeys p (runBlock b) m := by
  refine Block.induction
    (P := fun a => ∀ s m, s.action = a → room m < n + 1 → StepsObey p [s] m →
      Obeys p (perform runBlock a) m)
    (Q := fun b => ∀ m, room m < n + 1 → StepsObey p b m → Obeys p (runBlock b) m)
    (fun a ih s m ha hroom steps => ?_) (fun m _ _ => .refl m)
    (fun line a rest hfirst hrest m hroom steps => ?_) b m hroom steps
  · subst ha
    refine obeys_perform (fun act hact => ?_) (fun inner m₁ henters => ?_)
      fun name args values m₁ function hcall hargs hf hdepth => ?_
    · have obeys := steps [] s m .here act hact
      rwa [Obeys, runStatement_perform] at obeys
    · obtain ⟨hs, hd⟩ := henters.level
      refine ih inner henters.mem_blocks m₁ (room_of_moves hs hd ▸ hroom) ?_
      exact fun waiting s' m' h => steps waiting s' m' (.inside henters h)
    · have kept : m.Kept m₁ := ((keeps_arguments args).change_of_run trivial hargs).1
      refine bodies function.body _ ?_ fun waiting s' m' h =>
        steps _ s' m' (.called hcall hargs hf hdepth h)
      have hsame := room_of_moves kept.settings kept.depth
      unfold room at hsame hroom ⊢
      change m₁.settings.maxCallDepth - (m₁.depth + 1) < n
      omega
  · have first := hfirst (.mk line a) m rfl hroom fun waiting s' m' h =>
      steps waiting s' m' (h.of_singleton rest)
    rw [← block_runBlock]
    simp only [block, statement]
    refine .bind first fun flow m₁ hrun => ?_
    cases flow with
    | normal =>
        rw [block_runBlock]
        have hrun' : runStatement (.mk line a) m = (.ok .normal, m₁) := by
          rw [runStatement_perform]
          exact hrun
        have level := (runStatement_allowed (.mk line a) m).change
        rw [hrun'] at level
        refine hrest m₁ (room_of_moves level.1 level.2 ▸ hroom) ?_
        exact fun waiting s' m' h => steps waiting s' m' (.later hrun' h)
    | _ => exact .pure _

/-- A run changes what is shared as a policy allows if the statements without a block that it
executes do. -/
theorem obeys_of_steps (b : Block) (m : Machine) (steps : StepsObey p b m) :
    Obeys p (runBlock b) m := by
  have each (n : Nat) (b : Block) (m : Machine) (hroom : room m < n) (steps : StepsObey p b m) :
      Obeys p (runBlock b) m := by
    induction n generalizing b m with
    | zero => omega
    | succ n ih => exact obeys_block ih b hroom steps
  exact each (room m + 1) b m (Nat.lt_succ_self _) steps

end Exec

end Parlance
