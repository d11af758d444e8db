import Parlance.Proofs.Machine.Executed

/-!
# How often loops run their body

What a loop goes by is settled before its first round: a limit, the elements that a value has, or a
count. No round can change it, whatever it does to the names and lists that it was taken from. So the
body runs at most so many times, and as many times if the loop goes on behind every run.
-/

namespace Parlance

namespace Exec

/-- How a statement ends, with the machine it leaves. -/
abbrev Ending := Except Halt Flow × Machine

/-- One run of the body of a loop. -/
structure Round where
  start : Machine
  outcome : Except Halt Flow
  stop : Machine

namespace Round

/-- The body ran to its end or asked for the next round. -/
def GoesOn (r : Round) : Prop :=
  r.outcome = .ok .normal ∨ r.outcome = .ok .next

theorem not_goesOn {r : Round} (normal : r.outcome ≠ .ok .normal) (next : r.outcome ≠ .ok .next) :
    ¬ r.GoesOn :=
  not_or.mpr ⟨normal, next⟩

/-- How a loop ends with a run that it does not go on from. -/
def ending (r : Round) : Ending :=
  match r.outcome with
  | .ok .leave => (.ok .normal, r.stop)
  | outcome => (outcome, r.stop)

/-- How a loop on a condition ends with such a run. It reports failures. -/
def reported (r : Round) : Ending :=
  match r.outcome with
  | .error (.failed e) =>
    (.ok .normal, (report ("Error in while loop: " ++ e.message) r.stop).2)
  | _ => r.ending

end Round

/-- What leads a loop to a run of its body: a relation between the machine that the loop is at and the
one that the run starts on. -/
abbrev Entry := Machine → Machine → Prop

/-- The run starts where the loop is. -/
def Straight : Entry := fun m start => start = m

/-- The run starts with a name bound to a value. -/
def Binds (name : String) (v : Value) : Entry := fun m start =>
  start = { m with vars := m.vars.set name v }

/-- The run starts where a test has held. -/
def Tested (test : Exec Bool) : Entry := fun m start => test m = (.ok true, start)

/-- Runs of a body that follow one another, each one behind an entry. The loop goes on from all but
the last. -/
inductive Rounds (body : Exec Flow) : List Entry → List Round → Machine → Machine → Prop
  | nil (m : Machine) : Rounds body [] [] m m
  | cons {entry : Entry} {entries : List Entry} {r : Round} {rounds : List Round} {m last : Machine}
      (entered : entry m r.start) (ran : body r.start = (r.outcome, r.stop))
      (goesOn : rounds ≠ [] → r.GoesOn) (more : Rounds body entries rounds r.stop last) :
      Rounds body (entry :: entries) (r :: rounds) m last

/-- The rounds of a loop that has `entries` to go through, from a machine `m` on. It goes through the
first of them, one for each run of the body. If it goes on from every run, then there was a run for
each entry and the loop is over, normally and with nothing done behind the last run, unless an entry
was `refused`. A run that it does not go on from ends it. -/
structure GoesThrough (body : Exec Flow) (ends : Round → Ending) (refused : Machine → Ending → Prop)
    (entries : List Entry) (m : Machine) (result : Ending) (rounds : List Round)
    (last : Machine) : Prop where
  bounded : rounds.length ≤ entries.length
  ran : Rounds body (entries.take rounds.length) rounds m last
  through (all : ∀ r ∈ rounds, r.GoesOn) (each : rounds.length = entries.length) :
    result = (.ok .normal, last)
  short (all : ∀ r ∈ rounds, r.GoesOn) (fewer : rounds.length < entries.length) : refused last result
  ended : ∀ r ∈ rounds, ¬ r.GoesOn → result = ends r

namespace GoesThrough

variable {body : Exec Flow} {ends : Round → Ending} {refused : Machine → Ending → Prop}
  {entry : Entry} {entries : List Entry} {m last : Machine} {result : Ending} {r : Round}
  {rounds : List Round}

/-- With nothing to go through, a loop is over. -/
theorem nil (m : Machine) : GoesThrough body ends refused [] m (.ok .normal, m) [] m where
  bounded := Nat.le_refl _
  ran := .nil m
  through _ _ := rfl
  short _ fewer := absurd fewer (Nat.lt_irrefl _)
  ended _ hr := absurd hr List.not_mem_nil

/-- One more run in front, if the loop goes on from it. -/
theorem cons (entered : entry m r.start) (ran : body r.start = (r.outcome, r.stop))
    (goesOn : r.GoesOn) (h : GoesThrough body ends refused entries r.stop result rounds last) :
    GoesThrough body ends refused (entry :: entries) m result (r :: rounds) last where
  bounded := Nat.succ_le_succ h.bounded
  ran := .cons entered ran (fun _ => goesOn) h.ran
  through all each :=
    h.through (fun s hs => all s (List.mem_cons_of_mem _ hs)) (Nat.succ.inj each)
  short all fewer :=
    h.short (fun s hs => all s (List.mem_cons_of_mem _ hs)) (Nat.lt_of_succ_lt_succ fewer)
  ended s hs hstops := by
    rcases List.mem_cons.mp hs with rfl | hs
    · exact absurd goesOn hstops
    · exact h.ended s hs hstops

/-- A run that ends the loop is the last one. -/
theorem single (entered : entry m r.start) (ran : body r.start = (r.outcome, r.stop))
    (stops : ¬ r.GoesOn) (entries : List Entry) :
    GoesThrough body ends refused (entry :: entries) m (ends r) [r] r.stop where
  bounded := Nat.succ_le_succ (Nat.zero_le _)
  ran := .cons entered ran (fun h => absurd rfl h) (.nil r.stop)
  through all _ := absurd (all r List.mem_cons_self) stops
  short all _ := absurd (all r List.mem_cons_self) stops
  ended s hs _ := by rw [List.mem_singleton.mp hs]

/-- An entry that is refused ends the loop in front of the run. -/
theorem refusal (h : refused m result) (entry : Entry) (entries : List Entry) :
    GoesThrough body ends refused (entry :: entries) m result [] m where
  bounded := Nat.zero_le _
  ran := .nil m
  through _ each := absurd each (by simp)
  short _ _ := h
  ended _ hr := absurd hr List.not_mem_nil

end GoesThrough

/-! ## Loops over values and counts -/

theorem loop_of_goesOn {round : Exec Flow} {m : Machine} {r : Round}
    (ran : round m = (r.outcome, r.stop)) (goesOn : r.GoesOn) (rounds : List (Exec Flow)) :
    loop (round :: rounds) m = loop rounds r.stop := by
  rw [loop, bind_run, ran]
  rcases goesOn with h | h
  · rw [h]
    rfl
  · rw [h]
    rfl

theorem loop_of_stops {round : Exec Flow} {m : Machine} {r : Round}
    (ran : round m = (r.outcome, r.stop)) (stops : ¬ r.GoesOn) (rounds : List (Exec Flow)) :
    loop (round :: rounds) m = r.ending := by
  rw [loop, bind_run, ran]
  obtain ⟨start, outcome, stop⟩ := r
  cases outcome with
  | error h => rfl
  | ok flow =>
      cases flow with
      | normal => exact absurd (.inl rfl) stops
      | next => exact absurd (.inr rfl) stops
      | leave => rfl
      | giveBack v => rfl

/-- Where every entry leads somewhere, the loop goes through all of them, up to a run that ends it.
The induction is on the entries. -/
theorem goesThrough_loop (body : Exec Flow) (enter : List (Machine → Machine)) (m : Machine) :
    ∃ rounds last, GoesThrough body Round.ending (fun _ _ => False)
      (enter.map fun f m start => start = f m) m (loop (enter.map fun f m => body (f m)) m)
      rounds last := by
  induction enter generalizing m with
  | nil => exact ⟨[], m, .nil m⟩
  | cons f enter ih =>
      let r : Round := ⟨f m, (body (f m)).1, (body (f m)).2⟩
      have hentered : (fun m start => start = f m : Entry) m r.start := rfl
      have hrun : (fun m => body (f m) : Exec Flow) m = (r.outcome, r.stop) := rfl
      rw [List.map_cons, List.map_cons]
      by_cases hgoesOn : r.GoesOn
      · obtain ⟨rounds, last, h⟩ := ih r.stop
        rw [@loop_of_goesOn (fun m => body (f m)) m r hrun hgoesOn]
        exact ⟨r :: rounds, last, .cons hentered hrun hgoesOn h⟩
      · rw [@loop_of_stops (fun m => body (f m)) m r hrun hgoesOn]
        exact ⟨[r], r.stop, .single hentered hrun hgoesOn _⟩

theorem goesThrough_forEachLoop (name : String) (body : Exec Flow) (items : List Value)
    (m : Machine) :
    ∃ rounds last, GoesThrough body Round.ending (fun _ _ => False) (items.map (Binds name)) m
      (forEachLoop name body items m) rounds last := by
  have h := goesThrough_loop body (items.map fun v m => { m with vars := m.vars.set name v }) m
  rw [List.map_map, List.map_map] at h
  rw [forEachLoop_eq_loop]
  exact h

theorem goesThrough_timesLoop (body : Exec Flow) (count : Nat) (m : Machine) :
    ∃ rounds last, GoesThrough body Round.ending (fun _ _ => False)
      (List.replicate count Straight) m (timesLoop body count m) rounds last := by
  have h := goesThrough_loop body (List.replicate count id) m
  rw [List.map_replicate, List.map_replicate] at h
  rw [timesLoop_eq_loop]
  exact h

/-! ## Loops on a condition -/

/-- How a loop on a condition ends where its test does not hold. It reports a failure of it. -/
inductive Refused (test : Exec Bool) (m : Machine) : Ending → Prop
  | fails {after : Machine} (tested : test m = (.ok false, after)) :
      Refused test m (.ok .normal, after)
  | halts {h : Halt} {after : Machine} (tested : test m = (.error h, after)) :
      Refused test m (Round.reported ⟨m, .error h, after⟩)

variable {test : Exec Bool} {body : Exec Flow} {m : Machine} {r : Round}

/-- A loop on a condition goes on from a run of its body, or the run is its end. -/
theorem whileLoop_of_tested (entered : Tested test m r.start)
    (ran : body r.start = (r.outcome, r.stop)) (limit : Nat) :
    (r.GoesOn ∧ whileLoop test body (limit + 1) m = whileLoop test body limit r.stop) ∨
      (¬ r.GoesOn ∧ whileLoop test body (limit + 1) m = r.reported) := by
  have hact : (do if ← test then body else return .leave : Exec Flow) m = (r.outcome, r.stop) := by
    rw [bind_run, entered]
    exact ran
  rw [whileLoop, bind_run, recover, hact]
  obtain ⟨start, outcome, stop⟩ := r
  cases outcome with
  | error h =>
      refine .inr ⟨Round.not_goesOn (by simp) (by simp), ?_⟩
      cases h <;> rfl
  | ok flow =>
      cases flow with
      | normal => exact .inl ⟨.inl rfl, rfl⟩
      | next => exact .inl ⟨.inr rfl, rfl⟩
      | leave => exact .inr ⟨Round.not_goesOn (by simp) (by simp), rfl⟩
      | giveBack v => exact .inr ⟨Round.not_goesOn (by simp) (by simp), rfl⟩

theorem refused_whileLoop (h : ∀ start, ¬ Tested test m start) (limit : Nat) :
    Refused test m (whileLoop test body (limit + 1) m) := by
  rcases htest : test m with ⟨outcome, after⟩
  have hact : (do if ← test then body else return .leave : Exec Flow) m =
      (outcome.map fun _ => .leave, after) := by
    rw [bind_run, htest]
    cases outcome with
    | error halt => rfl
    | ok holds =>
        cases holds with
        | true => exact absurd htest (h after)
        | false => rfl
  rw [whileLoop, bind_run, recover, hact]
  cases outcome with
  | error halt =>
      have hhalts := Refused.halts htest
      cases halt <;> exact hhalts
  | ok holds =>
      cases holds with
      | true => exact absurd htest (h after)
      | false => exact .fails htest

/-- The induction is on the limit. -/
theorem goesThrough_whileLoop (test : Exec Bool) (body : Exec Flow) (limit : Nat) (m : Machine) :
    ∃ rounds last, GoesThrough body Round.reported (Refused test)
      (List.replicate limit (Tested test)) m (whileLoop test body limit m) rounds last := by
  induction limit generalizing m with
  | zero => exact ⟨[], m, .nil m⟩
  | succ limit ih =>
      rw [List.replicate_succ]
      by_cases htest : ∃ start, Tested test m start
      · obtain ⟨start, entered⟩ := htest
        let r : Round := ⟨start, (body start).1, (body start).2⟩
        have hentered : Tested test m r.start := entered
        have hrun : body r.start = (r.outcome, r.stop) := rfl
        rcases whileLoop_of_tested hentered hrun limit with ⟨hgoesOn, hloop⟩ | ⟨hstops, hloop⟩
        · obtain ⟨rounds, last, h⟩ := ih r.stop
          rw [hloop]
          exact ⟨r :: rounds, last, .cons hentered hrun hgoesOn h⟩
        · rw [hloop]
          exact ⟨[r], r.stop, .single hentered hrun hstops _⟩
      · exact ⟨[], m, .refusal (refused_whileLoop (not_exists.mp htest) limit) _ _⟩

/-! ## What values say to loops -/

/-- What a loop over a value goes through: the elements that a list has, the characters of a text,
each as a text of its own, or any other value by itself. -/
inductive GoesOver (heap : Heap) : Value → List Value → Prop
  | list (cell : Nat) : GoesOver heap (.list cell) (heap.items cell)
  | text (s : String) : GoesOver heap (.str s) (s.toList.map fun c => .str (String.ofList [c]))
  | other {v : Value} (noList : ∀ cell, v ≠ .list cell) (noText : ∀ s, v ≠ .str s) :
      GoesOver heap v [v]

theorem goesOver_iff {heap : Heap} {v : Value} {values : List Value} :
    GoesOver heap v values ↔ values = elements heap v := by
  constructor
  · rintro (cell | s | ⟨noList, noText⟩)
    · rfl
    · rfl
    · unfold elements
      split
      · next cell => exact absurd rfl (noList cell)
      · next s => exact absurd rfl (noText s)
      · rfl
  · rintro rfl
    unfold elements
    split
    · exact .list _
    · exact .text _
    · next noList noText => exact .other noList noText

/-- How often a value says to repeat: an integer says it itself, the truth is one, a finite number
counts without its fraction, as far as 64 bits reach, and a text counts as the integer in it. -/
inductive Counts : Value → Int → Prop
  | int (i : Int64) : Counts (.int i) i.toInt
  | yes : Counts (.bool true) 1
  | no : Counts (.bool false) 0
  | float {f : Float} {i : Int} (h : Binary64.truncate? f = some i) :
      Counts (.float f) (max Int64.minValue.toInt (min i Int64.maxValue.toInt))
  | text {s : String} {i : Int64} (h : Number.readInt? (Text.trim s.toList) = some i) :
      Counts (.str s) i.toInt

theorem toInt_clampInt64 (i : Int) :
    (Number.clampInt64 i).toInt = max Int64.minValue.toInt (min i Int64.maxValue.toInt) := by
  have hmin : Int64.minValue.toInt = -2 ^ 63 := by decide
  have hmax : Int64.maxValue.toInt = 2 ^ 63 - 1 := by decide
  unfold Number.clampInt64
  split
  · omega
  · split
    · omega
    · rw [Int64.toInt_ofInt_of_le (by omega) (by omega)]
      omega

theorem counts_iff {v : Value} {times : Int} : Counts v times ↔ repetitions v = .ok times := by
  constructor
  · rintro (i | _ | _ | h | h)
    · rfl
    · rfl
    · rfl
    · rw [repetitions, h]
      exact congrArg Except.ok (toInt_clampInt64 _)
    · rw [repetitions, h]
  · intro h
    cases v with
    | int i =>
        cases h
        exact .int i
    | bool b =>
        cases b with
        | true =>
            cases h
            exact .yes
        | false =>
            cases h
            exact .no
    | float f =>
        rw [repetitions] at h
        split at h
        · next i hi =>
          cases h
          rw [toInt_clampInt64]
          exact .float hi
        · cases h
    | str s =>
        rw [repetitions] at h
        split at h
        · next i hi =>
          cases h
          exact .text hi
        · cases h
    | _ => cases h

/-! ## All loops -/

/-- Whatever a body does, a loop on a condition comes to at most as many runs of it as the limit
allows, a loop over a value to one for each element that the value had at first, each with the name
bound to the element, and a loop with a count to as many as the count says, and none if it is
negative. Each of them comes to all of these runs, and then to nothing else, if it goes on from every
run and, on a condition, the test holds each time. What is no count is refused before any run. -/
theorem loops_are_bounded (runBody : Block → Exec Flow) (body : Block) (m : Machine) :
    (∀ condition, ∃ rounds last,
      GoesThrough (block runBody body) Round.reported
        (Refused (holds (Condition.toExpression condition)))
        (List.replicate m.settings.maxLoopIterations
          (Tested (holds (Condition.toExpression condition))))
        m (perform runBody (.loopWhile condition body) m) rounds last) ∧
      (∀ name iterable v values m₁, evaluate iterable m = (.ok v, m₁) →
        GoesOver m₁.store.heap v values → ∃ rounds last,
          GoesThrough (block runBody body) Round.ending (fun _ _ => False)
            (values.map (Binds name)) m₁ (perform runBody (.forEach name iterable body) m)
            rounds last) ∧
        ∀ count v m₁, evaluate count m = (.ok v, m₁) →
          (∀ times, Counts v times → ∃ rounds last,
            GoesThrough (block runBody body) Round.ending (fun _ _ => False)
              (List.replicate (max times 0).toNat Straight) m₁
              (perform runBody (.loopTimes count body) m) rounds last) ∧
            ((∀ times, ¬ Counts v times) →
              ∃ e, perform runBody (.loopTimes count body) m = (.error (.failed e), m₁)) := by
  refine ⟨fun condition => ?_, fun name iterable v values m₁ hv hvalues => ?_,
    fun count v m₁ hv => ⟨fun times htimes => ?_, fun none => ?_⟩⟩
  · rw [perform]
    exact goesThrough_whileLoop _ _ _ m
  · rw [perform, bind_run, hv, goesOver_iff.mp hvalues]
    exact goesThrough_forEachLoop name _ _ m₁
  · rw [perform, bind_run, hv]
    dsimp only
    rw [counts_iff.mp htimes]
    have hrounds : (max times 0).toNat = times.toNat := by omega
    rw [hrounds]
    exact goesThrough_timesLoop _ _ m₁
  · rw [perform, bind_run, hv]
    dsimp only
    cases htimes : repetitions v with
    | error e => exact ⟨e, rfl⟩
    | ok times => exact absurd (counts_iff.mpr htimes) (none times)

/-- A list of two numbers, a count and a body that lets both grow. -/
def growingMachine : Machine :=
  { vars := NameMap.ofList [("xs", .list 0), ("n", .int 2), ("hero", .record 0)],
    store := { heap := { lists := #[[.int 7, .int 8]], records := #[[("gold", .int 5)]] } } }

def growing : Block :=
  [.mk 2 (.append "1" "xs"), .mk 3 (.assign "n" "n + 1")]

/-- Neither the list nor the count that grows in the body makes for more runs of it. A text of two
characters makes for two runs, a record and a truth value for one. A negative count makes for none,
and a record is no count. -/
theorem loops_are_bounded_growing :
    (∀ iterable values, (iterable, values) ∈
        [("xs", [.int 7, .int 8]), ("'hé'", [.str "h", .str "é"]), ("hero", [.record 0]),
          ("True", [.bool true])] →
      ∃ rounds last, GoesThrough (block runBlock growing) Round.ending (fun _ _ => False)
        (values.map (Binds "x")) growingMachine
        (perform runBlock (.forEach "x" iterable growing) growingMachine) rounds last) ∧
      (∀ count times, (count, times) ∈ [("n", 2), ("-3", 0), ("True", 1), ("' 2 '", 2)] →
        ∃ rounds last, GoesThrough (block runBlock growing) Round.ending (fun _ _ => False)
          (List.replicate times Straight) growingMachine
          (perform runBlock (.loopTimes count growing) growingMachine) rounds last) ∧
      ∃ e, perform runBlock (.loopTimes "hero" growing) growingMachine =
        (.error (.failed e), growingMachine) := by
  obtain ⟨-, values, counts⟩ := loops_are_bounded runBlock growing growingMachine
  refine ⟨?_, ?_, ?_⟩
  · simp only [List.mem_cons, List.not_mem_nil, or_false, Prod.mk.injEq]
    rintro iterable items (⟨rfl, rfl⟩ | ⟨rfl, rfl⟩ | ⟨rfl, rfl⟩ | ⟨rfl, rfl⟩)
    · exact values "x" "xs" (.list 0) _ _ rfl (.list 0)
    · exact values "x" "'hé'" (.str "hé") _ _ rfl (.text "hé")
    · exact values "x" "hero" (.record 0) _ _ rfl (.other nofun nofun)
    · exact values "x" "True" (.bool true) _ _ rfl (.other nofun nofun)
  · simp only [List.mem_cons, List.not_mem_nil, or_false, Prod.mk.injEq]
    rintro count times (⟨rfl, rfl⟩ | ⟨rfl, rfl⟩ | ⟨rfl, rfl⟩ | ⟨rfl, rfl⟩)
    · exact (counts "n" (.int 2) _ rfl).1 2 (.int 2)
    · exact (counts "-3" (.int (-3)) _ rfl).1 (-3) (.int (-3))
    · exact (counts "True" (.bool true) _ rfl).1 1 .yes
    · exact (counts "' 2 '" (.str " 2 ") _ rfl).1 2 (@Counts.text " 2 " 2 rfl)
  · exact (counts "hero" (.record 0) _ rfl).2 nofun

end Exec

end Parlance
