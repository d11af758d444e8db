import Parlance.Proofs.Machine.Containment
import Parlance.Proofs.Machine.Numbering
import Parlance.Proofs.Statement.Joining
import Parlance.Session

/-!
# Sessions put together

Running one source behind another leaves what running both of them as one source leaves. The sources
must be cut apart between two statements, and the first one must not end with a value given back,
which ends all of a source and not more.
-/

namespace Parlance

namespace Exec

/-- Whether a program ends because one of its statements gives back a value. Each statement runs on
the machine that the ones in front of it left. -/
def givesBack : Block → Machine → Bool
  | [], _ => false
  | s :: rest, m =>
    match (runStatement s m).1 with
    | .ok (.giveBack _) => true
    | _ => givesBack rest (runProgram [s] m).2

theorem givesBack_single_iff {s : Statement} {m : Machine} :
    givesBack [s] m = true ↔ ∃ v, (runStatement s m).1 = .ok (.giveBack v) := by
  unfold givesBack
  constructor
  · intro h
    split at h
    · next v hv => exact ⟨v, hv⟩
    · cases h
  · rintro ⟨v, hv⟩
    rw [hv]

/-- The machine on which a program goes on behind a statement, with a failure and a signal that no
loop received reported. -/
def settled (ended : Except Halt Flow × Machine) : Machine :=
  match ended.1 with
  | .error (.failed e) => reporting ("Error: " ++ e.message) ended.2
  | .ok .leave => reporting ("Error: " ++ Error.strayBreak.message) ended.2
  | .ok .next => reporting ("Error: " ++ Error.strayContinue.message) ended.2
  | _ => ended.2

theorem settled_settings (ended : Except Halt Flow × Machine) :
    (settled ended).settings = ended.2.settings := by
  rcases ended with ⟨(e | _) | flow, m⟩
  · rfl
  · rfl
  · cases flow <;> rfl

theorem settled_store (ended : Except Halt Flow × Machine) :
    (settled ended).store = ended.2.store := by
  rcases ended with ⟨(e | _) | flow, m⟩
  · rfl
  · rfl
  · cases flow <;> rfl

theorem programFuel_cons {fuel : Nat} {s : Statement} {m : Machine}
    (hback : ∀ v, (statementFuel fuel s m).1 ≠ .ok (.giveBack v))
    (hfuel : (statementFuel fuel s m).1 ≠ .error .exhausted) (rest : Block) :
    programFuel fuel (s :: rest) m = programFuel fuel rest (settled (statementFuel fuel s m)) := by
  simp only [programFuel]
  rw [bind_run]
  unfold recover
  rcases hrun : statementFuel fuel s m with ⟨(e | _) | flow, m₁⟩
  · rfl
  · exact absurd (congrArg Prod.fst hrun) hfuel
  · cases flow with
    | normal => rfl
    | giveBack v => exact absurd (congrArg Prod.fst hrun) (hback v)
    | leave => rfl
    | next => rfl

theorem programFuel_nil (fuel : Nat) (m : Machine) : programFuel fuel [] m = (.ok (), m) := rfl

theorem runProgram_eq (b : Block) (m : Machine) :
    runProgram b m = programFuel (m.settings.maxCallDepth + 1) b m := rfl

theorem runStatement_eq_statementFuel (s : Statement) (m : Machine) :
    runStatement s m = statementFuel (m.settings.maxCallDepth + 1) s m := rfl

/-- A statement that gives nothing back is run, and the rest goes on from there. -/
theorem runProgram_cons {s : Statement} {m : Machine}
    (h : ∀ v, (runStatement s m).1 ≠ .ok (.giveBack v)) (rest : Block) :
    runProgram (s :: rest) m = runProgram rest (runProgram [s] m).2 := by
  have allowed := runStatement_allowed s m
  have hfuel : (runStatement s m).1 ≠ .error .exhausted := fun hx => allowed.halt _ hx rfl
  -- The fuel is the one for the settings at the start, and these do not change.
  have hsettings : (settled (runStatement s m)).settings = m.settings := by
    rw [settled_settings]
    exact allowed.change.1
  rw [runStatement_eq_statementFuel] at h hfuel hsettings
  rw [runProgram_eq (s :: rest), runProgram_eq [s], programFuel_cons h hfuel,
    programFuel_cons h hfuel, programFuel_nil, runProgram_eq, hsettings]

theorem runProgram_single {s : Statement} {m : Machine} (h : givesBack [s] m = false) :
    (runProgram [s] m).2 = settled (runStatement s m) := by
  have hback (v : Value) (hv : (runStatement s m).1 = .ok (.giveBack v)) : False :=
    Bool.false_ne_true (h.symm.trans (givesBack_single_iff.mpr ⟨v, hv⟩))
  have hfuel : (runStatement s m).1 ≠ .error .exhausted :=
    fun hx => (runStatement_allowed s m).halt _ hx rfl
  rw [runStatement_eq_statementFuel] at hback hfuel ⊢
  rw [runProgram_eq, programFuel_cons hback hfuel, programFuel_nil]

/-- A value that is given back ends a program with the statement that gives it back. -/
theorem runProgram_givesBack {s : Statement} {m : Machine} {v : Value}
    (h : (runStatement s m).1 = .ok (.giveBack v)) (rest : Block) :
    runProgram (s :: rest) m = (.ok (), (runStatement s m).2) := by
  rw [runStatement_eq_statementFuel] at h ⊢
  rw [runProgram_eq]
  simp only [programFuel]
  rw [bind_run]
  unfold recover
  rcases hrun : statementFuel (m.settings.maxCallDepth + 1) s m with ⟨outcome, m₁⟩
  rw [hrun] at h
  cases h
  rfl

theorem runProgram_append {front : Block} {m : Machine} (h : givesBack front m = false)
    (back : Block) : runProgram (front ++ back) m = runProgram back (runProgram front m).2 := by
  induction front generalizing m with
  | nil => rfl
  | cons s rest ih =>
      have hgoesOn : ∀ v, (runStatement s m).1 ≠ .ok (.giveBack v) := by
        intro v hv
        simp [givesBack, hv] at h
      have hrest : givesBack rest (runProgram [s] m).2 = false := by
        unfold givesBack at h
        split at h
        · cases h
        · exact h
      rw [List.cons_append, runProgram_cons hgoesOn (rest ++ back), runProgram_cons hgoesOn rest,
        ih hrest]

end Exec

namespace Session

open Exec

theorem runSource_eq (source : String) (m : Machine) :
    runSource source m = (.ok (), (runProgram (Block.ofProgram source) m).2) := by
  obtain ⟨m', hrun, -⟩ := programFuel_run (Block.ofProgram source) (m := m) rfl
  rw [← runProgram_eq] at hrun
  rw [runSource, hrun]

/-- Two sources, the second of which starts anew, are read one behind the other, and run as one source
they leave what they leave run one after the other, but for the numbers of lines. The console is one
whose output takes every text, so that no failure to print a report ends the first source early. -/
theorem sources_compose (m : Machine) (first second : String)
    (hanew : Line.StartAnew (Line.ofProgram second.toList))
    (hends : givesBack (Block.ofProgram first) m = false) :
    (Block.ofProgram (first ++ "\n" ++ second) = Block.ofProgram first ++
        Block.renumber (· + (first.toList.count '\n' + 1)) (Block.ofProgram second)) ∧
      ∃ between apart joined : Machine, runSource first m = (.ok (), between) ∧
        runSource second between = (.ok (), apart) ∧
        runSource (first ++ "\n" ++ second) m = (.ok (), joined) ∧
        joined.unnumbered = apart.unnumbered := by
  have htree := Block.ofProgram_append first second hanew
  let between := (runProgram (Block.ofProgram first) m).2
  have hjoined := runSource_eq (first ++ "\n" ++ second) m
  rw [htree, runProgram_append hends] at hjoined
  refine ⟨htree, between, _, _, runSource_eq first m, runSource_eq second between, hjoined, ?_⟩
  have hnumbers := Block.unnumbered_renumber (· + (first.toList.count '\n' + 1))
    (Block.ofProgram second)
  exact (runProgram_unnumbered hnumbers between).2

/-- The first source ends inside an attempt, and the second one calls what the first one defines. -/
theorem sources_compose_behind_attempt :
    let first := "define double with n:\n  give back n\nattempt:\n  let x be 4"
    let second := "# next\ncall double with x"
    Line.StartAnew (Line.ofProgram second.toList) ∧
      givesBack (Block.ofProgram first) {} = false ∧
      ∃ between apart joined : Machine, runSource first {} = (.ok (), between) ∧
        runSource second between = (.ok (), apart) ∧
        runSource (first ++ "\n" ++ second) {} = (.ok (), joined) ∧
        joined.unnumbered = apart.unnumbered ∧ joined.vars.names = ["__last_result__", "x"] := by
  intro first second
  have hanew : Line.StartAnew (Line.ofProgram second.toList) := by
    unfold Line.StartAnew
    decide +kernel
  have hends : givesBack (Block.ofProgram first) {} = false := by decide +kernel
  have hnames : (runSource (first ++ "\n" ++ second) {}).2.vars.names = ["__last_result__", "x"] := by
    decide +kernel
  obtain ⟨-, between, apart, joined, hfirst, hsecond, hjoined, hsame⟩ :=
    sources_compose {} first second hanew hends
  rw [hjoined] at hnames
  exact ⟨hanew, hends, between, apart, joined, hfirst, hsecond, hjoined, hsame, hnames⟩

end Session

end Parlance
