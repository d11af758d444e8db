import Parlance.Expr.Builtin
import Parlance.Proofs.Number.Division
import Parlance.Proofs.Number.Zero
import Parlance.Proofs.Value.Growth

/-!
# Operators on integers

An operator on two integers gives the exact integer where that fits into 64 bits and a float where
it does not. Two operators give up early: a remainder is left to floating point where its truncated
quotient does not fit, and a power where its exponent takes more than 32 bits.
-/

namespace Parlance

namespace Number

theorem toInt64?_eq_some {n : Int} {i : Int64} (h : toInt64? n = some i) : i.toInt = n := by
  unfold toInt64? inInt64 at h
  split at h
  · next hrange =>
      cases h
      rw [Bool.and_eq_true, decide_eq_true_iff, decide_eq_true_iff] at hrange
      exact Int64.toInt_ofInt_of_le hrange.1 (Int.lt_of_le_sub_one hrange.2)
  · cases h

theorem toInt64?_eq_none {n : Int} (h : toInt64? n = none) : n < -2 ^ 63 ∨ 2 ^ 63 ≤ n := by
  unfold toInt64? inInt64 at h
  split at h
  · cases h
  · next hrange =>
      rw [Bool.and_eq_true, decide_eq_true_iff, decide_eq_true_iff, Int64.toInt_minValue,
        Int64.toInt_maxValue] at hrange
      omega

end Number

/-- The integer that an operator on two integers stands for, if it stands for one. -/
def BinaryOp.integer? : BinaryOp → Int → Int → Option Int
  | .add, a, b => some (a + b)
  | .subtract, a, b => some (a - b)
  | .multiply, a, b => some (a * b)
  | .divide, _, _ => none
  | .floorDivide, a, b => if b = 0 then none else some (a.fdiv b)
  | .modulo, a, b => if b = 0 then none else some (a.fmod b)
  | .power, a, b => if b < 0 then none else some (a ^ b.toNat)

/-- Where an operator is left to floating point although its result fits into 64 bits. -/
def BinaryOp.GivesUp : BinaryOp → Int64 → Int64 → Prop
  | .modulo, a, b => a = Int64.minValue ∧ b = -1
  | .power, a, b => a.toInt.natAbs ≤ 1 ∧ 2 ^ 32 ≤ b.toInt
  | _, _, _ => False

namespace Value

/-- A value is the integer `n` if that fits into 64 bits, and a float if it does not. -/
def Promotes (n : Int) (v : Value) : Prop :=
  (∃ i : Int64, i.toInt = n ∧ v = .int i) ∨
    (n < -2 ^ 63 ∨ 2 ^ 63 ≤ n) ∧ ∃ f, v = .float f

variable {a b : Int64} {n : Int}

theorem promotes_integerOr (n : Int) (f : Float) : Promotes n (integerOr n f) := by
  unfold integerOr
  split
  · next i h => exact .inl ⟨i, Number.toInt64?_eq_some h, rfl⟩
  · next h => exact .inr ⟨Number.toInt64?_eq_none h, f, rfl⟩

theorem exactNumeric_promotes (op : BinaryOp) (whole : Int → Int → Int)
    (real : Float → Float → Float) (a b : Int64) :
    ∃ v, exactNumeric op whole real (.int a) (.int b) = .ok v ∧
      Promotes (whole a.toInt b.toInt) v := by
  unfold exactNumeric numeric
  dsimp only [num?]
  cases h : Number.toInt64? (whole a.toInt b.toInt) with
  | some i => exact ⟨_, rfl, .inl ⟨i, Number.toInt64?_eq_some h, rfl⟩⟩
  | none => exact ⟨_, rfl, .inr ⟨Number.toInt64?_eq_none h, _, rfl⟩⟩

/-! ## Division -/

theorem isZero_int (b : Int64) : isZero (.int b) = decide (b = 0) := by
  change (Binary64.ofInt b.toInt == 0.0) = _
  rw [Binary64.ofInt_beq_zero, Bool.eq_iff_iff, decide_eq_true_iff, decide_eq_true_iff,
    ← Int64.toInt_inj, Int64.toInt_zero]

/-- What dividing two integers gives, told by the steps of the machine. -/
theorem floorDivide_int (hb : b ≠ 0) :
    floorDivide (.int a) (.int b) =
      .ok (match Number.floorQuotient? a b with
        | some q => .int q
        | Option.none =>
          .float (Binary64.floor (Binary64.ofInt a.toInt / Binary64.ofInt b.toInt))) := by
  unfold floorDivide
  rw [isZero_int, decide_eq_false hb]
  unfold numeric
  dsimp only [num?]
  cases Number.floorQuotient? a b <;> rfl

theorem modulo_int (hb : b ≠ 0) :
    modulo (.int a) (.int b) =
      .ok (match Number.floorRemainder? a b with
        | some r => .int r
        | Option.none =>
          .float (moduloFloat (Binary64.ofInt a.toInt) (Binary64.ofInt b.toInt))) := by
  unfold modulo
  rw [isZero_int, decide_eq_false hb]
  unfold numeric
  dsimp only [num?]
  cases Number.floorRemainder? a b <;> rfl

theorem division_by_zero (a : Int64) :
    floorDivide (.int a) (.int 0) = .error .divisionByZero ∧
      modulo (.int a) (.int 0) = .error .divisionByZero :=
  ⟨rfl, rfl⟩

/-- Dividing integers gives a quotient rounded down and a remainder between zero and the divisor,
and no step of 64-bit arithmetic on the way overflows. Only the least integer by minus one has no
such quotient, and division by zero fails. -/
theorem division_law (a b : Int64) :
    (b = 0 → floorDivide (.int a) (.int b) = .error .divisionByZero ∧
      modulo (.int a) (.int b) = .error .divisionByZero) ∧
    (b ≠ 0 → ¬ (a = Int64.minValue ∧ b = -1) →
      Number.StepsFit a b ∧
      ∃ q r : Int64, floorDivide (.int a) (.int b) = .ok (.int q) ∧
        modulo (.int a) (.int b) = .ok (.int r) ∧
        a.toInt = b.toInt * q.toInt + r.toInt ∧
        (0 < b.toInt → 0 ≤ r.toInt ∧ r.toInt < b.toInt) ∧
        (b.toInt < 0 → b.toInt < r.toInt ∧ r.toInt ≤ 0)) := by
  refine ⟨?_, fun hb hfits => ?_⟩
  · rintro rfl
    exact division_by_zero a
  · have hdivides := Number.divides_iff.mpr ⟨hb, hfits⟩
    obtain ⟨q, r, hq, hr, law⟩ := Number.exists_isFloorDivision hdivides
    refine ⟨Number.stepsFit hdivides, q, r, ?_, ?_, law.dividend, law.positive, law.negative⟩
    · rw [floorDivide_int hb, hq]
    · rw [modulo_int hb, hr]

/-- A quotient of opposite signs is lowered, and the remainder moved to the side of the divisor. -/
theorem division_law_of_opposite_signs :
    (2 : Int64) ≠ 0 ∧ ¬ ((-7 : Int64) = Int64.minValue ∧ (2 : Int64) = -1) ∧
      Number.StepsFit (-7) 2 ∧ floorDivide (.int (-7)) (.int 2) = .ok (.int (-4)) ∧
      modulo (.int (-7)) (.int 2) = .ok (.int 1) := by
  have hzero : (2 : Int64) ≠ 0 := by decide
  have hfits : ¬ ((-7 : Int64) = Int64.minValue ∧ (2 : Int64) = -1) := by decide
  obtain ⟨steps, -⟩ := (division_law (-7) 2).2 hzero hfits
  exact ⟨hzero, hfits, steps, rfl, rfl⟩

/-! ## Powers -/

/-- A power of a base that is neither zero nor a unit outgrows 64 bits with its exponent. -/
theorem pow_outgrows {base : Int} {exponent : Nat} (hbase : 1 < base.natAbs)
    (hexponent : 64 ≤ exponent) : base ^ exponent < -2 ^ 63 ∨ 2 ^ 63 ≤ base ^ exponent := by
  have hpow : 2 ^ 64 ≤ (base ^ exponent).natAbs := by
    rw [Int.natAbs_pow]
    calc 2 ^ 64 ≤ 2 ^ exponent := Nat.pow_le_pow_right (by decide) hexponent
      _ ≤ base.natAbs ^ exponent := Nat.pow_le_pow_left hbase exponent
  omega

/-- The powers of zero and of the units. -/
theorem pow_of_unit {base : Int} (hbase : base.natAbs ≤ 1) (exponent : Nat) :
    base ^ exponent =
      if exponent = 0 then 1 else if base = -1 ∧ exponent % 2 = 0 then 1 else base := by
  have hcases : base = 0 ∨ base = 1 ∨ base = -1 := by omega
  induction exponent with
  | zero => simp
  | succ exponent ih =>
      rw [Int.pow_succ, ih, if_neg (Nat.succ_ne_zero exponent)]
      rcases hcases with rfl | rfl | rfl
      · simp
      · simp
      · rcases Nat.mod_two_eq_zero_or_one exponent with heven | hodd
        · have hsucc : (exponent + 1) % 2 ≠ 0 := by omega
          simp [heven, hsucc]
        · have hne : exponent ≠ 0 := by omega
          have hsucc : (exponent + 1) % 2 = 0 := by omega
          simp [hodd, hne, hsucc]

theorem powerInt?_eq_some {base : Int} {exponent : Nat} {i : Int64}
    (h : powerInt? base exponent = some i) : i.toInt = base ^ exponent := by
  unfold powerInt? at h
  split at h
  · cases h
  · split at h
    · next hunit =>
        rw [pow_of_unit hunit]
        split at h
        · next hzero =>
            cases h
            rw [if_pos (by simpa using hzero)]
            rfl
        · next hzero =>
            rw [if_neg (by simpa using hzero)]
            split at h
            · next heven =>
                cases h
                rw [if_pos (by simpa using heven)]
                rfl
            · next hodd =>
                rw [if_neg (by simpa using hodd)]
                exact Number.toInt64?_eq_some h
    · split at h
      · cases h
      · exact Number.toInt64?_eq_some h

theorem powerInt?_eq_none {base : Int} {exponent : Nat}
    (h : powerInt? base exponent = Option.none) (hsmall : base.natAbs ≤ 1 → exponent < 2 ^ 32) :
    base ^ exponent < -2 ^ 63 ∨ 2 ^ 63 ≤ base ^ exponent := by
  unfold powerInt? at h
  split at h
  · next hlarge =>
      change 2 ^ 32 ≤ exponent at hlarge
      exact pow_outgrows (by omega) (by omega)
  · split at h
    · next hunit =>
        split at h
        · cases h
        · split at h
          · cases h
          · have := Number.toInt64?_eq_none h
            omega
    · split at h
      · exact pow_outgrows (by omega) ‹_›
      · exact Number.toInt64?_eq_none h

/-- What raising an integer to a natural power gives. -/
theorem power_int (hb : 0 ≤ b.toInt) :
    power (.int a) (.int b) =
      .ok (match powerInt? a.toInt b.toInt.toNat with
        | some i => .int i
        | Option.none =>
          .float (Float.pow (Binary64.ofInt a.toInt) (Binary64.ofInt b.toInt))) := by
  have hpositive : ¬ (Num.int b).toFloat < 0.0 := by
    change ¬ Binary64.ofInt b.toInt < 0.0
    rw [Binary64.ofInt_lt_zero_iff]
    omega
  unfold power
  dsimp only [num?]
  rw [decide_eq_false hpositive, Bool.and_false, if_neg Bool.false_ne_true, if_pos hb]
  cases powerInt? a.toInt b.toInt.toNat <;> rfl

theorem powerInt?_givesUp {base : Int} {exponent : Nat} (h : 2 ^ 32 ≤ exponent) :
    powerInt? base exponent = Option.none := by
  unfold powerInt?
  exact if_pos h

/-! ## All operators -/

theorem exists_toInt_eq {n : Int} (h : n.natAbs ≤ 1) : ∃ i : Int64, i.toInt = n :=
  ⟨Int64.ofInt n, Int64.toInt_ofInt_of_le (by omega) (by omega)⟩

theorem pow_fits {base : Int} (hbase : base.natAbs ≤ 1) (exponent : Nat) :
    ∃ i : Int64, i.toInt = base ^ exponent := by
  refine exists_toInt_eq ?_
  rw [pow_of_unit hbase]
  split
  · decide
  · split
    · decide
    · exact hbase

theorem floorDivide_promotes (hb : b ≠ 0) :
    ∃ v, floorDivide (.int a) (.int b) = .ok v ∧ Promotes (a.toInt.fdiv b.toInt) v := by
  rw [floorDivide_int hb]
  by_cases hdivides : Number.divides a b = true
  · obtain ⟨q, r, hq, -, law⟩ := Number.exists_isFloorDivision hdivides
    rw [hq]
    exact ⟨_, rfl, .inl ⟨q, (law.fdiv_fmod (Number.toInt_ne_zero hb)).1.symm, rfl⟩⟩
  · obtain ⟨rfl, rfl⟩ : a = Int64.minValue ∧ b = -1 := by
      rw [Number.divides_iff] at hdivides
      simpa [hb] using hdivides
    exact ⟨_, rfl, .inr ⟨.inr (by decide), _, rfl⟩⟩

theorem modulo_promotes (hb : b ≠ 0) (hfits : ¬ (a = Int64.minValue ∧ b = -1)) :
    ∃ v, modulo (.int a) (.int b) = .ok v ∧ Promotes (a.toInt.fmod b.toInt) v := by
  obtain ⟨q, r, -, hr, law⟩ := Number.exists_isFloorDivision (Number.divides_iff.mpr ⟨hb, hfits⟩)
  rw [modulo_int hb, hr]
  exact ⟨_, rfl, .inl ⟨r, (law.fdiv_fmod (Number.toInt_ne_zero hb)).2.symm, rfl⟩⟩

theorem power_promotes (hb : 0 ≤ b.toInt) (hsmall : ¬ (a.toInt.natAbs ≤ 1 ∧ 2 ^ 32 ≤ b.toInt)) :
    ∃ v, power (.int a) (.int b) = .ok v ∧ Promotes (a.toInt ^ b.toInt.toNat) v := by
  rw [power_int hb]
  cases h : powerInt? a.toInt b.toInt.toNat with
  | some i => exact ⟨_, rfl, .inl ⟨i, powerInt?_eq_some h, rfl⟩⟩
  | none =>
      have hrange := powerInt?_eq_none h fun hunit => by omega
      exact ⟨_, rfl, .inr ⟨hrange, _, rfl⟩⟩

theorem not_promotes_float {f : Float} (h : ∃ i : Int64, i.toInt = n) :
    ¬ Promotes n (.float f) := by
  obtain ⟨i, rfl⟩ := h
  rintro (⟨_, _, hfloat⟩ | ⟨hrange, -⟩)
  · cases hfloat
  · have hlow := i.le_toInt
    have hhigh := i.toInt_lt
    omega

theorem exists_run {r : Except Error Value} {P : Value → Prop} (h : ∃ v, r = .ok v ∧ P v)
    (store : Store) : ∃ v, (liftM r : Eval Value) store = (.ok v, store) ∧ P v := by
  obtain ⟨v, hv, hP⟩ := h
  exact ⟨v, Eval.lift_eq_ok.mpr ⟨hv, rfl⟩, hP⟩

theorem binary_promotes {op : BinaryOp} (h : op.integer? a.toInt b.toInt = some n)
    (hkept : ¬ op.GivesUp a b) (store : Store) :
    ∃ v, binary op (.int a) (.int b) store = (.ok v, store) ∧ Promotes n v := by
  cases op with
  | add =>
      cases h
      exact exists_run (exactNumeric_promotes .add (· + ·) (· + ·) a b) store
  | subtract =>
      cases h
      exact exists_run (exactNumeric_promotes .subtract (· - ·) (· - ·) a b) store
  | multiply =>
      cases h
      exact exists_run (exactNumeric_promotes .multiply (· * ·) (· * ·) a b) store
  | divide => cases h
  | floorDivide =>
      obtain ⟨hb, hn⟩ := Option.ite_none_left_eq_some.mp h
      cases hn
      exact exists_run (floorDivide_promotes fun hzero => hb (by rw [hzero]; rfl)) store
  | modulo =>
      obtain ⟨hb, hn⟩ := Option.ite_none_left_eq_some.mp h
      cases hn
      exact exists_run (modulo_promotes (fun hzero => hb (by rw [hzero]; rfl)) hkept) store
  | power =>
      obtain ⟨hb, hn⟩ := Option.ite_none_left_eq_some.mp h
      cases hn
      exact exists_run (power_promotes (by omega) hkept) store

/-- Where an operator gives up, its result would fit, and it is a float. -/
theorem binary_givesUp {op : BinaryOp} (h : op.integer? a.toInt b.toInt = some n)
    (hup : op.GivesUp a b) (store : Store) :
    (∃ i : Int64, i.toInt = n) ∧
      ∃ f, binary op (.int a) (.int b) store = (.ok (.float f), store) := by
  cases op with
  | modulo =>
      obtain ⟨rfl, rfl⟩ := hup
      cases h
      exact ⟨exists_toInt_eq (by decide), _, rfl⟩
  | power =>
      obtain ⟨hunit, hlarge⟩ := hup
      obtain ⟨hb, hn⟩ := Option.ite_none_left_eq_some.mp h
      cases hn
      have hnone : powerInt? a.toInt b.toInt.toNat = Option.none := powerInt?_givesUp (by omega)
      have hvalue := power_int (a := a) (by omega : 0 ≤ b.toInt)
      rw [hnone] at hvalue
      exact ⟨pow_fits hunit _, _, Eval.lift_eq_ok.mpr ⟨hvalue, rfl⟩⟩
  | _ => cases hup

/-- An operator on two integers, the negative and the magnitude of an integer are exact integers
where these fit into 64 bits and floats where they do not. Only a remainder whose truncated quotient
does not fit, and a power of zero or of a unit with an exponent of 2^32 or more, are floats although
they would fit. -/
theorem integers_promote_on_overflow (a b : Int64) (store : Store) :
    (∀ op n, BinaryOp.integer? op a.toInt b.toInt = some n → ¬ op.GivesUp a b →
      ∃ v, binary op (.int a) (.int b) store = (.ok v, store) ∧ Promotes n v) ∧
    (∀ op n, BinaryOp.integer? op a.toInt b.toInt = some n → op.GivesUp a b →
      (∃ i : Int64, i.toInt = n) ∧
        ∃ f, binary op (.int a) (.int b) store = (.ok (.float f), store)) ∧
    (∃ v, unary .negate (.int a) store = (.ok v, store) ∧ Promotes (-a.toInt) v) ∧
    (∃ v, Builtin.abs.call [.int a] store = (.ok v, store) ∧ Promotes a.toInt.natAbs v) :=
  ⟨fun _ _ h hkept => binary_promotes h hkept store, fun _ _ h hup => binary_givesUp h hup store,
    ⟨_, rfl, promotes_integerOr _ _⟩, ⟨_, rfl, promotes_integerOr _ _⟩⟩

/-- The least integer is a power of minus two, and its quotient by minus one is too great. -/
theorem integers_promote_on_overflow_at_the_least :
    BinaryOp.power.integer? (-2 : Int64).toInt (63 : Int64).toInt = some (-2 ^ 63) ∧
      ¬ BinaryOp.power.GivesUp (-2) 63 ∧
      (∃ v, binary .power (.int (-2)) (.int 63) {} = (.ok v, {}) ∧ Promotes (-2 ^ 63) v) ∧
      BinaryOp.floorDivide.integer? Int64.minValue.toInt (-1 : Int64).toInt = some (2 ^ 63) ∧
      ¬ BinaryOp.floorDivide.GivesUp Int64.minValue (-1) ∧
      ∃ v, binary .floorDivide (.int Int64.minValue) (.int (-1)) {} = (.ok v, {}) ∧
        Promotes (2 ^ 63) v := by
  have hpower : BinaryOp.power.integer? (-2 : Int64).toInt (63 : Int64).toInt = some (-2 ^ 63) := by
    decide
  have hquotient :
      BinaryOp.floorDivide.integer? Int64.minValue.toInt (-1 : Int64).toInt = some (2 ^ 63) := by
    decide
  have hsmall : ¬ BinaryOp.power.GivesUp (-2) 63 := fun h => absurd h.1 (by decide)
  exact ⟨hpower, hsmall, (integers_promote_on_overflow (-2) 63 {}).1 _ _ hpower hsmall, hquotient,
    id, (integers_promote_on_overflow Int64.minValue (-1) {}).1 _ _ hquotient id⟩

/-- One to the power of 2^32, and the remainder of the least integer by minus one, would fit. -/
theorem unit_power_and_least_remainder_are_floats :
    (BinaryOp.power.integer? (1 : Int64).toInt (4294967296 : Int64).toInt = some 1 ∧
      ¬ ∃ v, binary .power (.int 1) (.int 4294967296) {} = (.ok v, {}) ∧ Promotes 1 v) ∧
    (BinaryOp.modulo.integer? Int64.minValue.toInt (-1 : Int64).toInt = some 0 ∧
      ¬ ∃ v, binary .modulo (.int Int64.minValue) (.int (-1)) {} = (.ok v, {}) ∧
        Promotes 0 v) := by
  have refuted {op : BinaryOp} {a b : Int64} {n : Int}
      (h : op.integer? a.toInt b.toInt = some n) (hup : op.GivesUp a b) :
      ¬ ∃ v, binary op (.int a) (.int b) {} = (.ok v, {}) ∧ Promotes n v := by
    obtain ⟨hfits, f, hfloat⟩ := binary_givesUp h hup {}
    rintro ⟨v, hv, hpromotes⟩
    cases hfloat.symm.trans hv
    exact not_promotes_float hfits hpromotes
  have hpower : BinaryOp.power.integer? (1 : Int64).toInt (4294967296 : Int64).toInt = some 1 :=
    congrArg some (Int.one_pow)
  have hremainder : BinaryOp.modulo.integer? Int64.minValue.toInt (-1 : Int64).toInt = some 0 := by
    decide
  exact ⟨⟨hpower, refuted hpower ⟨by decide, by decide⟩⟩,
    ⟨hremainder, refuted hremainder ⟨rfl, rfl⟩⟩⟩

end Value

end Parlance
