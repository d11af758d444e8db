import Parlance.Number.Division

/-!
# The division law

The truncated remainder has the sign of the dividend. So the two tests by which the quotient and the
remainder are corrected come out alike, and the corrected pair divides the dividend with a remainder
between zero and the divisor. None of the steps leaves the 64-bit range, because only a quotient of
opposite signs that is not whole is lowered, and only a remainder of the other sign is moved.
-/

namespace Parlance.Number

/-- The quotient and the remainder of a division that rounds down. -/
structure IsFloorDivision (a b q r : Int) : Prop where
  dividend : a = b * q + r
  positive : 0 < b → 0 ≤ r ∧ r < b
  negative : b < 0 → b < r ∧ r ≤ 0

theorem IsFloorDivision.fdiv_fmod {a b q r : Int} (h : IsFloorDivision a b q r) (hb : b ≠ 0) :
    a.fdiv b = q ∧ a.fmod b = r := by
  have hsum : r + b * q = a := by rw [h.dividend, Int.add_comm]
  rcases Int.lt_or_gt_of_ne hb with hneg | hpos
  · exact (Int.fdiv_fmod_unique' hneg).mpr ⟨hsum, h.negative hneg⟩
  · exact (Int.fdiv_fmod_unique hpos).mpr ⟨hsum, h.positive hpos⟩

/-- Each step of a division in 64 bits gives the integer that it stands for. -/
structure StepsFit (a b : Int64) : Prop where
  quotient : (a / b).toInt = a.toInt.tdiv b.toInt
  remainder : (a % b).toInt = a.toInt.tmod b.toInt
  lowered : roundsUp a b = true → (a / b - 1).toInt = (a / b).toInt - 1
  moved : strays (a % b) b = true → (a % b + b).toInt = (a % b).toInt + b.toInt

variable {a b : Int64}

theorem toInt_ne_zero (hb : b ≠ 0) : b.toInt ≠ 0 := by
  rwa [ne_eq, ← Int64.toInt_zero, Int64.toInt_inj]

theorem divides_iff : divides a b = true ↔ b ≠ 0 ∧ ¬ (a = Int64.minValue ∧ b = -1) := by
  simp [divides, Decidable.imp_iff_not_or]

/-! ## The truncated remainder -/

theorem tmod_bounds (n : Int) {d : Int} (hd : d ≠ 0) :
    (0 ≤ n → 0 ≤ n.tmod d) ∧ (n ≤ 0 → n.tmod d ≤ 0) ∧
      -(d.natAbs : Int) < n.tmod d ∧ n.tmod d < d.natAbs := by
  have hsize : (n.tmod d).natAbs < d.natAbs := by
    rw [Int.natAbs_tmod]
    exact Nat.mod_lt _ (Int.natAbs_pos.mpr hd)
  refine ⟨Int.tmod_nonneg d, fun hn => ?_, by omega, by omega⟩
  have hneg := Int.tmod_nonneg d (Int.neg_nonneg_of_nonpos hn)
  rw [Int.neg_tmod] at hneg
  omega

/-- Whether a remainder strays, told by the signs of integers. -/
theorem strays_iff (r b : Int64) :
    strays r b = true ↔ r.toInt < 0 ∧ 0 ≤ b.toInt ∨ 0 < r.toInt ∧ b.toInt < 0 := by
  have hzero : r = 0 ↔ r.toInt = 0 := by rw [← Int64.toInt_inj, Int64.toInt_zero]
  simp only [strays, Bool.and_eq_true, bne_iff_ne, ne_eq, decide_eq_decide, hzero,
    Int64.lt_iff_toInt_lt, Int64.toInt_zero]
  omega

/-- Truncation rounds up exactly if the remainder strays. -/
theorem roundsUp_eq_strays (hb : b ≠ 0) : roundsUp a b = strays (a % b) b := by
  obtain ⟨hup, hdown, -, -⟩ := tmod_bounds a.toInt (toInt_ne_zero hb)
  have hzero : a % b = 0 ↔ a.toInt.tmod b.toInt = 0 := by
    rw [← Int64.toInt_inj, Int64.toInt_mod, Int64.toInt_zero]
  rw [Bool.eq_iff_iff, strays_iff, Int64.toInt_mod]
  simp only [roundsUp, Bool.and_eq_true, bne_iff_ne, ne_eq, decide_eq_decide, hzero,
    Int64.lt_iff_toInt_lt, Int64.toInt_zero]
  omega

/-! ## The steps -/

theorem toInt_quotient (h : divides a b = true) : (a / b).toInt = a.toInt.tdiv b.toInt := by
  obtain ⟨-, hfits⟩ := divides_iff.mp h
  by_cases ha : a = Int64.minValue
  · exact Int64.toInt_div_of_ne_right a b fun hb => hfits ⟨ha, hb⟩
  · exact Int64.toInt_div_of_ne_left a b ha

theorem stepsFit (h : divides a b = true) : StepsFit a b := by
  have hb := (divides_iff.mp h).1
  have hquotient := toInt_quotient h
  have hremainder := Int64.toInt_mod a b
  have hsum := Int.mul_tdiv_add_tmod a.toInt b.toInt
  obtain ⟨-, -, hlow, hhigh⟩ := tmod_bounds a.toInt (toInt_ne_zero hb)
  have halow := a.le_toInt
  have hahigh := a.toInt_lt
  refine ⟨hquotient, hremainder, fun hup => ?_, fun hstrays => ?_⟩
  · rw [roundsUp_eq_strays hb, strays_iff, hremainder] at hup
    rw [Int64.toInt_sub, Int64.toInt_one, hquotient]
    -- The least quotient of all would belong to a dividend that it divides.
    have hleast : a.toInt.tdiv b.toInt ≠ -2 ^ 63 := by
      intro hq
      rw [hq] at hsum
      omega
    have hqlow := (a / b).le_toInt
    have hqhigh := (a / b).toInt_lt
    rw [hquotient] at hqlow hqhigh
    exact Int.bmod_eq_of_le (by omega) (by omega)
  · rw [strays_iff, hremainder] at hstrays
    have hblow := b.le_toInt
    have hbhigh := b.toInt_lt
    rw [Int64.toInt_add, hremainder]
    exact Int.bmod_eq_of_le (by omega) (by omega)

/-! ## The corrected pair -/

/-- What the corrected steps give is a division that rounds down. -/
theorem exists_isFloorDivision (h : divides a b = true) :
    ∃ q r, floorQuotient? a b = some q ∧ floorRemainder? a b = some r ∧
      IsFloorDivision a.toInt b.toInt q.toInt r.toInt := by
  have hb := (divides_iff.mp h).1
  have steps := stepsFit h
  have hsum := Int.mul_tdiv_add_tmod a.toInt b.toInt
  obtain ⟨-, -, hlow, hhigh⟩ := tmod_bounds a.toInt (toInt_ne_zero hb)
  have hsigns := strays_iff (a % b) b
  rw [steps.remainder] at hsigns
  rw [floorQuotient?, floorRemainder?, if_pos h, if_pos h, roundsUp_eq_strays hb]
  by_cases hstrays : strays (a % b) b = true
  · have hsides := hsigns.mp hstrays
    rw [if_pos hstrays, if_pos hstrays]
    refine ⟨_, _, rfl, rfl, ?_⟩
    rw [steps.lowered (by rwa [roundsUp_eq_strays hb]), steps.moved hstrays, steps.quotient,
      steps.remainder]
    refine ⟨?_, by omega, by omega⟩
    rw [Int.mul_sub, Int.mul_one]
    omega
  · have hsides := mt hsigns.mpr hstrays
    rw [if_neg hstrays, if_neg hstrays]
    refine ⟨_, _, rfl, rfl, ?_⟩
    rw [steps.quotient, steps.remainder]
    exact ⟨hsum.symm, by omega, by omega⟩

end Parlance.Number
