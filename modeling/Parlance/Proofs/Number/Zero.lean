import Mathlib
import Parlance.Number.Binary64

/-!
# Integers beside zero

Rounding an integer to a double loses digits, but never the sign, and takes no integer but zero to
zero. So tests for zero and for a sign may be made on the double: the double nearest to an integer
compares with zero as the integer does.
-/

namespace Parlance.Binary64

open Float.Model (Format UnpackedFloat)
open Float.Model.UnpackedFloat

/-! ## Packing and unpacking -/

/-- The bits of a double, as the machine keeps them. -/
abbrev Bits := BitVec Format.binary64.numBits

/-- The bits of an infinity or of a double with a leading one: neither of a zero, nor of a subnormal
double, nor of a missing number. -/
structure Bits.Large (b : Bits) : Prop where
  exponent : unpackExponent b ≠ 0#11
  number : unpackExponent b = -1#11 → unpackMantissa b = 0#52

theorem toBitVec_ofBitVec (s : BitVec 1) : (Sign.ofBitVec s).toBitVec = s := by
  revert s
  decide

theorem append_fields (b : Bits) : unpackSign b ++ unpackExponent b ++ unpackMantissa b = b := by
  simp only [unpackSign, unpackExponent, unpackMantissa, BitVec.extractLsb]
  ext i hi
  grind

theorem toNat_implicit (m : BitVec 52) : (1#1 ++ m).toNat = 2 ^ 52 + m.toNat := by
  rw [BitVec.toNat_append, ← Nat.shiftLeft_add_eq_or_of_lt m.isLt]
  rfl

/-- A mantissa behind its implicit leading one has 53 binary digits. -/
theorem log2_implicit (m : BitVec 52) : (1#1 ++ m).toNat.log2 = 52 := by
  have hm := m.isLt
  rw [toNat_implicit, Nat.log2_eq_iff (by omega)]
  constructor <;> omega

theorem setWidth_implicit (m : BitVec 52) : (1#1 ++ m).setWidth 52 = m := by
  apply BitVec.eq_of_toNat_eq
  have hm := m.isLt
  rw [BitVec.toNat_setWidth, toNat_implicit]
  omega

theorem pack_normal (s : Sign) {e : BitVec 11} (m : BitVec 52) (htop : e ≠ -1#11)
    (hpos : 0 < (1#1 ++ m).toNat) :
    pack Format.binary64 (.finite s (1#1 ++ m).toNat ((e.toNat : Int) - (1023 + 52)) hpos) =
      packComponents Format.binary64 s e m := by
  have hlt := e.isLt
  have hne : e.toNat ≠ 2047 := fun h => htop (BitVec.eq_of_toNat_eq h)
  have hbias : Format.binary64.exponentBias = 1023 := rfl
  have hwidth : Format.binary64.mantissaBits = 53 := rfl
  have hbiased :
      ((e.toNat : Int) - (1023 + 52) + ((1023 : Nat) : Int) + ((52 : Nat) : Int)).toNat =
        e.toNat := by
    omega
  have hroom : ¬ 2 ^ 11 ≤ e.toNat + 1 := by omega
  simp only [pack, hbias, hwidth, hbiased, log2_implicit, if_neg hroom, BitVec.ofNat_toNat,
    BitVec.setWidth_eq, setWidth_implicit, if_true]

theorem pack_unpack {b : Bits} (large : b.Large) :
    pack Format.binary64 (UnpackedFloat.unpack Format.binary64 b) = b := by
  have hfields : packComponents Format.binary64 (Sign.ofBitVec (unpackSign b)) (unpackExponent b)
      (unpackMantissa b) = b := by
    rw [packComponents, toBitVec_ofBitVec, append_fields]
  unfold UnpackedFloat.unpack
  by_cases htop : unpackExponent b = -1#11
  · rw [htop, large.number htop] at hfields
    rw [if_pos htop, if_pos (large.number htop)]
    exact hfields
  · rw [if_neg htop, if_neg large.exponent]
    exact (pack_normal _ _ htop _).trans hfields

theorem compare_unpack_zero {b : Bits} (large : b.Large) (z : Sign) :
    (UnpackedFloat.unpack Format.binary64 b).compare (.zero z) =
      some (if unpackSign b = 0#1 then .gt else .lt) := by
  unfold UnpackedFloat.unpack Sign.ofBitVec
  by_cases htop : unpackExponent b = -1#11
  · rw [if_pos htop, if_pos (large.number htop)]
    split <;> rfl
  · rw [if_neg htop, if_neg large.exponent]
    split <;> rfl

/-- How a double with large bits compares with a zero. -/
theorem compare_ofBits_zero {b : Bits} (large : b.Large) (z : Sign) :
    (Float.ofBits (UInt64.ofBitVec b)).toModel.unpack.compare (.zero z) =
      some (if unpackSign b = 0#1 then .gt else .lt) := by
  have hunpack : (Float.ofBits (UInt64.ofBitVec b)).toModel.unpack =
      UnpackedFloat.unpack Format.binary64 b := by
    change UnpackedFloat.unpack Format.binary64 (pack Format.binary64 _) = _
    exact congrArg _ (pack_unpack large)
  rw [hunpack, compare_unpack_zero large]

/-! ## Signed bits -/

theorem pow2_eq (n : Nat) : pow2 n = 2 ^ n :=
  Nat.one_shiftLeft n

theorem compare_withSign_zero (negative : Bool) {bits : Nat} (hlow : 2 ^ 52 ≤ bits)
    (hhigh : bits ≤ 2047 * 2 ^ 52) (z : Sign) :
    (withSign negative bits).toModel.unpack.compare (.zero z) =
      some (if negative then .lt else .gt) := by
  let signed := if negative then 2 ^ 63 + bits else bits
  let b : Bits := BitVec.ofNat 64 signed
  have hb : b.toNat = signed := by
    change signed % 2 ^ 64 = signed
    dsimp only [signed]
    split <;> omega
  have field (high low : Nat) : (b.extractLsb high low).toNat =
      signed / 2 ^ low % 2 ^ (high - low + 1) := by
    rw [BitVec.extractLsb_toNat, hb, Nat.shiftRight_eq_div_pow]
  have hexponent : (unpackExponent b).toNat = bits / 2 ^ 52 := by
    rw [unpackExponent, BitVec.toNat_cast, field]
    dsimp only [signed]
    split <;> omega
  have hmantissa : (unpackMantissa b).toNat = bits % 2 ^ 52 := by
    rw [unpackMantissa, BitVec.toNat_cast, field]
    dsimp only [signed]
    split <;> omega
  have hsign : (unpackSign b).toNat = if negative then 1 else 0 := by
    rw [unpackSign, BitVec.toNat_cast, field]
    dsimp only [signed]
    split <;> omega
  have large : b.Large := by
    refine ⟨fun h => ?_, fun h => BitVec.eq_of_toNat_eq ?_⟩
    · have hzero : (unpackExponent b).toNat = 0 := congrArg BitVec.toNat h
      omega
    · have htop : (unpackExponent b).toNat = 2047 := congrArg BitVec.toNat h
      change (unpackMantissa b).toNat = 0
      omega
  have hdouble : withSign negative bits = Float.ofBits (UInt64.ofBitVec b) := by
    unfold withSign
    rw [pow2_eq]
    rfl
  rw [hdouble, compare_ofBits_zero large]
  cases negative with
  | true =>
      have hset : unpackSign b ≠ 0#1 := fun h => by cases hsign.symm.trans (congrArg BitVec.toNat h)
      rw [if_neg hset, if_pos rfl]
  | false => rw [if_pos (BitVec.eq_of_toNat_eq hsign), if_neg Bool.false_ne_true]

/-! ## Doubles of natural numbers -/

/-- Scaled to its leading digit, a natural number has 53 binary digits. -/
theorem scale_leading {n : Nat} (hn : n ≠ 0) :
    0 < (scale n 1 ((n.log2 : Int) - 52)).2 ∧
      (scale n 1 ((n.log2 : Int) - 52)).2 * 2 ^ 52 ≤ (scale n 1 ((n.log2 : Int) - 52)).1 := by
  have hlow := Nat.log2_self_le hn
  unfold scale
  simp only [pow2_eq, Nat.one_mul]
  split
  · have hshift : ((n.log2 : Int) - 52).toNat + 52 = n.log2 := by omega
    exact ⟨Nat.two_pow_pos _, by rwa [← Nat.pow_add, hshift]⟩
  · have hshift : n.log2 + (-((n.log2 : Int) - 52)).toNat = 52 := by omega
    refine ⟨Nat.one_pos, ?_⟩
    calc 1 * 2 ^ 52 = 2 ^ n.log2 * 2 ^ (-((n.log2 : Int) - 52)).toNat := by
          rw [← Nat.pow_add, hshift, Nat.one_mul]
      _ ≤ n * 2 ^ (-((n.log2 : Int) - 52)).toNat := Nat.mul_le_mul_right _ hlow

theorem unitExponent_whole {n : Nat} (hn : n ≠ 0) : unitExponent n 1 = (n.log2 : Int) - 52 := by
  have hscaled := (scale_leading hn).2
  have hone : Nat.log2 1 = 0 := rfl
  unfold unitExponent
  simp only [hone, Int.ofNat_zero, Int.sub_zero, pow2_eq]
  rw [if_neg (by omega)]
  omega

theorem le_roundQuotient (num den : Nat) : num / den ≤ roundQuotient num den := by
  unfold roundQuotient
  dsimp only
  split
  · exact Nat.le_refl _
  · split <;> omega

/-- A natural number other than zero is rounded to a double with a leading one, or to infinity. -/
theorem ofRatio_whole (negative : Bool) {n : Nat} (hn : n ≠ 0) :
    ∃ bits, 2 ^ 52 ≤ bits ∧ bits ≤ 2047 * 2 ^ 52 ∧
      ofRatio negative n 1 = withSign negative bits := by
  obtain ⟨hpos, hscaled⟩ := scale_leading hn
  rw [Nat.mul_comm] at hscaled
  have hmantissa := Nat.le_trans ((Nat.le_div_iff_mul_le hpos).mpr hscaled) (le_roundQuotient _ _)
  unfold ofRatio
  rw [if_neg (by simpa using hn), unitExponent_whole hn]
  simp only [pow2_eq]
  rw [if_neg (by omega)]
  refine ⟨_, ?_, Nat.min_le_right _ _, rfl⟩
  have hexponent : 1 ≤ ((n.log2 : Int) - 52 + 1075).toNat := by omega
  have hfield := Nat.mul_le_mul_right (2 ^ 52) hexponent
  omega

/-! ## Doubles of integers -/

/-- The double nearest to an integer compares with zero as the integer does. -/
theorem compare_ofInt_zero (i : Int) (z : Sign) :
    (ofInt i).toModel.unpack.compare (.zero z) = some (compare i 0) := by
  by_cases hi : i = 0
  · subst hi
    rfl
  · obtain ⟨bits, hlow, hhigh, hbits⟩ :=
      ofRatio_whole (decide (i < 0)) (Int.natAbs_ne_zero.mpr hi)
    rw [ofInt, hbits, compare_withSign_zero _ hlow hhigh]
    by_cases hneg : i < 0
    · rw [Int.compare_eq_lt.mpr hneg, if_pos (by simpa using hneg)]
    · rw [Int.compare_eq_gt.mpr (by omega), if_neg (by simpa using hneg)]

theorem ofInt_beq_zero (i : Int) : (ofInt i == 0.0) = decide (i = 0) := by
  change ((ofInt i).toModel.unpack.compare (.zero .positive) == some .eq) = _
  rw [compare_ofInt_zero, Bool.eq_iff_iff, beq_iff_eq, decide_eq_true_iff, Option.some.injEq,
    Int.compare_eq_eq]

theorem ofInt_lt_zero_iff (i : Int) : ofInt i < 0.0 ↔ i < 0 := by
  change decide (((ofInt i).toModel.unpack.compare (.zero .positive) == some .lt) = true) = true ↔
    i < 0
  rw [compare_ofInt_zero, decide_eq_true_iff, beq_iff_eq, Option.some.injEq, Int.compare_eq_lt]

end Parlance.Binary64
