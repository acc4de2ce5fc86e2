import ChainExplorer.Lib.Machine
import Mathlib.Algebra.GroupWithZero.Divisibility

/-!
# Signed numbers in wider words

A number of `w` bits in a word of `W`, read back by its low bits: those are masked out, and a number
whose sign bit is set is the complement in the mask, plus one.

* `mask_eq`, `and_mask`, `xor_mask`: the mask, the low bits, and their complement.
* `lt_signBit_iff`: the sign.
* **`magnitude`**: the complement and one is the size of a negative number, without a carry.
* **`setWidth_ofInt`**: the low bits of a sign-extended number are the number.
-/

namespace SignedWord

variable {W w : ℕ}

/-! ## The low bits -/

theorem mask_eq (hw : w ≤ W) :
    BitVec.allOnes W >>> (W - w) = (BitVec.allOnes w).setWidth W := by
  ext i hi
  simp
  omega

theorem and_mask (n : BitVec W) :
    n &&& (BitVec.allOnes w).setWidth W = (n.setWidth w).setWidth W := by
  ext i hi
  simp [BitVec.getLsbD_eq_getElem, hi]
  grind

theorem xor_mask (x : BitVec w) :
    x.setWidth W ^^^ (BitVec.allOnes w).setWidth W = (~~~x).setWidth W := by
  ext i hi
  simp
  grind

theorem setWidth_low (n : BitVec W) (w : ℕ) :
    ((n.setWidth w).setWidth W).setWidth w = n.setWidth w := by
  ext i hi
  simp [hi]
  grind

/-! ## The sign -/

theorem toNat_setWidth (hw : w ≤ W) (x : BitVec w) : (x.setWidth W).toNat = x.toNat := by
  rw [BitVec.toNat_setWidth,
    Nat.mod_eq_of_lt (x.isLt.trans_le (Nat.pow_le_pow_right Nat.zero_lt_two hw))]

theorem toNat_signBit (h0 : 0 < w) (hw : w ≤ W) : (1#W <<< (w - 1)).toNat = 2 ^ (w - 1) := by
  have hone : 1 < 2 ^ W := Nat.one_lt_two_pow (by omega)
  rw [BitVec.toNat_shiftLeft, BitVec.toNat_ofNat, Nat.mod_eq_of_lt hone, Nat.one_shiftLeft,
    Nat.mod_eq_of_lt (Nat.pow_lt_pow_right Nat.one_lt_two (by omega))]

theorem two_pow_pred (h0 : 0 < w) : 2 ^ w = 2 * 2 ^ (w - 1) := by
  rw [← Nat.pow_succ', Nat.succ_eq_add_one, Nat.sub_add_cancel h0]

/-- The low bits are below the sign bit when their number is not negative. -/
theorem lt_signBit_iff (h0 : 0 < w) (hw : w ≤ W) (x : BitVec w) :
    x.setWidth W < 1#W <<< (w - 1) ↔ 0 ≤ x.toInt := by
  have hpow := two_pow_pred h0
  have hx := x.isLt
  rw [BitVec.lt_def, toNat_setWidth hw, toNat_signBit h0 hw, BitVec.toInt_eq_toNat_cond]
  split <;> omega

theorem toNat_eq_toInt {x : BitVec w} (h : 0 ≤ x.toInt) : (x.toNat : ℤ) = x.toInt := by
  have hx := x.isLt
  rw [BitVec.toInt_eq_toNat_cond] at h ⊢
  split at h <;> split <;> omega

/-- **The complement and one** is the size of a negative number, without a carry. -/
theorem magnitude (h0 : 0 < w) (hw : w ≤ W) {x : BitVec w} (h : x.toInt < 0) :
    (((~~~x).setWidth W).toNat + 1 : ℤ) = -x.toInt ∧
      ((~~~x).setWidth W).toNat + 1 < 2 ^ W := by
  have hpow := two_pow_pred h0
  have hle : 2 ^ w ≤ 2 ^ W := Nat.pow_le_pow_right Nat.zero_lt_two hw
  have hx := x.isLt
  rw [toNat_setWidth hw, BitVec.toNat_not]
  rw [BitVec.toInt_eq_toNat_cond] at h ⊢
  split at h <;> split <;> omega

/-! ## Sign extension -/

/-- **The low bits of a sign-extended number** are the number. -/
theorem setWidth_ofInt (hw : w ≤ W) (v : ℤ) :
    (BitVec.ofInt W v).setWidth w = BitVec.ofInt w v := by
  have hdvd : ((2 ^ w : ℕ) : ℤ) ∣ ((2 ^ W : ℕ) : ℤ) := Int.natCast_dvd_natCast.mpr (pow_dvd_pow 2 hw)
  have hW : ((2 ^ W : ℕ) : ℤ) ≠ 0 := Int.natCast_ne_zero.mpr (Nat.two_pow_pos W).ne'
  apply BitVec.eq_of_toNat_eq
  rw [BitVec.toNat_setWidth, BitVec.toNat_ofInt, BitVec.toNat_ofInt, ← Int.emod_emod_of_dvd v hdvd,
    Int.toNat_emod (Int.emod_nonneg v hW) (Int.natCast_nonneg _), Int.toNat_natCast]

end SignedWord
