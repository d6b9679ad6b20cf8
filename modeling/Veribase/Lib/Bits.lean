import Mathlib.Data.Nat.Bitwise
import Mathlib.Tactic.NormNum
import Mathlib.Tactic.Positivity

/-!
# Bit fields of a 32-bit word

Code that packs small fields into one word writes `(acc << k) ^ v` with
`v < 2^k`: the new field lands in bits the shift has cleared, so the XOR is
an addition (`xor_shiftLeft_eq_add`, `toNat_shiftLeft_xor`), and a word that
fits `n` bits still fits after an XOR with another that does
(`toNat_xor_lt`).  A mask and a shift distribute over XOR (`and_xor`,
`UInt32.shiftLeft_xor` in the core library), which is what makes such code
linear over GF(2).
-/

namespace Bits

/-- An XOR into bits a shift has cleared is an addition. -/
theorem xor_shiftLeft_eq_add {a b k : Nat} (hb : b < 2 ^ k) : a <<< k ^^^ b = a * 2 ^ k + b := by
  rw [← Nat.shiftLeft_eq, Nat.shiftLeft_add_eq_or_of_lt hb]
  apply Nat.eq_of_testBit_eq
  intro i
  rw [Nat.testBit_xor, Nat.testBit_or, Nat.testBit_shiftLeft]
  by_cases hi : k ≤ i
  · -- above the field only the shifted word has bits
    have hbi : b.testBit i = false :=
      Nat.testBit_lt_two_pow (lt_of_lt_of_le hb (Nat.pow_le_pow_right (by norm_num) hi))
    simp [hbi]
  · simp [hi]

theorem and_xor (a b m : UInt32) : (a ^^^ b) &&& m = (a &&& m) ^^^ (b &&& m) := by
  apply UInt32.toNat_inj.mp
  simp only [UInt32.toNat_and, UInt32.toNat_xor, Nat.and_xor_distrib_right]

theorem toNat_xor_lt {a b : UInt32} {n : Nat} (ha : a.toNat < 2 ^ n) (hb : b.toNat < 2 ^ n) :
    (a ^^^ b).toNat < 2 ^ n := by
  rw [UInt32.toNat_xor]
  exact Nat.xor_lt_two_pow ha hb

/-- A shift that does not overflow multiplies. -/
theorem toNat_shiftLeft {a : UInt32} {k : Nat} (hk : k < 32) (ha : a.toNat < 2 ^ (32 - k)) :
    (a <<< k.toUInt32).toNat = a.toNat * 2 ^ k := by
  rw [UInt32.toNat_shiftLeft]
  have hkk : (k.toUInt32).toNat % 32 = k := by simp; omega
  rw [hkk, Nat.shiftLeft_eq]
  apply Nat.mod_eq_of_lt
  calc a.toNat * 2 ^ k < 2 ^ (32 - k) * 2 ^ k := Nat.mul_lt_mul_of_pos_right ha (by positivity)
    _ = 2 ^ 32 := by rw [← pow_add, Nat.sub_add_cancel hk.le]

/-- Packing a field of `k` bits under a word of at most `32 - k` bits. -/
theorem toNat_shiftLeft_xor {a b : UInt32} {k : Nat} (hk : k < 32) (ha : a.toNat < 2 ^ (32 - k))
    (hb : b.toNat < 2 ^ k) : (a <<< k.toUInt32 ^^^ b).toNat = a.toNat * 2 ^ k + b.toNat := by
  rw [UInt32.toNat_xor, toNat_shiftLeft hk ha, ← xor_shiftLeft_eq_add hb, Nat.shiftLeft_eq]

/-- A word of `n` bits has nothing from bit `n` on. -/
theorem shiftRight_eq_zero {w : UInt32} {n : Nat} (hn : n < 32) (hw : w.toNat < 2 ^ n) :
    w >>> n.toUInt32 = 0 := by
  apply UInt32.toNat_inj.mp
  have hnn : (n.toUInt32).toNat % 32 = n := by simp; omega
  rw [UInt32.toNat_shiftRight, hnn, Nat.shiftRight_eq_div_pow, UInt32.toNat_zero]
  exact Nat.div_eq_of_lt hw

/-- A mask of the low `n` bits keeps a word of `n` bits. -/
theorem and_low_mask {w : UInt32} {n : Nat} (hn : n < 32) (hw : w.toNat < 2 ^ n) :
    w &&& UInt32.ofNat (2 ^ n - 1) = w := by
  apply UInt32.toNat_inj.mp
  have hmask : (UInt32.ofNat (2 ^ n - 1)).toNat = 2 ^ n - 1 := by
    rw [UInt32.toNat_ofNat', Nat.mod_eq_of_lt]
    calc 2 ^ n - 1 < 2 ^ n := Nat.sub_lt (by positivity) one_pos
      _ ≤ 2 ^ 32 := Nat.pow_le_pow_right (by norm_num) hn.le
  rw [UInt32.toNat_and, hmask, Nat.and_two_pow_sub_one_eq_mod, Nat.mod_eq_of_lt hw]

end Bits
