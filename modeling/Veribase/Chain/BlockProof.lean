import Veribase.Primitives.ArithUint256

/-!
# The work of a block, on limbs

`GetBlockProof` (`chain.cpp`) decodes a block's `nBits` with
`arith_uint256::SetCompact` and returns the expected number of hashes for the
target, `2^256 / (bnTarget + 1)`.  `2^256` does not fit the type, so the code
computes `~bnTarget / (bnTarget + 1) + 1` instead.  `Primitives.Compact` reads
both functions on `ℕ` (`setCompact`, `getBlockProof`), and the chain-work
sums of `AcceptBlock` use that reading.

This module runs both on the limbs of `Primitives.ArithUint256` and shows that
the limb code computes what the `ℕ` reading says (`setCompact_toNat`,
`getBlockProof_eq_ofNat`).  None of the operations wraps: the target is
below `2^256 - 1`, so `bnTarget + 1` does not overflow, and the final `+ 1`
stays below `2^256`.  The `ℕ` reading is the exact quotient
(`getBlockProof_eq_div`).
-/

namespace Veribase

namespace arith_uint256

/-- `arith_uint256::SetCompact(nCompact, &fNegative, &fOverflow)` on limbs:
`*this = nWord`, then `*this <<= 8 * (nSize - 3)` for a long size. -/
def setCompact (nCompact : UInt32) : arith_uint256 × Bool × Bool :=
  let nSize := nCompact.toNat >>> 24
  let nWord := nCompact &&& 0x007fffff
  let nWord := if nSize ≤ 3 then nWord >>> (8 * (3 - nSize)).toUInt32 else nWord
  let value :=
    if nSize ≤ 3 then ofUInt64 nWord.toUInt64
    else (ofUInt64 nWord.toUInt64).shiftLeft (8 * (nSize - 3))
  let fNegative := nWord != 0 && nCompact &&& 0x00800000 != 0
  let fOverflow := nWord != 0 && (nSize > 34 || (nWord > 0xff && nSize > 33) ||
    (nWord > 0xffff && nSize > 32))
  (value, fNegative, fOverflow)

/-- `GetBlockProof(block)` on limbs: `0` for an invalid target, otherwise
`(~bnTarget / (bnTarget + 1)) + 1`.  The division is the one of `operator/`,
which throws on a zero divisor. -/
def getBlockProof (nBits : UInt32) : Except String arith_uint256 :=
  let (bnTarget, fNegative, fOverflow) := setCompact nBits
  if fNegative || fOverflow || bnTarget == zero then .ok zero
  else do
    let q ← bnTarget.complement.div (bnTarget.add (ofUInt64 1))
    pure (q.add (ofUInt64 1))

theorem decide_gt_toNat (w c : UInt32) : decide (w > c) = decide (w.toNat > c.toNat) :=
  decide_eq_decide.mpr UInt32.lt_iff_toNat_lt

/-- The limb decoder gives the value and the flags of the `ℕ` reading. -/
theorem setCompact_toNat (nCompact : UInt32) :
    ((setCompact nCompact).1.toNat, (setCompact nCompact).2) = Veribase.setCompact nCompact := by
  have hword : (nCompact &&& 0x007fffff).toNat = nCompact.toNat &&& 0x007fffff := UInt32.toNat_and _ _
  unfold setCompact Veribase.setCompact
  dsimp only
  rw [UInt32.bne_zero_eq (nCompact &&& 0x00800000), UInt32.toNat_and]
  generalize nCompact &&& 0x007fffff = w at hword
  generalize nCompact.toNat >>> 24 = nSize
  -- the shifted word is read the same way in `UInt32` and in `ℕ`
  have hW : (if nSize ≤ 3 then w >>> (8 * (3 - nSize)).toUInt32 else w).toNat =
      if nSize ≤ 3 then (nCompact.toNat &&& 0x007fffff) >>> (8 * (3 - nSize))
      else nCompact.toNat &&& 0x007fffff := by
    split
    · rw [UInt32.toNat_shiftRight, toNat_toUInt32_of_lt (by omega), Nat.mod_eq_of_lt (by omega), hword]
    · exact hword
  rw [← hW]
  generalize (if nSize ≤ 3 then w >>> (8 * (3 - nSize)).toUInt32 else w) = W
  rw [UInt32.bne_zero_eq W, decide_gt_toNat, decide_gt_toNat]
  congr 1
  split
  · rw [toNat_ofUInt64, UInt32.toNat_toUInt64]
  · rw [toNat_shiftLeft, toNat_ofUInt64, UInt32.toNat_toUInt64, Nat.shiftLeft_eq]

/-- A target that decodes without overflow is below `2^256 - 1`: a short
size leaves at most 23 bits, and a long one a multiple of `256` below
`2^256`.  So `bnTarget + 1` does not wrap. -/
theorem setCompact_add_one_lt {nCompact : UInt32} (hover : (Veribase.setCompact nCompact).2.2 = false) :
    (Veribase.setCompact nCompact).1 + 1 < 2 ^ 256 := by
  unfold Veribase.setCompact at hover ⊢
  have hw : nCompact.toNat &&& 0x007fffff < 2 ^ 23 := Nat.and_lt_two_pow _ (by decide)
  generalize nCompact.toNat &&& 0x007fffff = nWord at hw hover ⊢
  generalize nCompact.toNat >>> 24 = nSize at hover ⊢
  simp only at hover ⊢
  by_cases hs : nSize ≤ 3
  · simp only [if_pos hs]
    rw [Nat.shiftRight_eq_div_pow]
    have := Nat.div_le_self nWord (2 ^ (8 * (3 - nSize)))
    omega
  · simp only [if_neg hs]
    by_cases h0 : nWord = 0
    · subst h0
      simp
    · have hnz : (nWord != 0) = true := bne_iff_ne.mpr h0
      rw [if_neg hs, hnz, Bool.true_and] at hover
      simp only [Bool.or_eq_false_iff, Bool.and_eq_false_iff, decide_eq_false_iff_not, gt_iff_lt,
        not_lt] at hover
      obtain ⟨⟨h34, h33⟩, h32⟩ := hover
      have hlt := shiftLeft_lt_of_not_overflow hw h34 (fun _ => by omega) (fun _ => by omega)
      -- a long size moves the word up whole bytes
      have h256 : nWord <<< (8 * (nSize - 3)) = 256 * (nWord * 2 ^ (8 * (nSize - 4))) := by
        rw [Nat.shiftLeft_eq, show 8 * (nSize - 3) = 8 + 8 * (nSize - 4) by omega, Nat.pow_add]
        ring
      have hpow : (2 : Nat) ^ 256 = 256 * 2 ^ 248 := by norm_num
      rw [Nat.mod_eq_of_lt hlt]
      omega

theorem beq_zero_eq (a : arith_uint256) : (a == zero) = (a.toNat == 0) := by
  by_cases h : a = zero
  · rw [h, toNat_zero]
    rfl
  · have hne : a.toNat ≠ 0 := fun h0 => h (ext_toNat (by rw [h0, toNat_zero]))
    rw [beq_eq_false_iff_ne.mpr h, beq_eq_false_iff_ne.mpr hne]

/-- The limb code computes the `ℕ` reading of `GetBlockProof`. -/
theorem getBlockProof_eq_ofNat (nBits : UInt32) :
    getBlockProof nBits = .ok (ofNat (Veribase.getBlockProof nBits)) := by
  have hset := setCompact_toNat nBits
  have hadd_lt := @setCompact_add_one_lt nBits
  unfold getBlockProof Veribase.getBlockProof
  rcases hB : setCompact nBits with ⟨B, fNegative, fOverflow⟩
  rw [hB] at hset
  rw [← hset] at hadd_lt ⊢
  dsimp only at hadd_lt ⊢
  rw [beq_zero_eq]
  by_cases hinv : (fNegative || fOverflow || B.toNat == 0) = true
  · -- an invalid target has no work
    rw [if_pos hinv, if_pos hinv]
    exact congrArg Except.ok (ext_toNat (by rw [toNat_zero, toNat_ofNat, Nat.zero_mod]))
  · have hover : fOverflow = false := by
      cases fOverflow
      · rfl
      · simp at hinv
    have ht := hadd_lt hover
    have hone : (ofUInt64 1).toNat = 1 := toNat_ofUInt64 1
    -- `bnTarget + 1` does not wrap, and the quotient plus one stays below `2^256`
    have hsucc : (B.add (ofUInt64 1)).toNat = B.toNat + 1 := by
      rw [toNat_add, hone, Nat.mod_eq_of_lt ht]
    have hq : (2 ^ 256 - 1 - B.toNat) / (B.toNat + 1) < 2 ^ 256 :=
      Nat.lt_of_le_of_lt (Nat.div_le_self _ _) (by omega)
    have hdiv : B.complement.div (B.add (ofUInt64 1)) =
        .ok (ofNat ((2 ^ 256 - 1 - B.toNat) / (B.toNat + 1))) := by
      rw [div_eq, hsucc, toNat_complement, if_neg (Nat.succ_ne_zero _)]
    rw [if_neg hinv, if_neg hinv, hdiv]
    refine congrArg Except.ok (ext_toNat ?_)
    rw [toNat_add, toNat_ofNat, hone, Nat.mod_eq_of_lt hq, toNat_ofNat]

end arith_uint256

/-- The `ℕ` reading of `GetBlockProof` is `2^256 / (t + 1)`: with
`t + 1 ≤ 2^256`, adding the divisor once to `2^256 - 1 - t` adds one to the
quotient. -/
theorem getBlockProof_eq_div (nBits : UInt32) :
    getBlockProof nBits =
      if (setCompact nBits).2.1 || (setCompact nBits).2.2 || (setCompact nBits).1 == 0 then 0
      else 2 ^ 256 / ((setCompact nBits).1 + 1) := by
  have hlt := @arith_uint256.setCompact_add_one_lt nBits
  unfold getBlockProof
  rcases hset : setCompact nBits with ⟨t, fNegative, fOverflow⟩
  rw [hset] at hlt
  dsimp only at hlt ⊢
  by_cases hinv : (fNegative || fOverflow || t == 0) = true
  · rw [if_pos hinv, if_pos hinv]
  · have hover : fOverflow = false := by
      cases fOverflow
      · rfl
      · simp at hinv
    have ht := hlt hover
    rw [if_neg hinv, if_neg hinv, ← Nat.add_div_right _ (Nat.succ_pos t)]
    congr 1
    omega

/-- **`GetBlockProof` is the expected work, exactly.**  For every `nBits`,
the limb code returns a value, and it is `2^256 / (t + 1)` for a target `t`
that decodes non-negative, without overflow and nonzero, and `0` otherwise;
the `ℕ` reading that the chain-work sums use is the same number. -/
theorem getBlockProof_expectedWork (nBits : UInt32) :
    ∃ r, arith_uint256.getBlockProof nBits = .ok r ∧
      r.toNat = (if (setCompact nBits).2.1 || (setCompact nBits).2.2 || (setCompact nBits).1 == 0 then 0
        else 2 ^ 256 / ((setCompact nBits).1 + 1)) ∧
      getBlockProof nBits = r.toNat := by
  have hwork := getBlockProof_eq_div nBits
  have hlt : getBlockProof nBits < 2 ^ 256 := by
    rw [hwork]
    split
    · exact Nat.two_pow_pos 256
    · next hvalid =>
      have ht : (setCompact nBits).1 ≠ 0 := fun h0 => hvalid (by simp [h0])
      exact Nat.div_lt_self (Nat.two_pow_pos 256) (by omega)
  refine ⟨arith_uint256.ofNat (getBlockProof nBits), arith_uint256.getBlockProof_eq_ofNat nBits, ?_, ?_⟩
  · rw [arith_uint256.toNat_ofNat, Nat.mod_eq_of_lt hlt, hwork]
  · rw [arith_uint256.toNat_ofNat, Nat.mod_eq_of_lt hlt]

end Veribase
