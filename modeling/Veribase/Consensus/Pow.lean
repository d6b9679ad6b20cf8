import Veribase.Pos.Weight

/-!
# Verium's work retarget

`GetNextWorkRequired(pindexLast, params)` (`pow.cpp`) gives the first three
blocks the limit and retargets every later one from the last spacing: the
target of the parent is multiplied by `(nInterval - 1) * nTargetSpacing + 2 *
nActualSpacing` and divided by `(nInterval + 1) * nTargetSpacing`, where the
target spacing comes from the parent's difficulty (`CalculateBlocktime`) and
the actual spacing is the time from the grandparent to the parent.  Only a
target above the limit is clamped.

The header checks let a block be up to `MAX_FUTURE_BLOCK_TIME` earlier than
its parent, two hours on Verium, and the timespan of the first 2394 blocks is
two hours as well.  A parent that much earlier than the grandparent makes the
multiplier negative whatever the difficulty, so the new target is negative or
zero and `CheckProofOfWork` rejects every block that follows
(`getNextWorkRequired_stalls`).  Such a chain passes every header time check
and carries the targets the retarget gave it (`getNextWorkRequired_stall_chain`).

`nPowTargetTimespan` is an argument: `Params` carries the Vericoin fields only.
-/

namespace Veribase

/-- `GetNextWorkRequired(pindexLast, params)`.  Above height two it follows
`pprev` twice without a check; `none` stands for an entry the map does not
hold.  `targetTimespan / nTargetSpacing` divides by zero only for a
difficulty whose logarithm is not a number, where `Int.tdiv` gives zero. -/
def getNextWorkRequired (m : BlockMap) (params : Params) (nPowTargetTimespan : Int)
    (pindexLast : CBlockIndex) : Option UInt32 :=
  if pindexLast.nHeight ≤ 2 then some (getCompact params.powLimit.uintToArith256)
  else do
    let pindexPrev ← m.prev pindexLast
    let pindexPrevPrev ← m.prev pindexPrev
    let nTargetSpacing : Int := (calculateBlocktime pindexPrev).toNat
    let nActualSpacing := pindexPrev.getBlockTime - pindexPrevPrev.getBlockTime
    -- two hours while the difficulty first settles, then the parameter
    let targetTimespan : Int := if pindexLast.nHeight + 1 ≤ 2394 then 2 * 60 * 60 else nPowTargetTimespan
    let nInterval := targetTimespan.tdiv nTargetSpacing
    let bnNew := bigNumSetCompact pindexPrev.nBits *
      ((nInterval - 1) * nTargetSpacing + nActualSpacing + nActualSpacing)
    let bnNew := bnNew.tdiv ((nInterval + 1) * nTargetSpacing)
    let bnNew :=
      if bnNew > params.powLimit.uintToArith256 then (params.powLimit.uintToArith256 : Int) else bnNew
    pure (bigNumGetCompact bnNew)

/-! ## A target that is not positive -/

/-- Setting bit 23 changes neither the size byte ... -/
theorem or_signBit_size (x : Nat) : (x ||| 2 ^ 23) >>> 24 = x >>> 24 := by
  apply Nat.eq_of_testBit_eq
  intro i
  rw [Nat.testBit_shiftRight, Nat.testBit_shiftRight, Nat.testBit_or, Nat.testBit_two_pow,
    decide_eq_false (by omega), Bool.or_false]

/-- ... nor the mantissa ... -/
theorem or_signBit_word (x : Nat) : (x ||| 2 ^ 23) &&& 0x007fffff = x &&& 0x007fffff := by
  show (x ||| 2 ^ 23) &&& (2 ^ 23 - 1) = x &&& (2 ^ 23 - 1)
  apply Nat.eq_of_testBit_eq
  intro i
  rw [Nat.testBit_and, Nat.testBit_and, Nat.testBit_or, Nat.testBit_two_pow, Nat.testBit_two_pow_sub_one]
  by_cases hi : i < 23
  · rw [decide_eq_false (by omega), Bool.or_false]
  · rw [decide_eq_false hi, Bool.and_false, Bool.and_false]

/-- ... and the sign test then sees it. -/
theorem or_signBit_sign (x : Nat) : (x ||| 2 ^ 23) &&& 0x00800000 ≠ 0 := by
  show (x ||| 2 ^ 23) &&& 2 ^ 23 ≠ 0
  rw [Nat.and_two_pow, Nat.testBit_or, Nat.testBit_two_pow_self, Bool.or_true]
  simp

/-- The sign bit of a compact is a flag of its own: with it set, a compact
whose unsigned value is not zero decodes as negative. -/
theorem setCompact_or_sign {c : UInt32} (hc : (setCompact c).1 ≠ 0) :
    (setCompact (c ||| 0x00800000)).2.1 = true := by
  have hor : (c ||| 0x00800000).toNat = c.toNat ||| 2 ^ 23 := by simp [UInt32.toNat_or]
  unfold setCompact at hc ⊢
  rw [hor, or_signBit_size, or_signBit_word]
  dsimp only at hc ⊢
  generalize c.toNat >>> 24 = nSize at hc ⊢
  generalize (if nSize ≤ 3 then (c.toNat &&& 0x007fffff) >>> (8 * (3 - nSize))
    else c.toNat &&& 0x007fffff) = nWord at hc ⊢
  -- a value that is not zero comes from a mantissa that is not zero
  have hword : nWord ≠ 0 := by
    rintro rfl
    apply hc
    split <;> simp
  simpa [hword] using or_signBit_sign c.toNat

/-- `CBigNum::GetCompact` of a negative value below `2^256` in magnitude
decodes as negative. -/
theorem setCompact_bigNumGetCompact_of_neg {y : Int} (hy : y < 0) (hlt : y.natAbs < 2 ^ 256) :
    (setCompact (bigNumGetCompact y)).2.1 = true := by
  rw [bigNumGetCompact_eq, if_pos hy]
  obtain ⟨t, ht, ht0, -⟩ := setCompact_getCompact (x := y.natAbs) (by omega) hlt
  exact setCompact_or_sign (by rw [ht]; omega)

/-- **`CheckProofOfWork` rejects a target that is not positive**, whatever
the hash and the limit: a negative one by its sign, zero as zero. -/
theorem checkProofOfWork_bigNumGetCompact_of_nonpos {y : Int} (hy : y ≤ 0) (hlt : y.natAbs < 2 ^ 256)
    (hash powLimit : uint256) : checkProofOfWork hash (bigNumGetCompact y) powLimit = false := by
  unfold checkProofOfWork
  rcases Int.lt_or_eq_of_le hy with hneg | hzero
  · -- a negative target is refused by its sign
    have hsign := setCompact_bigNumGetCompact_of_neg hneg hlt
    generalize setCompact (bigNumGetCompact y) = r at hsign ⊢
    obtain ⟨t, fNegative, fOverflow⟩ := r
    dsimp only at hsign ⊢
    rw [hsign]
    simp
  · subst hzero
    rfl

/-! ## The retarget -/

/-- **A spacing of minus half the timespan or less gives a retarget that is
not positive.**  For a target `P`, a timespan `T`, any target spacing `s`,
and an actual spacing `a` with `-T ≤ a` and `2 * a + T ≤ 0`, the quotient of
`GetNextWorkRequired` is at most zero, and at most three times the target in
magnitude.  With `s` zero the division by zero gives zero. -/
theorem retarget_nonpos (P s : Nat) {T a : Int} (hT : 0 ≤ T) (hneg : 2 * a + T ≤ 0) (hlow : -T ≤ a) :
    ((P : Int) * ((T.tdiv s - 1) * s + a + a)).tdiv ((T.tdiv s + 1) * s) ≤ 0 ∧
      (((P : Int) * ((T.tdiv s - 1) * s + a + a)).tdiv ((T.tdiv s + 1) * s)).natAbs ≤ 3 * P := by
  obtain ⟨T, rfl⟩ := Int.eq_ofNat_of_zero_le hT
  rcases Nat.eq_zero_or_pos s with hs | hs
  · subst hs
    simp
  · rw [← Int.ofNat_tdiv]
    -- `T / s` intervals fit the timespan, one more overshoots it
    have hfloor : T / s * s ≤ T := Nat.div_mul_le_self T s
    have hceil : T < T / s * s + s := Nat.lt_div_mul_add hs
    have hmul : (((T / s : Nat) : Int) - 1) * s + a + a = ((T / s * s : Nat) : Int) - s + 2 * a := by
      push_cast
      ring
    have hdiv : (((T / s : Nat) : Int) + 1) * s = ((T / s * s + s : Nat) : Int) := by
      push_cast
      ring
    rw [hmul, hdiv]
    generalize T / s * s = ns at hfloor hceil
    -- the multiplier is `-k` for a `k` of at most `s + 2 * T`, less than three divisors
    obtain ⟨k, hk, hkle⟩ : ∃ k : Nat, (ns : Int) - s + 2 * a = -k ∧ k ≤ s + 2 * T :=
      ⟨((s : Int) - ns - 2 * a).toNat, by omega, by omega⟩
    rw [hk, Int.mul_neg, Int.neg_tdiv, ← Int.natCast_mul, ← Int.ofNat_tdiv]
    refine ⟨Int.neg_nonpos_of_nonneg (Int.natCast_nonneg _), ?_⟩
    rw [Int.natAbs_neg, Int.natAbs_natCast]
    apply Nat.div_le_of_le_mul
    calc P * k ≤ P * (3 * (ns + s)) := Nat.mul_le_mul_left P (by omega)
      _ = (ns + s) * (3 * P) := by ring

/-- **The retarget stalls the chain.**  In the first 2394 blocks, once the
parent is earlier than the grandparent by half the timespan or more, and by
no more than `MAX_FUTURE_BLOCK_TIME` as the header checks allow, the target
`GetNextWorkRequired` gives is not positive, whatever the difficulty makes of
the target spacing, and `CheckProofOfWork` rejects every block with it. -/
theorem getNextWorkRequired_stalls (m : BlockMap) (params : Params) (nPowTargetTimespan : Int)
    {pindexLast pindexPrev pindexPrevPrev : CBlockIndex}
    (hheight : 2 < pindexLast.nHeight) (hearly : pindexLast.nHeight + 1 ≤ 2394)
    (hprev : m.prev pindexLast = some pindexPrev) (hprevPrev : m.prev pindexPrev = some pindexPrevPrev)
    (hback : 2 * (pindexPrev.getBlockTime - pindexPrevPrev.getBlockTime) + 2 * 60 * 60 ≤ 0)
    (htime : pindexPrevPrev.getBlockTime ≤ pindexPrev.getBlockTime + MAX_FUTURE_BLOCK_TIME false)
    (htarget : 0 ≤ bigNumSetCompact pindexPrev.nBits)
    (hbound : 3 * (bigNumSetCompact pindexPrev.nBits).natAbs < 2 ^ 256) :
    ∃ nBits, getNextWorkRequired m params nPowTargetTimespan pindexLast = some nBits ∧
      ∀ hash, checkProofOfWork hash nBits params.powLimit = false := by
  obtain ⟨P, hP⟩ : ∃ P : Nat, bigNumSetCompact pindexPrev.nBits = P :=
    ⟨_, (Int.toNat_of_nonneg htarget).symm⟩
  have hmax : MAX_FUTURE_BLOCK_TIME false = 2 * 60 * 60 := rfl
  obtain ⟨hq0, hqabs⟩ := retarget_nonpos P (calculateBlocktime pindexPrev).toNat (T := 2 * 60 * 60)
    (a := pindexPrev.getBlockTime - pindexPrevPrev.getBlockTime) (by decide) hback (by omega)
  unfold getNextWorkRequired
  rw [if_neg (by omega)]
  simp only [hprev, hprevPrev, Option.bind_eq_bind, Option.bind_some, if_pos hearly, hP]
  refine ⟨_, rfl, fun hash => ?_⟩
  -- the limit clamps from above only, and the quotient is not positive
  rw [if_neg (by omega)]
  exact checkProofOfWork_bigNumGetCompact_of_nonpos hq0 (by omega) hash params.powLimit

/-! ## A chain that stalls -/

/-- The Verium main-network `powLimit`, `uint256S("001fff...ff")`. -/
def veriumPowLimit : uint256 := uint256.arithToUint256 (2 ^ 245 - 1)

/-- Parameters with Verium's limit, the one field the retarget reads. -/
def veriumLimitParams : Params := vericoinParams uint256.zero veriumPowLimit uint256.zero []

/-- Verium's `nPowTargetTimespan`, two days. -/
def veriumPowTargetTimespan : Int := 2 * 24 * 60 * 60

/-- Block times: two blocks a second apart, one two hours ahead of them, and
one as far back from it as a Verium header may go. -/
def stallTimes : List UInt32 := [1000, 1001, 8200, 1002]

/-- The chain of those times, each with the target of the limit, which is what
the retarget gives at heights up to two. -/
def stallEntries : List CBlockIndex :=
  stallTimes.mapIdx fun k t => { timedEntry k t with nBits := 0x1f1fffff }

/-- Its index: the entry of the height a key encodes. -/
def stallMap : BlockMap := fun h =>
  if h.uintToArith256 = 0 then none else stallEntries[h.uintToArith256 - 1]?

/-- The block after them, a second after its parent, with the target
`nBits`. -/
def stallTip (nBits : UInt32) : CBlockIndex := { timedEntry 4 1003 with nBits := nBits }

/-- **A chain the retarget stalls.**  Every entry is stored under its own key;
every header passes the time checks of `ContextualCheckBlockHeader` on Verium
against its parent and carries the target `GetNextWorkRequired` gave that
parent; the tip does too, with the target the retarget gives after the last
entry; and after the tip the retarget gives a target that `CheckProofOfWork`
rejects for every hash. -/
theorem getNextWorkRequired_stall_chain :
    (∀ e ∈ stallEntries, e.phashBlock.bind stallMap = some e) ∧
    (∀ e ∈ stallEntries, ∀ p ∈ stallMap.prev e,
      ¬(e.getBlockTime ≤ stallMap.getMedianTimePast p ∨
        e.getBlockTime + MAX_FUTURE_BLOCK_TIME false < p.getBlockTime) ∧
      getNextWorkRequired stallMap veriumLimitParams veriumPowTargetTimespan p = some e.nBits) ∧
    ∃ nBits, (∀ p ∈ stallMap.prev (stallTip nBits),
        ¬((stallTip nBits).getBlockTime ≤ stallMap.getMedianTimePast p ∨
          (stallTip nBits).getBlockTime + MAX_FUTURE_BLOCK_TIME false < p.getBlockTime) ∧
        getNextWorkRequired stallMap veriumLimitParams veriumPowTargetTimespan p = some nBits) ∧
      ∃ nNext, getNextWorkRequired stallMap veriumLimitParams veriumPowTargetTimespan (stallTip nBits) =
          some nNext ∧
        ∀ hash, checkProofOfWork hash nNext veriumLimitParams.powLimit = false := by
  have hprev₃ : stallMap.prev { timedEntry 3 1002 with nBits := 0x1f1fffff } =
      some { timedEntry 2 8200 with nBits := 0x1f1fffff } := by decide +kernel
  have hprev₂ : stallMap.prev { timedEntry 2 8200 with nBits := 0x1f1fffff } =
      some { timedEntry 1 1001 with nBits := 0x1f1fffff } := by decide +kernel
  -- the target the retarget gives after the last entry, whatever it is
  obtain ⟨nBits, hnBits⟩ : ∃ nBits, getNextWorkRequired stallMap veriumLimitParams veriumPowTargetTimespan
      { timedEntry 3 1002 with nBits := 0x1f1fffff } = some nBits := by
    unfold getNextWorkRequired
    rw [if_neg (by decide)]
    simp only [hprev₃, hprev₂, Option.bind_eq_bind, Option.bind_some]
    exact ⟨_, rfl⟩
  have hprev₄ : stallMap.prev (stallTip nBits) = some { timedEntry 3 1002 with nBits := 0x1f1fffff } := rfl
  have htime₄ : ¬((stallTip 0).getBlockTime ≤ stallMap.getMedianTimePast { timedEntry 3 1002 with nBits := 0x1f1fffff } ∨
      (stallTip 0).getBlockTime + MAX_FUTURE_BLOCK_TIME false < (1002 : Int)) := by decide +kernel
  refine ⟨by decide +kernel, by decide +kernel, nBits, ?_, ?_⟩
  · rw [hprev₄]
    rintro p ⟨⟩
    exact ⟨htime₄, hnBits⟩
  · -- the tip is at height four, and its parent a second after the block two hours behind it
    exact getNextWorkRequired_stalls stallMap veriumLimitParams veriumPowTargetTimespan
      (show (2 : Int) < 4 by decide) (show (4 : Int) + 1 ≤ 2394 by decide) hprev₄ hprev₃ (by decide) (by decide) (by decide +kernel) (by decide +kernel)

end Veribase
