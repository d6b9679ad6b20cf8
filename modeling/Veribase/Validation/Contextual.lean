import Veribase.Pos.Kernel

/-!
# Contextual checks

The checks that need the block's place in the chain (`validation.cpp`).
`ContextualCheckBlockHeader` decides from the *height* whether the block is
proof-of-stake: it requires `nBits` to be the next stake target at a stake
height and the next work target otherwise, and it has a guard
`out-of-pow-height` for a work block above `PoSHeight`.  The height schedule
makes every height above `PoSHeight` a stake height, so that guard never
fires (`contextualCheckBlockHeader_not_out_of_pow_height`).
`ContextualCheckBlock` checks finality, the height in the coinbase, the
absence of witness data and the weight.

`VericoinContextualBlockChecks` runs the stake kernel of a block whose
*content* is proof-of-stake, computes the next stake modifier, checks the
modifier checksum against the hard checkpoints and, unless `fJustCheck`,
writes the stake fields into the block's index entry.  The flags are only
ever OR-ed in (`vericoinContextualBlockChecks_nFlags`), so whatever the entry
held before stays.
-/

namespace Veribase

open StrictSort Checks

/-! ## Targets -/

/-- `GetNextTargetRequired(pindexLast, fProofOfStake, params)` (`pos.cpp`):
the previous target of the wanted kind, moved towards the target spacing by
the last spacing, and capped at the limit.  The limit is chosen by the kind
the entry `pindexLast` is flagged with.  `CBigNum`'s `operator/` throws
`bignum_error` when `BN_div` fails, which it does on a zero divisor. -/
def getNextTargetRequired (m : BlockMap) (params : Params) (pindexLast : CBlockIndex)
    (fProofOfStake : Bool) : Faulty UInt32 :=
  let bnTargetLimit :=
    (if pindexLast.isProofOfWork then params.powLimit else params.posLimit).uintToArith256
  let pindexPrev := m.getLastBlockIndex fProofOfStake (pindexLast.nHeight.toNat + 1) pindexLast
  match m.prev pindexPrev with
  | none => pure (getCompact bnTargetLimit)
  | some prevPrev =>
      let pindexPrevPrev := m.getLastBlockIndex fProofOfStake (prevPrev.nHeight.toNat + 1) prevPrev
      match m.prev pindexPrevPrev with
      | none => pure (getCompact bnTargetLimit)
      | some _ =>
          let nActualSpacing := pindexPrev.getBlockTime - pindexPrevPrev.getBlockTime
          let nActualSpacing :=
            if pindexLast.nHeight ≥ params.NextTargetV2Height && nActualSpacing < 0 then
              params.nStakeTargetSpacing
            else nActualSpacing
          let nInterval := params.nTargetTimespan.tdiv params.nStakeTargetSpacing
          let bnNew := bigNumSetCompact pindexPrev.nBits *
            ((nInterval - 1) * params.nStakeTargetSpacing + nActualSpacing + nActualSpacing)
          if (nInterval + 1) * params.nStakeTargetSpacing = 0 then
            throw (.exception "CBigNum::operator/ : BN_div failed")
          else
            let bnNew := bnNew.tdiv ((nInterval + 1) * params.nStakeTargetSpacing)
            let bnNew :=
              if pindexLast.nHeight < params.NextTargetV2Height then
                if bnNew > bnTargetLimit then (bnTargetLimit : Int) else bnNew
              else if bnNew ≤ 0 || bnNew > bnTargetLimit then (bnTargetLimit : Int) else bnNew
            pure (bigNumGetCompact bnNew)

/-- The retarget throws only on a zero divisor. -/
theorem getNextTargetRequired_ok (m : BlockMap) (params : Params) (pindexLast : CBlockIndex)
    (fProofOfStake : Bool)
    (hdiv : (params.nTargetTimespan.tdiv params.nStakeTargetSpacing + 1) *
      params.nStakeTargetSpacing ≠ 0) :
    ∃ nBits, getNextTargetRequired m params pindexLast fProofOfStake = .ok nBits := by
  unfold getNextTargetRequired
  dsimp only
  split
  · exact ⟨_, rfl⟩
  · split
    · exact ⟨_, rfl⟩
    · rw [if_neg hdiv]
      exact ⟨_, rfl⟩

/-- A target clamped into `(0, limit]` is encoded into a compact that
decodes, unflagged, into `(0, limit]` again. -/
theorem setCompact_bigNumGetCompact_of_le {y : Int} {limit : Nat} (hpos : 0 < y)
    (hle : y ≤ limit) (hlimit : limit < 2 ^ 256) :
    ∃ t, setCompact (bigNumGetCompact y) = (t, false, false) ∧ 0 < t ∧ t ≤ limit := by
  rw [bigNumGetCompact_eq, if_neg (by omega), UInt32.or_zero]
  obtain ⟨t, ht, ht0, htx⟩ := setCompact_getCompact (x := y.natAbs) (by omega) (by omega)
  exact ⟨t, ht, ht0, by omega⟩

/-- The clamp of `NextTargetV2`: a target outside `(0, limit]` becomes the
limit. -/
theorem clampTarget_mem {y : Int} {L : Nat} (hL : 0 < L) :
    0 < (if y ≤ 0 || y > L then (L : Int) else y) ∧ (if y ≤ 0 || y > L then (L : Int) else y) ≤ L := by
  by_cases h : y ≤ 0 ∨ y > L
  · rw [if_pos (by simpa using h)]
    omega
  · rw [if_neg (by simpa using h)]
    omega

/-- **From `NextTargetV2Height` on, the stake retarget yields a valid
target.**  Whatever the previous `nBits`, negative or overflowing, and
whatever the block times, the compact `GetNextTargetRequired` returns
decodes with neither flag to a target in `(0, limit]`, for a non-zero limit:
the early returns encode the limit itself, and the retarget is clamped into
`(0, limit]` before it is encoded. -/
theorem getNextTargetRequired_valid (m : BlockMap) (params : Params) (pindexLast : CBlockIndex)
    (fProofOfStake : Bool) (hV2 : params.NextTargetV2Height ≤ pindexLast.nHeight)
    (hlimit : 0 < (if pindexLast.isProofOfWork then params.powLimit else params.posLimit).uintToArith256)
    (hspacing : 0 < params.nStakeTargetSpacing)
    (hinterval : params.nTargetTimespan.tdiv params.nStakeTargetSpacing ≠ -1) :
    ∃ nBits, getNextTargetRequired m params pindexLast fProofOfStake = .ok nBits ∧
      ∃ t, setCompact nBits = (t, false, false) ∧ 0 < t ∧
        t ≤ (if pindexLast.isProofOfWork then params.powLimit else params.posLimit).uintToArith256 := by
  have hlt := uint256.uintToArith256_lt
    (if pindexLast.isProofOfWork then params.powLimit else params.posLimit)
  -- neither factor of the divisor is zero
  have hdiv : (params.nTargetTimespan.tdiv params.nStakeTargetSpacing + 1) *
      params.nStakeTargetSpacing ≠ 0 := mul_ne_zero (by omega) (by omega)
  unfold getNextTargetRequired
  dsimp only
  generalize (if pindexLast.isProofOfWork then params.powLimit else params.posLimit).uintToArith256 = L
    at hlimit hlt ⊢
  -- the genesis, first and second blocks get the limit
  split
  · exact ⟨_, rfl, setCompact_getCompact hlimit hlt⟩
  · split
    · exact ⟨_, rfl, setCompact_getCompact hlimit hlt⟩
    · rw [if_neg hdiv, if_neg (by omega)]
      exact ⟨_, rfl, setCompact_bigNumGetCompact_of_le (clampTarget_mem hlimit).1
        (clampTarget_mem hlimit).2 hlt⟩

/-- A block at `NextTargetV2Height` with no predecessor in the map. -/
def retargetTip : CBlockIndex := { CBlockIndex.ofHeader CBlockHeader.null with nHeight := 38424 }

/-- The main-network parameters with the smallest non-zero limits. -/
def oneLimitParams : Params :=
  vericoinParams (uint256.arithToUint256 1) (uint256.arithToUint256 1) uint256.zero []

theorem getNextTargetRequired_valid_first :
    oneLimitParams.NextTargetV2Height ≤ retargetTip.nHeight ∧
      0 < (if retargetTip.isProofOfWork then oneLimitParams.powLimit
        else oneLimitParams.posLimit).uintToArith256 ∧
      0 < oneLimitParams.nStakeTargetSpacing ∧
      oneLimitParams.nTargetTimespan.tdiv oneLimitParams.nStakeTargetSpacing ≠ -1 ∧
      ∃ nBits, getNextTargetRequired (fun _ => none) oneLimitParams retargetTip true = .ok nBits ∧
        ∃ t, setCompact nBits = (t, false, false) ∧
          0 < t ∧ t ≤ (if retargetTip.isProofOfWork then oneLimitParams.powLimit
            else oneLimitParams.posLimit).uintToArith256 :=
  ⟨by decide, by decide, by decide, by decide,
    getNextTargetRequired_valid _ _ _ true (by decide) (by decide) (by decide) (by decide)⟩

/-- Three work blocks, `0 ← 1 ← 2`. -/
def threeWorkMap : BlockMap :=
  BlockMap.ofList [smallEntry 0 none 0 0, smallEntry 1 (some 0) 1 0, smallEntry 2 (some 1) 2 0]

/-- The parameters of `oneLimitParams` with a target timespan of minus the
target spacing, so that `nInterval = -1`. -/
def negIntervalParams : Params := { oneLimitParams with nTargetTimespan := -60 }

/-- The two cases the contract leaves out.  With zero limits the retarget has
nothing to give: a block with no predecessor gets the compact of zero, which
decodes to the target zero.  And where `nTargetTimespan / nStakeTargetSpacing`
is `-1` the divisor `(nInterval + 1) * nStakeTargetSpacing` is zero: on the
third of three work blocks the retarget divides by it, and `CBigNum`'s
`operator/` throws instead of returning a target. -/
theorem getNextTargetRequired_zero_limit :
    (getNextTargetRequired (fun _ => none) (vericoinParams uint256.zero uint256.zero uint256.zero [])
        retargetTip true = .ok 0 ∧ setCompact 0 = (0, false, false)) ∧
    (0 < negIntervalParams.nStakeTargetSpacing ∧
      getNextTargetRequired threeWorkMap negIntervalParams (smallEntry 2 (some 1) 2 0) false =
        .error (.exception "CBigNum::operator/ : BN_div failed")) := by
  decide

/-- What header validation uses from outside this model: Verium's
`GetNextWorkRequired`, the checkpoints of the chain parameters, and
`fCheckpointsEnabled`. -/
structure HeaderEnv where
  /-- `GetNextWorkRequired(pindexLast, params)` of `pow.cpp`. -/
  getNextWorkRequired : BlockMap → CBlockIndex → UInt32
  /-- `Checkpoints().mapCheckpoints`, by increasing height. -/
  checkpoints : List (Int × uint256)
  fCheckpointsEnabled : Bool

/-- `GetNextTargetOrWorkRequired(pindexLast, fProofOfStake, params)`. -/
def getNextTargetOrWorkRequired (henv : HeaderEnv) (m : BlockMap) (pindexLast : CBlockIndex)
    (fProofOfStake : Bool) (params : Params) : Faulty UInt32 :=
  if params.fIsVericoin then getNextTargetRequired m params pindexLast fProofOfStake
  else pure (henv.getNextWorkRequired m pindexLast)

/-- `GetLastCheckpoint(data)`: the highest checkpoint whose block is in the
index. -/
def getLastCheckpoint (m : BlockMap) (checkpoints : List (Int × uint256)) : Option CBlockIndex :=
  checkpoints.reverse.findSome? fun c => m c.2

/-! ## The header -/

/-- Validation that may reject, with a reason, or fault. -/
abbrev ValidationM := ExceptT BlockError Faulty

/-- A possible fault inside a validation. -/
def ValidationM.fault {α : Type} (x : Faulty α) : ValidationM α := ExceptT.lift x

/-- `ContextualCheckBlockHeader(block, state, params, pindexPrev,
nAdjustedTime)`; `IsVericoin` selects `MAX_FUTURE_BLOCK_TIME`. -/
def contextualCheckBlockHeader (henv : HeaderEnv) (IsVericoin : Bool) (params : Params)
    (m : BlockMap) (block : CBlockHeader) (pindexPrev : Option CBlockIndex) (nAdjustedTime : Int) :
    ValidationM Unit := do
  let prev ← ValidationM.fault (do Fault.check pindexPrev.isSome; Fault.deref pindexPrev)
  let nHeight := prev.nHeight + 1
  let isPoS := isProofOfStake params (prev.nHeight + 1)
  rejectIfT (params.fIsVericoin && !isPoS && nHeight > params.PoSHeight)
    (.failed "out-of-pow-height")
  let nBitsRequired ← ValidationM.fault (getNextTargetOrWorkRequired henv m prev isPoS params)
  rejectIfT (block.nBits != nBitsRequired) (.invalid .BLOCK_INVALID_HEADER "bad-diffbits")
  rejectIfT (henv.fCheckpointsEnabled &&
      (getLastCheckpoint m henv.checkpoints).any (nHeight < ·.nHeight))
    (.invalid .BLOCK_CHECKPOINT "bad-fork-prior-to-checkpoint")
  rejectIfT (block.getBlockTime ≤ m.getMedianTimePast prev ||
      block.getBlockTime + MAX_FUTURE_BLOCK_TIME IsVericoin < prev.getBlockTime)
    (.invalid .BLOCK_INVALID_HEADER "time-too-old")
  rejectIfT (block.getBlockTime > nAdjustedTime + MAX_FUTURE_BLOCK_TIME IsVericoin)
    (.invalid .BLOCK_TIME_FUTURE "time-too-new")

/-- With a parent, and a required target that is computed without a throw,
the header checks never fault, and they reject with a reason, never with an
exception. -/
theorem contextualCheckBlockHeader_run (henv : HeaderEnv) (IsVericoin : Bool) (params : Params)
    (m : BlockMap) (block : CBlockHeader) (prev : CBlockIndex) (nAdjustedTime : Int) {nBits : UInt32}
    (htarget : getNextTargetOrWorkRequired henv m prev (isProofOfStake params (prev.nHeight + 1))
      params = .ok nBits) :
    ∃ r, (contextualCheckBlockHeader henv IsVericoin params m block (some prev) nAdjustedTime).run =
      .ok r ∧ ∀ e, r = .error e → e.isException = false := by
  simp only [contextualCheckBlockHeader, ValidationM.fault, Option.isSome_some, Fault.check_true,
    Fault.deref_some, Fault.ok_bind, Fault.lift_ok, pure_bind, run_rejectIfT_bind, run_rejectIfT,
    htarget]
  -- one branch for each check that rejects, and the last for none
  repeat' split
  all_goals exact ⟨_, rfl, by rintro e ⟨⟩ <;> rfl⟩

/-- The guard `out-of-pow-height` is false at every height: on Vericoin every
height above `PoSHeight` is a stake height. -/
theorem outOfPowHeight_guard_false (params : Params) (nHeight : Int) :
    (params.fIsVericoin && !isProofOfStake params nHeight && decide (nHeight > params.PoSHeight)) =
      false := by
  cases hv : params.fIsVericoin
  · rfl
  · by_cases hgt : nHeight > params.PoSHeight
    · simp [isProofOfStake_of_gt hv hgt]
    · simp [hgt]

/-- `LOCKTIME_THRESHOLD`. -/
def LOCKTIME_THRESHOLD : Nat := 500000000

/-- `CTxIn::SEQUENCE_FINAL`. -/
def SEQUENCE_FINAL : UInt32 := 0xffffffff

/-- `LOCKTIME_MEDIAN_TIME_PAST`. -/
def LOCKTIME_MEDIAN_TIME_PAST : Nat := 1 <<< 1

/-- `IsFinalTx(tx, nBlockHeight, nBlockTime)`. -/
def isFinalTx (tx : CTransaction) (nBlockHeight nBlockTime : Int) : Bool :=
  if tx.nLockTime == 0 then true
  else if (tx.nLockTime.toNat : Int) <
      (if tx.nLockTime.toNat < LOCKTIME_THRESHOLD then nBlockHeight else nBlockTime) then true
  else tx.vin.all (·.nSequence == SEQUENCE_FINAL)

/-- `CTransaction::HasWitness()`. -/
def hasWitness (tx : CTransaction) : Bool := tx.vin.any (!·.scriptWitness.isEmpty)

/-- `GetBlockWeight(block)`.  Blocks with witness data are refused before
the weight is read, so the sizes with and without witnesses agree. -/
def getBlockWeight (env : CheckBlockEnv) (block : CBlock) : Nat :=
  env.blockSerializeSize block * (WITNESS_SCALE_FACTOR - 1) + env.blockSerializeSize block

/-- `ContextualCheckBlock(block, state, params, pindexPrev)`. -/
def contextualCheckBlock (env : CheckBlockEnv) (params : Params) (m : BlockMap) (block : CBlock)
    (pindexPrev : Option CBlockIndex) : ValidationM Unit := do
  let nHeight := match pindexPrev with
    | none => 0
    | some p => p.nHeight + 1
  let nLockTimeFlags := if nHeight ≥ params.CSVHeight then LOCKTIME_MEDIAN_TIME_PAST else 0
  if nHeight ≥ params.CSVHeight then ValidationM.fault (Fault.check pindexPrev.isSome)
  let nLockTimeCutoff ←
    if nLockTimeFlags &&& LOCKTIME_MEDIAN_TIME_PAST != 0 then
      ValidationM.fault (m.getMedianTimePast <$> Fault.deref pindexPrev)
    else pure block.getBlockTime
  rejectIfT (!block.vtx.all (isFinalTx · nHeight nLockTimeCutoff))
    (.invalid .BLOCK_CONSENSUS "bad-txns-nonfinal")
  if nHeight ≥ params.BIP34Height then
    let expect := pushInt64 nHeight
    let tx0 ← ValidationM.fault (Fault.index block.vtx 0)
    let txin ← ValidationM.fault (Fault.index tx0.vin 0)
    rejectIfT (txin.scriptSig.length < expect.length || !expect.isPrefixOf txin.scriptSig)
      (.invalid .BLOCK_CONSENSUS "bad-cb-height")
  rejectIfT (block.vtx.any hasWitness) (.invalid .BLOCK_MUTATED "unexpected-witness")
  rejectIfT (getBlockWeight env block > MAX_BLOCK_WEIGHT) (.invalid .BLOCK_CONSENSUS "bad-blk-weight")

/-! ## The stake fields of an entry -/

/-- `GetStakeEntropyBit(block)`: the last bit of the block hash. -/
def getStakeEntropyBit (H : Hashers) (IsVericoin : Bool) (block : CBlock) : UInt32 :=
  UInt32.ofNat ((block.getHash H IsVericoin).uintToArith256 % 2)

/-- `mapStakeModifierCheckpoints`: height and checksum. -/
def mapStakeModifierCheckpoints : List (Int × UInt32) := [(0, 0xfd11f4e7)]

/-- `CheckStakeModifierCheckpoints(nHeight, nStakeModifierChecksum)`. -/
def checkStakeModifierCheckpoints (nHeight : Int) (nStakeModifierChecksum : UInt32) : Bool :=
  match mapStakeModifierCheckpoints.lookup nHeight with
  | some checksum => nStakeModifierChecksum == checksum
  | none => true

/-- The bytes `GetStakeModifierChecksum` hashes: the previous checksum, then
the flags, the proof-of-stake hash and the modifier. -/
def stakeModifierChecksumBytes (pprev : Option CBlockIndex) (pindex : CBlockIndex) : List UInt8 :=
  (match pprev with
    | some p => ByteStream.leBytes 4 p.nStakeModifierChecksum.toNat
    | none => []) ++
  ByteStream.leBytes 4 pindex.nFlags.toNat ++ pindex.hashProofOfStake.data ++
    ByteStream.leBytes 8 pindex.nStakeModifier.toNat

/-- `GetStakeModifierChecksum(pindex)`: the top 32 bits of the hash, after
the assertion that only the genesis block lacks a predecessor. -/
def getStakeModifierChecksum (H : Hashers) (params : Params) (m : BlockMap) (pindex : CBlockIndex) :
    Faulty UInt32 := do
  Fault.check ((m.prev pindex).isSome || pindex.getBlockHash == params.hashGenesisBlock)
  let hashChecksum := (H.Hash (stakeModifierChecksumBytes (m.prev pindex) pindex)).uintToArith256
  pure (UInt32.ofNat (hashChecksum >>> (256 - 32)))

/-- What the stake checks use from outside this model: `GetRand` for the
shuffle, `std::sort`, and the interpreter with the signature checker of an
input. -/
structure StakeEnv where
  /-- `GetRand(i)`. -/
  rand : Nat → Nat
  /-- `std::sort` with the candidate comparator. -/
  sort : SortContract candidateLess
  /-- The interpreter with `TransactionSignatureChecker(&tx, nIn, amount)`. -/
  scriptEnv : CTransaction → Nat → Int → ScriptEnv

/-- The stake fields `VericoinContextualBlockChecks` computes for a block. -/
structure StakeFields where
  /-- `hashProofOfStake`, zero for a work block. -/
  hashProofOfStake : uint256
  nEntropyBit : UInt32
  nStakeModifier : UInt64
  fGeneratedStakeModifier : Bool
deriving DecidableEq

/-- The flags the two setters add for the fields `f`. -/
def StakeFields.flags (f : StakeFields) : UInt32 :=
  (if f.nEntropyBit != 0 then CBlockIndex.BLOCK_STAKE_ENTROPY else 0) |||
    (if f.fGeneratedStakeModifier then CBlockIndex.BLOCK_STAKE_MODIFIER else 0)

/-- `SetStakeEntropyBit(nEntropyBit)` then `SetStakeModifier(nStakeModifier,
fGeneratedStakeModifier)`; `none` when the first refuses the bit. -/
def CBlockIndex.setStakeFields (e : CBlockIndex) (f : StakeFields) : Option CBlockIndex :=
  (e.setStakeEntropyBit f.nEntropyBit).map fun e => e.setStakeModifier f.nStakeModifier
    f.fGeneratedStakeModifier

/-- The two setters only add flags: the entropy bit and the modifier bit. -/
theorem CBlockIndex.nFlags_setStakeFields {e e' : CBlockIndex} {f : StakeFields}
    (h : e.setStakeFields f = some e') : e'.nFlags = e.nFlags ||| f.flags := by
  unfold setStakeFields at h
  cases hbit : e.setStakeEntropyBit f.nEntropyBit with
  | none => simp [hbit] at h
  | some withBit =>
      simp only [hbit, Option.map_some, Option.some.injEq] at h
      subst h
      rw [nFlags_or_setStakeModifier, nFlags_or_setStakeEntropyBit hbit, StakeFields.flags,
        UInt32.or_assoc]

section Stake

variable (H : Hashers) (IsVericoin : Bool) (params : Params) (senv : StakeEnv) (m : BlockMap)
  (chainActive : CChain) (txindex : TxIndex)

/-- The computations of `VericoinContextualBlockChecks`: the kernel of a
stake block, the entropy bit and the next stake modifier. -/
def stakeFields (block : CBlock) (pindex : CBlockIndex) : StakeM StakeFields := do
  let hashProofOfStake ←
    if block.isProofOfStake IsVericoin then do
      let tx1 ← StakeM.fault (Fault.index block.vtx 1)
      checkProofOfStake H IsVericoin params m chainActive senv.scriptEnv txindex (m.prev pindex) tx1
        block.nBits
    else pure uint256.zero
  let nEntropyBit := getStakeEntropyBit H IsVericoin block
  let some (nStakeModifier, fGeneratedStakeModifier) :=
      computeNextStakeModifier H params m senv.rand senv.sort pindex
    | throw (.failed "ConnectBlock() : ComputeNextStakeModifier() failed")
  pure ⟨hashProofOfStake, nEntropyBit, nStakeModifier, fGeneratedStakeModifier⟩

/-- The checksum of the entry with the new fields, checked against the hard
checkpoints.  The code sets the fields on `pindex`, hashes, and restores
them; the model hashes a copy. -/
def stakeModifierChecksum (pindex : CBlockIndex) (f : StakeFields) : StakeM UInt32 := do
  let some withFields := pindex.setStakeFields f
    | throw (.failed "ConnectBlock() : SetStakeEntropyBit() failed")
  let nStakeModifierChecksum ← StakeM.fault (getStakeModifierChecksum H params m
    { withFields with hashProofOfStake := f.hashProofOfStake })
  rejectIfT (!checkStakeModifierCheckpoints pindex.nHeight nStakeModifierChecksum)
    (.failed "ConnectBlock() : Rejected by stake modifier checkpoint")
  pure nStakeModifierChecksum

/-- The stake of a stake block written into the entry: the coinstake's
first prevout, its time, and the proof-of-stake hash. -/
def recordStake (block : CBlock) (pindex : CBlockIndex) (f : StakeFields) : StakeM CBlockIndex :=
  if block.isProofOfStake IsVericoin then do
    let tx1 ← StakeM.fault (Fault.index block.vtx 1)
    let txin ← StakeM.fault (Fault.index tx1.vin 0)
    pure { pindex with
      prevoutStake := txin.prevout
      nStakeTime := tx1.nTime
      hashProofOfStake := f.hashProofOfStake }
  else pure pindex

/-- The write to the index: the stake of a stake block, then the two
setters and the checksum. -/
def writeStakeFields (block : CBlock) (pindex : CBlockIndex) (f : StakeFields)
    (nStakeModifierChecksum : UInt32) : StakeM CBlockIndex := do
  let staked ← recordStake IsVericoin block pindex f
  let some written := staked.setStakeFields f
    | throw (.failed "ConnectBlock() : SetStakeEntropyBit() failed")
  pure { written with nStakeModifierChecksum := nStakeModifierChecksum }

/-- Recording the stake leaves the flags alone. -/
theorem recordStake_nFlags {block : CBlock} {pindex staked : CBlockIndex} {f : StakeFields}
    {cache cache' : StakeWeightCache}
    (h : (recordStake IsVericoin block pindex f).run.run cache = .ok (.ok staked, cache')) :
    staked.nFlags = pindex.nFlags := by
  unfold recordStake at h
  split at h
  · obtain ⟨tx1, cache₁, -, h⟩ := Fault.stateful_bind_eq_ok h
    obtain ⟨txin, cache₂, -, h⟩ := Fault.stateful_bind_eq_ok h
    cases h
    rfl
  · cases h
    rfl

/-- Writing the fields keeps the entry's flags and adds those of the fields. -/
theorem writeStakeFields_nFlags {block : CBlock} {pindex written : CBlockIndex} {f : StakeFields}
    {nStakeModifierChecksum : UInt32} {cache cache' : StakeWeightCache}
    (h : (writeStakeFields IsVericoin block pindex f nStakeModifierChecksum).run.run cache =
      .ok (.ok written, cache')) :
    written.nFlags = pindex.nFlags ||| f.flags := by
  unfold writeStakeFields at h
  obtain ⟨staked, cache₁, hstaked, hwrite⟩ := Fault.stateful_bind_eq_ok h
  have hflags := recordStake_nFlags IsVericoin hstaked
  cases hset : staked.setStakeFields f with
  | none => simp [hset] at hwrite
  | some withFields =>
      simp only [hset] at hwrite
      cases hwrite
      have hset_flags := CBlockIndex.nFlags_setStakeFields hset
      rw [← hflags]
      exact hset_flags

/-- `VericoinContextualBlockChecks(block, state, pindex, fJustCheck)`: the
entry `pindex` as the call leaves it. -/
def vericoinContextualBlockChecks (block : CBlock) (pindex : CBlockIndex) (fJustCheck : Bool) :
    StakeM CBlockIndex :=
  if !params.fIsVericoin then pure pindex
  else do
    let f ← stakeFields H IsVericoin params senv m chainActive txindex block pindex
    let nStakeModifierChecksum ← stakeModifierChecksum H params m pindex f
    if fJustCheck then pure pindex
    else writeStakeFields IsVericoin block pindex f nStakeModifierChecksum

/-- **The checks only add flags.**  On Vericoin, an entry the checks write
has the flags it had, with the entropy and modifier bits of the fields the
checks computed OR-ed in. -/
theorem vericoinContextualBlockChecks_nFlags (hv : params.fIsVericoin = true) {block : CBlock}
    {pindex written : CBlockIndex} {cache cache' : StakeWeightCache}
    (h : (vericoinContextualBlockChecks H IsVericoin params senv m chainActive txindex block pindex
      false).run.run cache = .ok (.ok written, cache')) :
    ∃ f cache₁, (stakeFields H IsVericoin params senv m chainActive txindex block pindex).run.run
        cache = .ok (.ok f, cache₁) ∧
      written.nFlags = pindex.nFlags ||| f.flags := by
  simp only [vericoinContextualBlockChecks, hv, Bool.not_true, Bool.false_eq_true, if_false] at h
  obtain ⟨f, cache₁, hf, h⟩ := Fault.stateful_bind_eq_ok h
  obtain ⟨nStakeModifierChecksum, cache₂, -, hwrite⟩ := Fault.stateful_bind_eq_ok h
  exact ⟨f, cache₁, hf, writeStakeFields_nFlags IsVericoin hwrite⟩

end Stake

/-! ## The active chain decides a side block

`CheckStakeKernelHash` finds the stake modifier by walking forward from the
block holding the staked output, and while `pindexPrev` is on the active
chain the walk follows `ChainActive().Next`, past `pindexPrev` when the
active chain goes on.  Two nodes with the same index and the same
transaction index, whose active chains differ above `pindexPrev`, then judge
the same stake block differently. -/

/-- `GetRand` the identity, merge sort for `std::sort`, and an interpreter
that leaves true on the stack of every script. -/
def acceptingStakeEnv : StakeEnv where
  rand := id
  sort := StrictSort.mergeSortContract candidateLess_irrefl (fun _ _ _ => candidateLess_trans)
    candidateLess_trichotomous
  scriptEnv := fun _ _ _ => ⟨fun stack _ _ => .ok (stack ++ [[1]]), fun _ _ _ _ => .ok ()⟩

/-- The key `n` of the small index. -/
def smallKey (n : Nat) : uint256 := uint256.arithToUint256 n

/-- The genesis block `1` with a modifier, block `0` holding the staked
output, block `2` on it, and block `3` on `2`, which generates a modifier a
selection interval after block `0`. -/
def stakeMap : BlockMap :=
  BlockMap.ofList
    [{ smallEntry 1 none 0 0 with nFlags := CBlockIndex.BLOCK_STAKE_MODIFIER },
      smallEntry 0 (some 1) 1 0, smallEntry 2 (some 0) 2 0,
      { smallEntry 3 (some 2) 3 21600 with
        nFlags := CBlockIndex.BLOCK_STAKE_MODIFIER
        nStakeModifier := 7 }]

/-- The staked transaction, in block `0`. -/
def stakedTx : CTransaction where
  nVersion := 1
  nTime := 0
  vin := []
  vout := [⟨1000 * COIN, []⟩]
  nLockTime := 0
  hash := smallKey 5

/-- A transaction index that knows the staked transaction. -/
def stakeTxIndex : TxIndex :=
  some fun h => if h = stakedTx.hash then some ⟨(smallEntry 0 (some 1) 1 0).getBlockHeader, 0, stakedTx⟩
    else none

/-- A stake block on block `2`: a coinbase, and a coinstake of the staked
output eight hours after block `0`. -/
def sideStakeBlock : CBlock :=
  { CBlock.ofHeader CBlockHeader.null with
    vtx :=
      [⟨1, 28800, [⟨⟨uint256.zero, COutPoint.NULL_INDEX⟩, [0, 0], 0, []⟩], [⟨0, []⟩], 0, smallKey 6⟩,
        ⟨1, 28800, [⟨⟨stakedTx.hash, 0⟩, [], 0, []⟩], [⟨0, []⟩, ⟨1000 * COIN, []⟩], 0, smallKey 7⟩] }

/-- **The checks of a side block depend on the active chain.**  With the
active chain ending at block `2`, the walk finds no modifier and the kernel
fails; with block `3` on the active chain the same block, index and
transaction index pass. -/
theorem vericoinContextualBlockChecks_chainActive :
    ((vericoinContextualBlockChecks zeroHashers true smallParams acceptingStakeEnv stakeMap
        ⟨[smallKey 1, smallKey 0, smallKey 2]⟩ stakeTxIndex sideStakeBlock (smallEntry 4 (some 2) 3 0)
        true).run.run .initial).map Prod.fst =
      .ok (.error (.invalid .BLOCK_CONSENSUS "check-kernel-failed")) ∧
    ((vericoinContextualBlockChecks zeroHashers true smallParams acceptingStakeEnv stakeMap
        ⟨[smallKey 1, smallKey 0, smallKey 2, smallKey 3]⟩ stakeTxIndex sideStakeBlock
        (smallEntry 4 (some 2) 3 0) true).run.run .initial).map Prod.fst =
      .ok (.ok (smallEntry 4 (some 2) 3 0)) := by
  decide +kernel

end Veribase
