import Veribase.Chain.BlockIndex
import Veribase.Consensus.Params
import Veribase.Primitives.Transaction
import Veribase.Validation.CheckBlock

/-!
# Stake weight and the stake reward

The proof-of-stake-time rules of `pos.cpp` weigh a stake by the network's
average stake weight.  `GetPoSKernelPS` estimates the kernels tried per
second over the last 72 blocks from their difficulty and spacing;
`GetAverageStakeWeight` averages it over the last 60 blocks plus 21, and
keeps the result in two `static` variables, keyed by the height of the
block it was asked about.  `GetStakeTimeFactoredWeight` shrinks the time
weight of a large stake by `cos²`, and `GetProofOfStakeReward` pays interest
on coin age at a rate derived from the same average.

The arithmetic is in `double`, modelled by `Float`; what the model tracks is
where each value comes from, and in particular that the cache makes the
result depend on earlier calls: it is keyed by height only, so a block on
one branch can be answered with the average of another branch at the same
height.
-/

namespace Veribase

/-- `PI` of `pos.h`. -/
def PI : Float := 3.1415926535

/-- `GetDifficulty(blockindex)` for a non-null index: the target `0xffff`
at shift 29 divided by the mantissa of `nBits`, scaled by 256 per step of the
exponent. -/
def getDifficulty (blockindex : CBlockIndex) : Float :=
  let nShift := ((blockindex.nBits >>> 24) &&& 0xff).toNat
  let dDiff := (0x0000ffff : Float) / Float.ofNat (blockindex.nBits &&& 0x00ffffff).toNat
  -- the two `while` loops: at most one of them runs
  if nShift < 29 then Nat.repeat (· * 256.0) (29 - nShift) dDiff
  else Nat.repeat (· / 256.0) (nShift - 29) dDiff

/-- The loop of `GetPoSKernelPS`, over `k` more blocks: the sum of the
difficulties and the sum of the spacings, in `unsigned` arithmetic folded into
an `int`. -/
def getPoSKernelPSLoop (m : BlockMap) :
    Nat → Option CBlockIndex → Option CBlockIndex → Float → Int32 → Float × Int32
  | 0, _, _, dStakeKernelsTriedAvg, nStakesTime => (dStakeKernelsTriedAvg, nStakesTime)
  | _ + 1, none, _, dStakeKernelsTriedAvg, nStakesTime => (dStakeKernelsTriedAvg, nStakesTime)
  | k + 1, some pindexPrev, pindexPrevStake, dStakeKernelsTriedAvg, nStakesTime =>
      let spacing : UInt32 := match pindexPrevStake with
        | some s => s.nTime - pindexPrev.nTime
        | none => 0
      getPoSKernelPSLoop m k (m.prev pindexPrev) (some pindexPrev)
        (dStakeKernelsTriedAvg + getDifficulty pindexPrev * 4294967296.0)
        (nStakesTime + spacing.toInt32)

/-- `GetPoSKernelPS(pindexPrev)`. -/
def getPoSKernelPS (m : BlockMap) (pindexPrev : Option CBlockIndex) : Float :=
  let (dStakeKernelsTriedAvg, nStakesTime) := getPoSKernelPSLoop m 72 pindexPrev none 0 0
  if nStakesTime != 0 then dStakeKernelsTriedAvg / Float.ofInt nStakesTime.toInt else 0

/-! ## The span of the window

The spacings `pindexPrevStake->nTime - pindexPrev->nTime` telescope: their
sum is the time of the first block of the window less the time of the last,
wrapped to 32 bits.  Nothing in the header checks makes that span positive:
a block may be earlier than its parent by up to `MAX_FUTURE_BLOCK_TIME`, so a
window that starts at a block far ahead of its own predecessors ends before
it. -/

/-- The entry `k` steps back from `pindex`, or the first entry when the
chain is shorter. -/
def BlockMap.oldestOf (m : BlockMap) : Nat → CBlockIndex → CBlockIndex
  | 0, p => p
  | k + 1, p =>
      match m.prev p with
      | some q => m.oldestOf k q
      | none => p

/-- After the first block, the loop adds the span from the block before it
to the last block it reaches. -/
theorem getPoSKernelPSLoop_snd (m : BlockMap) :
    ∀ k (p s : CBlockIndex) (d : Float) (nStakesTime : Int32),
      (getPoSKernelPSLoop m (k + 1) (some p) (some s) d nStakesTime).2 =
        nStakesTime + (s.nTime - (m.oldestOf k p).nTime).toInt32
  | 0, p, s, d, nStakesTime => rfl
  | k + 1, p, s, d, nStakesTime => by
      rw [getPoSKernelPSLoop, BlockMap.oldestOf]
      cases hprev : m.prev p with
      | none => rfl
      | some q =>
        -- the spacing to `p`, then the span from `p` on
        dsimp only
        rw [getPoSKernelPSLoop_snd m k q p, Int32.add_assoc, ← UInt32.toInt32_add,
          show s.nTime - p.nTime + (p.nTime - (m.oldestOf k q).nTime) = s.nTime - (m.oldestOf k q).nTime by
            abel]

/-- **The divisor of `GetPoSKernelPS`** is the span of its window: the time
of `pindexPrev` less the time of the block 71 steps back, in wrapped 32-bit
arithmetic. -/
theorem getPoSKernelPSLoop_span (m : BlockMap) (tip : CBlockIndex) :
    (getPoSKernelPSLoop m 72 (some tip) none 0 0).2 = (tip.nTime - (m.oldestOf 71 tip).nTime).toInt32 := by
  rw [getPoSKernelPSLoop, BlockMap.oldestOf]
  cases hprev : m.prev tip with
  | none => simp [getPoSKernelPSLoop]
  | some q =>
    dsimp only
    rw [getPoSKernelPSLoop_snd m 70 q tip]
    simp

/-- The entry at height `k` of a chain whose blocks are keyed by their height
plus one, with the target `0x1e0fffff`. -/
def timedEntry (k : Nat) (t : UInt32) : CBlockIndex :=
  { CBlockIndex.ofHeader CBlockHeader.null with
    phashBlock := some (uint256.arithToUint256 (k + 1))
    pprev := if k = 0 then none else some (uint256.arithToUint256 k)
    nHeight := k
    nTime := t
    nBits := 0x1e0fffff }

/-- Block times: two early blocks, one far ahead of them, then a block as far
back from it as a Vericoin header may go, and one second more at each later
block. -/
def spikeTimes : List UInt32 := [1, 2, 10000] ++ (List.range 71).map fun i => 9400 + i.toUInt32

/-- The chain of those times. -/
def spikeEntries : List CBlockIndex := spikeTimes.mapIdx timedEntry

/-- Its index: the entry of the height a key encodes. -/
def spikeMap : BlockMap := fun h =>
  if h.uintToArith256 = 0 then none else spikeEntries[h.uintToArith256 - 1]?

/-- **A window with a negative span.**  The index holds each entry of
`spikeEntries` under its key, the tip among them, and every header passes the
time checks of `ContextualCheckBlockHeader` against its parent, on either
network, and decodes to a positive target.  Yet at the tip the window of
`GetPoSKernelPS` starts at the block far ahead, and its span is `-530`
seconds: the sum of the 72 difficulties is divided by a negative span. -/
theorem getPoSKernelPS_negative_span :
    timedEntry 73 9470 ∈ spikeEntries ∧
    (∀ e ∈ spikeEntries, e.phashBlock.bind spikeMap = some e) ∧
    (∀ e ∈ spikeEntries, ∀ p ∈ spikeMap.prev e, ∀ IsVericoin : Bool,
      ¬(e.getBlockTime ≤ spikeMap.getMedianTimePast p ∨
        e.getBlockTime + MAX_FUTURE_BLOCK_TIME IsVericoin < p.getBlockTime)) ∧
    (∀ e ∈ spikeEntries, 0 < (setCompact e.nBits).1 ∧ (setCompact e.nBits).2 = (false, false)) ∧
    (getPoSKernelPSLoop spikeMap 72 (some (timedEntry 73 9470)) none 0 0).2.toInt = -530 ∧
    getPoSKernelPS spikeMap (some (timedEntry 73 9470)) =
      (getPoSKernelPSLoop spikeMap 72 (some (timedEntry 73 9470)) none 0 0).1 / Float.ofInt (-530) := by
  have hspan : (getPoSKernelPSLoop spikeMap 72 (some (timedEntry 73 9470)) none 0 0).2 = -530 := by
    rw [getPoSKernelPSLoop_span]
    decide
  refine ⟨by decide +kernel, by decide +kernel, by decide +kernel, by decide +kernel, by rw [hspan]; rfl, ?_⟩
  generalize hloop : getPoSKernelPSLoop spikeMap 72 (some (timedEntry 73 9470)) none 0 0 = r at hspan
  obtain ⟨d, nStakesTime⟩ := r
  dsimp only at hspan
  subst hspan
  simp only [getPoSKernelPS, hloop]
  rfl

/-! ## The cached average -/

/-- The `static` variables `nAverageStakeWeightHeightCached` and
`dAverageStakeWeightCached`. -/
structure StakeWeightCache where
  nAverageStakeWeightHeightCached : Int
  dAverageStakeWeightCached : Float

/-- Their values at start-up. -/
def StakeWeightCache.initial : StakeWeightCache := ⟨0, 0⟩

/-- The loop of `GetAverageStakeWeight` over `k` more blocks: the sum of
`GetPoSKernelPS` and the number of blocks summed. -/
def averageStakeWeightLoop (m : BlockMap) : Nat → Option CBlockIndex → Float → Nat → Float × Nat
  | 0, _, weightSum, i => (weightSum, i)
  | _ + 1, none, weightSum, i => (weightSum, i)
  | k + 1, some current, weightSum, i =>
      averageStakeWeightLoop m k (m.prev current) (weightSum + getPoSKernelPS m (some current)) (i + 1)

/-- `GetAverageStakeWeight(pindexPrev)`: the cached value when the height
matches, otherwise the average over 60 blocks, stored in the cache. -/
def getAverageStakeWeight (m : BlockMap) (pindexPrev : Option CBlockIndex) :
    StateM StakeWeightCache Float := do
  match pindexPrev with
  | none => pure 0
  | some p =>
      let cache ← get
      if p.nHeight == cache.nAverageStakeWeightHeightCached then
        pure cache.dAverageStakeWeightCached
      else
        let (weightSum, i) := averageStakeWeightLoop m 60 (some p) 0 0
        let weightAve := weightSum / Float.ofNat i + 21
        set (StakeWeightCache.mk p.nHeight weightAve)
        pure weightAve

/-- `GetStakeTimeFactoredWeight(timeWeight, bnCoinDayWeight, pindexPrev)`. -/
def getStakeTimeFactoredWeight (params : Params) (m : BlockMap) (timeWeight bnCoinDayWeight : Int)
    (pindexPrev : CBlockIndex) : StateM StakeWeightCache Int := do
  let average ← getAverageStakeWeight m (some pindexPrev)
  let weightFraction := Float.ofInt (bnCoinDayWeight + 1) / average
  if weightFraction * 100 > 45 then pure (params.nStakeMinAge + 1)
  else
    let stakeTimeFactor := Float.pow (Float.cos (PI * weightFraction)) 2.0
    pure (stakeTimeFactor * Float.ofInt timeWeight).toInt64.toInt

/-- `GetWeight(nIntervalBeginning, nIntervalEnd, nValueIn, pindexPrev)`: the
time weight past the minimum age, factored by the average stake weight once
the block is past `PoSTHeight`.  The height is read through `pindexPrev`. -/
def getWeight (params : Params) (m : BlockMap) (nIntervalBeginning nIntervalEnd nValueIn : Int)
    (pindexPrev : CBlockIndex) : StateM StakeWeightCache Int :=
  let timeWeight := nIntervalEnd - nIntervalBeginning - params.nStakeMinAge
  if pindexPrev.nHeight + 1 > params.PoSTHeight then
    let bnCoinDayWeight := ((nValueIn * timeWeight).tdiv COIN).tdiv (24 * 60 * 60)
    getStakeTimeFactoredWeight params m timeWeight bnCoinDayWeight pindexPrev
  else pure timeWeight

/-- Past `PoSTHeight` the weight is the time weight factored by the coin-day
weight, which is the `int64_t` product of the staked value and the time
weight, in coins and days. -/
theorem getWeight_of_gt (params : Params) (m : BlockMap) {pindexPrev : CBlockIndex}
    (hheight : params.PoSTHeight < pindexPrev.nHeight + 1) (b e v : Int) :
    getWeight params m b e v pindexPrev =
      getStakeTimeFactoredWeight params m (e - b - params.nStakeMinAge)
        (((v * (e - b - params.nStakeMinAge)).tdiv COIN).tdiv (24 * 60 * 60)) pindexPrev := by
  unfold getWeight
  rw [if_pos hheight]

/-- The block before the first proof-of-stake-time block of the main network. -/
def postTip : CBlockIndex := { CBlockIndex.ofHeader CBlockHeader.null with nHeight := 608100 }

/-- **`GetWeight` overflows `int64_t`.**  Past `PoSTHeight` it multiplies the
staked value by the time weight before dividing by `COIN` and by a day; at
`MAX_MONEY` staked over the widest interval of 32-bit times the product is
far outside the `int64_t` range, so the multiplication of the source is a
signed overflow. -/
theorem getWeight_nValueIn_overflow (posLimit powLimit hashGenesisBlock : uint256)
    (posBlocks : List Int) (m : BlockMap) :
    getWeight (vericoinParams posLimit powLimit hashGenesisBlock posBlocks) m 0 0xffffffff MAX_MONEY
        postTip =
      getStakeTimeFactoredWeight (vericoinParams posLimit powLimit hashGenesisBlock posBlocks) m
        (0xffffffff - 0 - 8 * 60 * 60)
        (((MAX_MONEY * (0xffffffff - 0 - 8 * 60 * 60)).tdiv COIN).tdiv (24 * 60 * 60)) postTip ∧
      ¬int64Range (MAX_MONEY * (0xffffffff - 0 - 8 * 60 * 60)) := by
  refine ⟨getWeight_of_gt _ m (by show (608100 : Int) < 608100 + 1; omega) 0 0xffffffff MAX_MONEY, ?_⟩
  unfold int64Range MAX_MONEY COIN
  omega

/-! ## The stake reward -/

/-- `GetCurrentInflationRate(nAverageWeight)`. -/
def getCurrentInflationRate (nAverageWeight : Float) : Float :=
  (17 * Float.log (nAverageWeight / 20)) / 100

/-- `GetCurrentInterestRate(pindexPrev, params)`. -/
def getCurrentInterestRate (params : Params) (m : BlockMap) (pindexPrev : CBlockIndex) :
    StateM StakeWeightCache Float := do
  let nAverageWeight ← getAverageStakeWeight m (some pindexPrev)
  let inflationRate := getCurrentInflationRate nAverageWeight / 100
  pure (((inflationRate * Float.ofInt params.nInitialCoinSupply) / nAverageWeight) * 100)

/-- The subsidy of `GetProofOfStakeReward(nCoinAge, nFees, pindex, params)`:
interest on the coin age at the rate of the stake-time rules past
`PoSTHeight`, and at a rate from the kernels per second before. -/
def getProofOfStakeSubsidy (params : Params) (m : BlockMap) (nCoinAge : Int) (pindex : CBlockIndex) :
    StateM StakeWeightCache Int := do
  if pindex.nHeight + 1 > params.PoSTHeight then
    let rate ← getCurrentInterestRate params m pindex
    let nInterestRate := (rate * Float.ofInt CENT).toInt64.toInt
    pure ((nCoinAge * nInterestRate * 33).tdiv (365 * 33 + 8))
  else
    let nNetworkWeight := getPoSKernelPS m (some pindex)
    if nNetworkWeight < 21 then pure 0
    else
      let nInterestRate := ((17 * Float.log (nNetworkWeight / 20)) * 10000).toInt64.toInt
      pure ((nCoinAge * nInterestRate * 33).tdiv (365 * 33 + 8))

/-- `GetProofOfStakeReward(nCoinAge, nFees, pindex, params)`: the subsidy
plus the fees. -/
def getProofOfStakeReward (params : Params) (m : BlockMap) (nCoinAge nFees : Int)
    (pindex : CBlockIndex) : StateM StakeWeightCache Int := do
  let nSubsidy ← getProofOfStakeSubsidy params m nCoinAge pindex
  pure (nSubsidy + nFees)

/-! ## Two callers at once

`GetAverageStakeWeight` takes no lock.  The validation thread calls it with
`cs_main` held, the GUI and RPC threads without it, through
`interfaces::Node::getCurrentInflationRate` and `getCurrentInterestRate`;
nothing orders their accesses to the two `static` variables.  A call is
modelled by where it stands between the statements that touch them
(`AvgPc`), one step per statement, and a schedule says which thread takes the
next step.  A call that reads the height its twin has just
published returns whatever average the cache held before
(`getAverageStakeWeight_race`). -/

/-- Where a call of `GetAverageStakeWeight` stands. -/
inductive AvgPc
  /-- Before the test of `nAverageStakeWeightHeightCached`. -/
  | start
  /-- After `nAverageStakeWeightHeightCached = pindexPrev->nHeight`, before
  `dAverageStakeWeightCached = weightAve`. -/
  | published
  /-- Returned `r`. -/
  | done (r : Float)

/-- A call in progress: its argument and where it stands. -/
structure AvgCall where
  pindexPrev : CBlockIndex
  /-- Where the call stands. -/
  pc : AvgPc

/-- The average the loop of `GetAverageStakeWeight` computes,
`weightSum / i + 21`. -/
def averageStakeWeight (m : BlockMap) (p : CBlockIndex) : Float :=
  let (weightSum, i) := averageStakeWeightLoop m 60 (some p) 0 0
  weightSum / Float.ofNat i + 21

/-- One statement of a call against the shared cache: the test of the cached
height, which returns the cached average or publishes the new height; then
the loop and the store of the average. -/
def avgStep (m : BlockMap) (cache : StakeWeightCache) (call : AvgCall) :
    StakeWeightCache × AvgCall :=
  match call.pc with
  | .start =>
      if call.pindexPrev.nHeight == cache.nAverageStakeWeightHeightCached then
        (cache, { call with pc := .done cache.dAverageStakeWeightCached })
      else
        ({ cache with nAverageStakeWeightHeightCached := call.pindexPrev.nHeight },
          { call with pc := .published })
  | .published =>
      let weightAve := averageStakeWeight m call.pindexPrev
      ({ cache with dAverageStakeWeightCached := weightAve }, { call with pc := .done weightAve })
  | .done _ => (cache, call)

/-- The threads that call `GetAverageStakeWeight`. -/
inductive Caller
  /-- The validation thread, holding `cs_main`. -/
  | validation
  /-- A GUI or RPC thread, without `cs_main`. -/
  | gui

/-- The cache and the call each thread is making. -/
structure AvgSystem where
  /-- The two `static` variables. -/
  cache : StakeWeightCache
  /-- The validation thread's call. -/
  validation : AvgCall
  /-- The GUI thread's call. -/
  gui : AvgCall

/-- The thread `c` takes one step. -/
def AvgSystem.step (m : BlockMap) (s : AvgSystem) : Caller → AvgSystem
  | .validation =>
      let (cache, call) := avgStep m s.cache s.validation
      { s with cache := cache, validation := call }
  | .gui =>
      let (cache, call) := avgStep m s.cache s.gui
      { s with cache := cache, gui := call }

/-- The threads take the steps of a schedule, in order. -/
def AvgSystem.run (m : BlockMap) (s : AvgSystem) (schedule : List Caller) : AvgSystem :=
  schedule.foldl (AvgSystem.step m) s

/-- **The cached average is read before it is written.**  Let both threads
ask for the average at the same block `p`, from a cache holding any average
`d₀` for another height.  If the validation thread publishes the height and
the GUI thread then runs its test, the GUI call returns `d₀`, whatever `d₀`
is, while the call made alone returns the average of the 60 blocks ending at
`p`. -/
theorem getAverageStakeWeight_race (m : BlockMap) (p : CBlockIndex) (d₀ : Float) :
    let cache : StakeWeightCache := ⟨p.nHeight + 1, d₀⟩
    (AvgSystem.run m ⟨cache, ⟨p, .start⟩, ⟨p, .start⟩⟩ [.validation, .gui, .validation]).gui.pc =
        .done d₀ ∧
      (AvgSystem.run m ⟨cache, ⟨p, .start⟩, ⟨p, .start⟩⟩ [.validation, .gui, .validation]).validation.pc =
        .done (averageStakeWeight m p) ∧
      ((getAverageStakeWeight m (some p)).run cache).1 = averageStakeWeight m p := by
  have hne : ¬p.nHeight = p.nHeight + 1 := by omega
  refine ⟨?_, ?_, ?_⟩
  · simp [AvgSystem.run, AvgSystem.step, avgStep, hne]
  · simp [AvgSystem.run, AvgSystem.step, avgStep, hne]
  · simp [getAverageStakeWeight, hne, averageStakeWeight]
    rfl

/-! ## The work reward -/

/-- `CalculateBlocktime(pindex)` (`pow.cpp`): Verium's expected block time
from the difficulty, at least 15 seconds. -/
def calculateBlocktime (pindex : CBlockIndex) : UInt32 :=
  let dBlockTime := -13.03 * Float.log (getDifficulty pindex) + 180
  if dBlockTime < 15 then 15 else dBlockTime.toUInt32

/-- `calculateMinerReward(pindex)` (`pow.cpp`): Verium's presale amount at
height one, and an exponential of the block time after it, smaller once the
supply passes 2899999 coins. -/
def calculateMinerReward (pindex : CBlockIndex) : Int :=
  let nBlockTime := calculateBlocktime pindex
  let height := pindex.nHeight + 1
  if height == 1 then 564705 * COIN
  else if pindex.nMoneySupply.tdiv COIN > 2899999 then
    (0.04 * Float.exp (0.0116 * Float.ofNat nBlockTime.toNat) * Float.ofInt COIN).toInt64.toInt
  else (0.25 * Float.exp (0.0116 * Float.ofNat nBlockTime.toNat) * Float.ofInt COIN).toInt64.toInt

/-- `GetProofOfWorkReward(nFees, pindex)`: 2500 coins on Vericoin, Verium's
miner reward otherwise, plus the fees. -/
def getProofOfWorkReward (IsVericoin : Bool) (nFees : Int) (pindex : CBlockIndex) : Int :=
  if IsVericoin then 2500 * COIN + nFees else calculateMinerReward pindex + nFees

end Veribase
