import Veribase.Validation.ScriptFlags
import Veribase.Validation.Contextual

/-!
# Connecting a block

`ConnectBlock` (`validation.cpp`) applies a block to the coins view.  After
`CheckBlock` it walks the transactions in order.  A transaction other than
the coinbase passes `CheckTxInputs` against the view as the transactions
before it left it, and the walk keeps four tallies in `int64_t`: the value
spent (`nValueIn`), the value created (`nValueOut`), the fees of the plain
transactions (`nFees`), and the value a coinstake adds (`nStakeReward`).  Only
`nFees` is range-checked.  After the walk the coinbase is capped by the work
reward plus the fees, the stake reward by `GetProofOfStakeReward`, and the
entry records `nMint` and `nMoneySupply` from the tallies.

The tallies are integers here, so that a value outside the `int64_t` range is
an overflow of the code and not a wrap of the model.  Every transaction
brings at most `MAX_MONEY` into `nValueIn`, and nothing bounds the number of
transactions but the block size: a block of 4400 transactions that pass the
same coin on, each paying the minimum fee, is connected, and its `nValueIn`
is past `2^63` (`connectBlock_nValueIn_overflow`).

What the tallies record does hold in exact arithmetic.  The entry's supply
grows by the value the block creates minus the value it spends
(`connectBlock_moneySupply`): at most the work reward for a work block, and
at most the stake subsidy for a stake block on Vericoin.

Script checks run in the parallel queue: `CheckInputScripts` hands them to
`control`, and their failure is reported by `control.Wait()` after the reward
checks.  Undo data, the script-execution cache and logging are left out.
-/

namespace Veribase

open Checks

/-! ## Coins and the view -/

/-- `Coin`: an unspent output, with the height, kind and time of the
transaction that created it. -/
structure Coin where
  out : CTxOut
  nHeight : Int
  fCoinBase : Bool
  /-- `fCoinStake` (ppcoin). -/
  fCoinStake : Bool
  /-- `nTime` (ppcoin). -/
  nTime : UInt32
deriving DecidableEq

/-- The coin `AccessCoin` gives for an outpoint the view does not hold: a
null output. -/
def Coin.empty : Coin := ⟨⟨-1, []⟩, 0, false, false, 0⟩

/-- `IsSpent()`: the output is null. -/
def Coin.isSpent (coin : Coin) : Bool := coin.out.nValue == -1

/-- `CScript::IsUnspendable()`. -/
def isUnspendable (script : CScript) : Bool :=
  script.head? == some OP_RETURN || script.length > MAX_SCRIPT_SIZE

/-- `CCoinsViewCache`: the unspent coins by outpoint, and the block the view
stands at. -/
structure CCoinsViewCache where
  /-- The unspent coins. -/
  coins : COutPoint → Option Coin
  /-- `GetBestBlock()`. -/
  hashBlock : uint256

namespace CCoinsViewCache

/-- `AccessCoin(outpoint)`. -/
def accessCoin (view : CCoinsViewCache) (o : COutPoint) : Coin := (view.coins o).getD Coin.empty

/-- `HaveCoin(outpoint)`. -/
def haveCoin (view : CCoinsViewCache) (o : COutPoint) : Bool := (view.coins o).isSome

/-- `HaveInputs(tx)`. -/
def haveInputs (view : CCoinsViewCache) (tx : CTransaction) : Bool :=
  tx.isCoinBase || tx.vin.all fun txin => view.haveCoin txin.prevout

/-- `GetValueIn(tx)`: the sum of the spent coins' values, zero for a
coinbase. -/
def getValueIn (view : CCoinsViewCache) (tx : CTransaction) : Int :=
  if tx.isCoinBase then 0 else (tx.vin.map fun txin => (view.accessCoin txin.prevout).out.nValue).sum

/-- `SpendCoin(outpoint)`: `none` for the `false` return on a coin the view
does not hold. -/
def spendCoin (view : CCoinsViewCache) (o : COutPoint) : Option CCoinsViewCache :=
  if view.haveCoin o then some { view with coins := fun o' => if o' = o then none else view.coins o' }
  else none

/-- `AddCoin(outpoint, coin, possible_overwrite)`: an unspendable output is
dropped, and overwriting an unspent coin without leave throws. -/
def addCoin (view : CCoinsViewCache) (o : COutPoint) (coin : Coin) (possible_overwrite : Bool) :
    Faulty CCoinsViewCache := do
  Fault.check !coin.isSpent
  if isUnspendable coin.out.scriptPubKey then pure view
  else if !possible_overwrite && view.haveCoin o then
    throw (.exception "Adding new coin that replaces non-pruned entry")
  else pure { view with coins := fun o' => if o' = o then some coin else view.coins o' }

/-- Spending a coin the view holds removes that outpoint and nothing else. -/
theorem spendCoin_of_coins {view : CCoinsViewCache} {o : COutPoint} {coin : Coin}
    (h : view.coins o = some coin) :
    view.spendCoin o = some { view with coins := fun o' => if o' = o then none else view.coins o' } := by
  simp [spendCoin, haveCoin, h]

/-- Adding an unspent, spendable coin, with leave to overwrite or at an
outpoint the view does not hold, sets that outpoint and nothing else. -/
theorem addCoin_of_fresh {view : CCoinsViewCache} {o : COutPoint} {coin : Coin}
    {possible_overwrite : Bool} (hunspent : coin.isSpent = false)
    (hspendable : isUnspendable coin.out.scriptPubKey = false)
    (hfresh : possible_overwrite = true ∨ view.coins o = none) :
    view.addCoin o coin possible_overwrite =
      .ok { view with coins := fun o' => if o' = o then some coin else view.coins o' } := by
  rcases hfresh with hover | hnone
  · simp [addCoin, hunspent, hspendable, hover]
  · simp [addCoin, hunspent, hspendable, haveCoin, hnone]

end CCoinsViewCache

/-- The loop of `AddCoins`: output `i` onwards, as coins `coinOf out`. -/
def addCoinsFrom (txid : uint256) (coinOf : CTxOut → Coin) (overwrite : Bool) :
    Nat → List CTxOut → CCoinsViewCache → Faulty CCoinsViewCache
  | _, [], view => pure view
  | i, out :: rest, view => do
      let view ← view.addCoin ⟨txid, UInt32.ofNat i⟩ (coinOf out) overwrite
      addCoinsFrom txid coinOf overwrite (i + 1) rest view

/-- `AddCoins(view, tx, nHeight)`, with `check` false: a coinbase may
overwrite. -/
def addCoins (view : CCoinsViewCache) (tx : CTransaction) (nHeight : Int) : Faulty CCoinsViewCache :=
  addCoinsFrom tx.getHash (fun out => ⟨out, nHeight, tx.isCoinBase, tx.isCoinStake, tx.nTime⟩)
    tx.isCoinBase 0 tx.vout view

/-- The input loop of `UpdateCoins`: every input is spent, asserted. -/
def spendInputs : List CTxIn → CCoinsViewCache → Faulty CCoinsViewCache
  | [], view => pure view
  | txin :: rest, view =>
      match view.spendCoin txin.prevout with
      | some view => spendInputs rest view
      | none => .error .assertion

/-- `UpdateCoins(tx, view, txundo, nHeight)`. -/
def updateCoins (tx : CTransaction) (view : CCoinsViewCache) (nHeight : Int) :
    Faulty CCoinsViewCache := do
  let view ← if tx.isCoinBase then pure view else spendInputs tx.vin view
  addCoins view tx nHeight

/-- `tx.GetValueOut()` inside validation: its `std::runtime_error` escapes. -/
def valueOut (tx : CTransaction) : Faulty Int := tx.getValueOut.mapError .exception

/-- A transaction with one output in range has that output's value. -/
theorem valueOut_of_vout_singleton {tx : CTransaction} {txout : CTxOut} (hvout : tx.vout = [txout])
    (hrange : moneyRange txout.nValue = true) : valueOut tx = .ok txout.nValue := by
  simp [valueOut, CTransaction.getValueOut, hvout, hrange, Except.mapError]

/-! ## `CheckTxInputs` -/

/-- A check of `CheckTxInputs`: a reject reason, above a possible fault. -/
abbrev TxCheck := ExceptT String Faulty

/-- The input loop of `CheckTxInputs(tx, state, inputs, nSpendHeight, ...)`:
maturity of a spent coinbase or coinstake, the ppcoin timestamp, and the
range of each value and of the running sum. -/
def checkInputValues (view : CCoinsViewCache) (nSpendHeight : Int) (params : Params)
    (tx : CTransaction) : Int → List CTxIn → TxCheck Int
  | nValueIn, [] => pure nValueIn
  | nValueIn, txin :: rest => do
      let coin := view.accessCoin txin.prevout
      ExceptT.lift (Fault.check !coin.isSpent)
      rejectIfT ((coin.fCoinBase || coin.fCoinStake) && nSpendHeight - coin.nHeight < params.nMaturity)
        "bad-txns-premature-spend-of-coinbase/coinstake"
      rejectIfT (coin.nTime > tx.nTime) "bad-txns-spent-too-early"
      rejectIfT (!moneyRange coin.out.nValue || !moneyRange (nValueIn + coin.out.nValue))
        "bad-txns-inputvalues-outofrange"
      checkInputValues view nSpendHeight params tx (nValueIn + coin.out.nValue) rest

/-- `Consensus::CheckTxInputs(...)`: the fee.  A coinstake skips the
comparison of value in and value out, and its fee stays the caller's zero. -/
def checkTxInputs (tx : CTransaction) (view : CCoinsViewCache) (nSpendHeight : Int)
    (params : Params) : TxCheck Int := do
  rejectIfT (!view.haveInputs tx) "bad-txns-inputs-missingorspent"
  let nValueIn ← checkInputValues view nSpendHeight params tx 0 tx.vin
  if tx.isCoinStake then pure 0
  else do
    let value_out ← ExceptT.lift (valueOut tx)
    rejectIfT (nValueIn < value_out) "bad-txns-in-belowout"
    rejectIfT (!moneyRange (nValueIn - value_out)) "bad-txns-fee-outofrange"
    pure (nValueIn - value_out)

/-! ## `GetCoinAge` -/

/-- `arith_uint256(x)` of an `int64_t`, through `uint64_t`. -/
def arithOfInt64 (x : Int) : Nat := (x % 2 ^ 64).toNat

/-- `a * b` of an `arith_uint256` and a value converted to `uint32_t`. -/
def arithMul32 (a : Nat) (b : Int) : Nat := a * (b % 2 ^ 32).toNat % 2 ^ 256

/-- The input loop of `GetCoinAge`: the coin age in cent-seconds before
`PoSTHeight` and in factored coin-days after it.  An input missing from the
view is skipped, and so is one younger than `nStakeMinAge`; `none` is a
`false` return. -/
def coinAgeLoop (params : Params) (m : BlockMap) (index : uint256 → Option TxIndexEntry)
    (view : CCoinsViewCache) (tx : CTransaction) (pindexPrev : CBlockIndex) :
    List CTxIn → Nat → Nat → KernelM (Option (Nat × Nat))
  | [], bnCentSecond, bnCoinDay => pure (some (bnCentSecond, bnCoinDay))
  | txin :: rest, bnCentSecond, bnCoinDay =>
      match view.coins txin.prevout with
      | none => coinAgeLoop params m index view tx pindexPrev rest bnCentSecond bnCoinDay
      | some coin =>
          if tx.nTime < coin.nTime then pure none
          else
            match index txin.prevout.hash with
            | none => pure none
            | some entry =>
                if entry.txPrev.getHash != txin.prevout.hash then pure none
                else if entry.header.getBlockTime + params.nStakeMinAge > tx.nTime.toNat then
                  coinAgeLoop params m index view tx pindexPrev rest bnCentSecond bnCoinDay
                else do
                  let txout ← liftFaulty (Fault.index entry.txPrev.vout txin.prevout.n.toNat)
                  let nValueIn := txout.nValue
                  let timeWeight : Int := (tx.nTime - entry.txPrev.nTime).toInt32.toInt
                  if pindexPrev.nHeight + 1 > params.PoSTHeight then
                    let CoinDay := ((nValueIn * timeWeight).tdiv COIN).tdiv (24 * 60 * 60)
                    let factoredTimeWeight ← liftCache
                      (getStakeTimeFactoredWeight params m timeWeight CoinDay pindexPrev)
                    let added := arithMul32 (arithOfInt64 nValueIn) factoredTimeWeight /
                      arithOfInt64 COIN / (24 * 60 * 60)
                    coinAgeLoop params m index view tx pindexPrev rest bnCentSecond
                      ((bnCoinDay + added) % 2 ^ 256)
                  else
                    let added := arithMul32 (arithOfInt64 nValueIn) timeWeight / arithOfInt64 CENT
                    coinAgeLoop params m index view tx pindexPrev rest ((bnCentSecond + added) % 2 ^ 256)
                      bnCoinDay

/-- `GetCoinAge(tx, view, nCoinAge, pindexPrev)`: the coin age as
`GetLow64()`, or `none` for a `false` return. -/
def getCoinAge (params : Params) (m : BlockMap) (txindex : TxIndex) (view : CCoinsViewCache)
    (tx : CTransaction) (pindexPrev : CBlockIndex) : KernelM (Option Nat) :=
  if tx.isCoinBase then pure (some 0)
  else
    match txindex with
    | none => pure none
    | some index => do
        let ages ← coinAgeLoop params m index view tx pindexPrev tx.vin 0 0
        pure <| ages.map fun (bnCentSecond, bnCoinDay) =>
          let bnCoinDay :=
            if pindexPrev.nHeight + 1 ≤ params.PoSTHeight then
              arithMul32 bnCentSecond CENT / arithOfInt64 COIN / (24 * 60 * 60)
            else bnCoinDay
          bnCoinDay % 2 ^ 64

/-! ## Sequence locks -/

/-- `LOCKTIME_VERIFY_SEQUENCE`. -/
def LOCKTIME_VERIFY_SEQUENCE : Nat := 1 <<< 0

/-- `CTxIn::SEQUENCE_LOCKTIME_DISABLE_FLAG`. -/
def SEQUENCE_LOCKTIME_DISABLE_FLAG : UInt32 := (1 : UInt32) <<< 31

/-- `CTxIn::SEQUENCE_LOCKTIME_TYPE_FLAG`. -/
def SEQUENCE_LOCKTIME_TYPE_FLAG : UInt32 := (1 : UInt32) <<< 22

/-- `CTxIn::SEQUENCE_LOCKTIME_MASK`. -/
def SEQUENCE_LOCKTIME_MASK : UInt32 := 0x0000ffff

/-- `CTxIn::SEQUENCE_LOCKTIME_GRANULARITY`. -/
def SEQUENCE_LOCKTIME_GRANULARITY : Nat := 9

/-- The input loop of `CalculateSequenceLocks`: the last invalid height and
time of the relative locks. -/
def sequenceLockLoop (m : BlockMap) (block : CBlockIndex) :
    List (CTxIn × Int) → Int → Int → Faulty (Int × Int)
  | [], nMinHeight, nMinTime => pure (nMinHeight, nMinTime)
  | (txin, nCoinHeight) :: rest, nMinHeight, nMinTime =>
      if txin.nSequence &&& SEQUENCE_LOCKTIME_DISABLE_FLAG != 0 then
        sequenceLockLoop m block rest nMinHeight nMinTime
      else if txin.nSequence &&& SEQUENCE_LOCKTIME_TYPE_FLAG != 0 then do
        let ancestor ← Fault.deref (m.getAncestor block (max (nCoinHeight - 1) 0))
        let nCoinTime := m.getMedianTimePast ancestor
        let nLock : Int := ((txin.nSequence &&& SEQUENCE_LOCKTIME_MASK).toNat <<< SEQUENCE_LOCKTIME_GRANULARITY)
        sequenceLockLoop m block rest nMinHeight (max nMinTime (nCoinTime + nLock - 1))
      else
        sequenceLockLoop m block rest
          (max nMinHeight (nCoinHeight + (txin.nSequence &&& SEQUENCE_LOCKTIME_MASK).toNat - 1)) nMinTime

/-- `CalculateSequenceLocks(tx, flags, prevHeights, block)`: no lock unless
the version is at least 2 and the flags enforce BIP68. -/
def calculateSequenceLocks (m : BlockMap) (tx : CTransaction) (flags : Nat) (prevHeights : List Int)
    (block : CBlockIndex) : Faulty (Int × Int) := do
  Fault.check (prevHeights.length == tx.vin.length)
  let fEnforceBIP68 := tx.nVersion.toUInt32 ≥ 2 && flags &&& LOCKTIME_VERIFY_SEQUENCE != 0
  if !fEnforceBIP68 then pure (-1, -1)
  else sequenceLockLoop m block (tx.vin.zip prevHeights) (-1) (-1)

/-- `EvaluateSequenceLocks(block, lockPair)`. -/
def evaluateSequenceLocks (m : BlockMap) (block : CBlockIndex) (lockPair : Int × Int) : Faulty Bool := do
  Fault.check block.pprev.isSome
  let pprev ← Fault.deref (m.prev block)
  let nBlockTime := m.getMedianTimePast pprev
  pure !(decide (lockPair.1 ≥ block.nHeight) || decide (lockPair.2 ≥ nBlockTime))

/-- `SequenceLocks(tx, flags, prevHeights, block)`. -/
def sequenceLocks (m : BlockMap) (tx : CTransaction) (flags : Nat) (prevHeights : List Int)
    (block : CBlockIndex) : Faulty Bool := do
  let lockPair ← calculateSequenceLocks m tx flags prevHeights block
  evaluateSequenceLocks m block lockPair

/-! ## Fees, signature operations and script checks -/

/-- `MIN_TX_FEE`: per kilobyte, Verium's and Vericoin's. -/
def MIN_TX_FEE (IsVericoin : Bool) : Int := if IsVericoin then 10000 else 20000000

/-- `VIP1_MIN_TX_FEE`. -/
def VIP1_MIN_TX_FEE (IsVericoin : Bool) : Int := if IsVericoin then 10000 else 100000

/-- `GetMinTxFee(nBlockHeight)`: height zero stands for the next block of the
active chain of height `chainHeight`. -/
def getMinTxFee (IsVericoin : Bool) (params : Params) (chainHeight nBlockHeight : Int) : Int :=
  let nBlockHeight := if nBlockHeight == 0 then chainHeight + 1 else nBlockHeight
  if nBlockHeight < params.VIP1Height then MIN_TX_FEE IsVericoin else VIP1_MIN_TX_FEE IsVericoin

/-- `CFeeRate(nSatoshisPerK).GetFee(nBytes, addStartFee)`: whole kilobytes,
the start fee once more when asked, and at least one satoshi of the rate's
sign. -/
def getFee (nSatoshisPerK : Int) (nBytes : Nat) (addStartFee : Bool) : Int :=
  let nFee := nSatoshisPerK * (nBytes / 1000 : Nat)
  let nFee := if addStartFee then nFee + nSatoshisPerK else nFee
  if nFee == 0 && nBytes != 0 then
    if nSatoshisPerK > 0 then 1 else if nSatoshisPerK < 0 then -1 else nFee
  else nFee

/-- What connecting reaches outside this model: the functions of
`CheckBlock`, the interpreter with the signature checker of an input, the
counts of P2SH and witness signature operations, the size of a transaction
with its witness, and the height of the active chain. -/
structure ConnectEnv where
  /-- The outside functions of `CheckBlock`. -/
  checkEnv : CheckBlockEnv
  /-- The interpreter with `CachingTransactionSignatureChecker(&tx, nIn, amount)`. -/
  scriptEnv : CTransaction → Nat → Int → ScriptEnv
  /-- `scriptPubKey.GetSigOpCount(scriptSig)`, for a P2SH output. -/
  p2shSigOpCount : CScript → CScript → Nat
  /-- `CountWitnessSigOps(scriptSig, scriptPubKey, &witness, flags)` under the witness flag. -/
  witnessSigOps : CScript → CScript → Stack → UInt32 → Nat
  /-- `GetTotalSize()`. -/
  txTotalSize : CTransaction → Nat
  /-- `ChainActive().Height()`. -/
  chainHeight : Int

/-- `GetTransactionSigOpCost(tx, inputs, flags)`. -/
def getTransactionSigOpCost (env : ConnectEnv) (tx : CTransaction) (view : CCoinsViewCache)
    (flags : UInt32) : Nat :=
  let nSigOps := getLegacySigOpCount env.checkEnv.sigOpCount tx * WITNESS_SCALE_FACTOR
  if tx.isCoinBase then nSigOps
  else
    let nP2SH :=
      if hasFlag flags SCRIPT_VERIFY_P2SH then
        (tx.vin.map fun txin =>
          let prevout := (view.accessCoin txin.prevout).out
          if isPayToScriptHash prevout.scriptPubKey then
            env.p2shSigOpCount prevout.scriptPubKey txin.scriptSig
          else 0).sum * WITNESS_SCALE_FACTOR
      else 0
    let nWitness :=
      if hasFlag flags SCRIPT_VERIFY_WITNESS then
        (tx.vin.map fun txin =>
          env.witnessSigOps txin.scriptSig (view.accessCoin txin.prevout).out.scriptPubKey
            txin.scriptWitness flags).sum
      else 0
    nSigOps + nP2SH + nWitness

/-- `CScriptCheck`: an input of a transaction, the output it spends and the
flags. -/
structure ScriptCheck where
  /-- `m_tx_out`. -/
  txout : CTxOut
  ptxTo : CTransaction
  nIn : Nat
  nFlags : UInt32

/-- `CScriptCheck::operator()`: `VerifyScript` of the input. -/
def runScriptCheck (env : ConnectEnv) (check : ScriptCheck) : Faulty Bool := do
  let txin ← Fault.index check.ptxTo.vin check.nIn
  let result ← (verifyScript (env.scriptEnv check.ptxTo check.nIn check.txout.nValue) txin.scriptSig
    check.txout.scriptPubKey txin.scriptWitness check.nFlags).run
  pure result.isOk

/-- The checks `CheckInputScripts` hands to the queue, input `i` onwards;
each spent coin is asserted unspent. -/
def inputScriptChecks (view : CCoinsViewCache) (tx : CTransaction) (flags : UInt32) :
    Nat → List CTxIn → Faulty (List ScriptCheck)
  | _, [] => pure []
  | i, txin :: rest => do
      let coin := view.accessCoin txin.prevout
      Fault.check !coin.isSpent
      let checks ← inputScriptChecks view tx flags (i + 1) rest
      pure (⟨coin.out, tx, i, flags⟩ :: checks)

/-- `control.Wait()`: every queued check passes. -/
def scriptChecksPass (env : ConnectEnv) : List ScriptCheck → Faulty Bool
  | [] => pure true
  | check :: rest => do
      let ok ← runScriptCheck env check
      if ok then scriptChecksPass env rest else pure false

/-! ## The walk over the transactions -/

/-- The tallies of the walk and the view it has reached. -/
structure Tally where
  nFees : Int
  nValueIn : Int
  nValueOut : Int
  nSigOpsCost : Nat
  nStakeReward : Int
  /-- The checks handed to `control`. -/
  vChecks : List ScriptCheck
  /-- The view. -/
  view : CCoinsViewCache

/-- The tallies at the start of the walk. -/
def Tally.initial (view : CCoinsViewCache) : Tally := ⟨0, 0, 0, 0, 0, [], view⟩

/-- The value out of a transaction and the stake reward after it: below
height 299000 a coinstake's value out loses a 2% drift buffer, in `double`. -/
def stakeValueOut (currentHeight : Int) (tx : CTransaction) (nTxValueIn nTxValueOut nStakeReward : Int) :
    Int × Int :=
  if tx.isCoinStake && currentHeight < 299000 then
    let nNetworkDriftBuffer := Float.ofInt nTxValueOut * 0.02
    let nTxValueOut := (Float.ofInt nTxValueOut - nNetworkDriftBuffer).toInt64.toInt
    (nTxValueOut, nTxValueOut - nTxValueIn)
  else if tx.isCoinStake then (nTxValueOut, nTxValueOut - nTxValueIn)
  else (nTxValueOut, nStakeReward)

@[simp] theorem ValidationM.fault_ok {α : Type} (a : α) : ValidationM.fault (.ok a) = pure a := rfl

@[simp] theorem StakeM.fault_ok {α : Type} (a : α) : StakeM.fault (.ok a) = pure a := rfl

/-- A validation on the view of the walk: `CheckTxInputs`' reason becomes the
block's. -/
def TxCheck.toBlock {α : Type} (x : TxCheck α) : ValidationM α :=
  ExceptT.mk ((x.run).map (·.mapError (.invalid .BLOCK_CONSENSUS)))

@[simp] theorem TxCheck.toBlock_pure {α : Type} (a : α) : TxCheck.toBlock (pure a : TxCheck α) = pure a :=
  rfl

section Walk

variable (env : ConnectEnv) (IsVericoin : Bool) (params : Params) (m : BlockMap) (pindex : CBlockIndex)
  (currentHeight : Int) (flags : UInt32) (nLockTimeFlags : Nat) (fScriptChecks : Bool)

/-- The coinbase adds its value out. -/
def tallyCoinbase (tx : CTransaction) (t : Tally) : ValidationM Tally := do
  let out ← ValidationM.fault (valueOut tx)
  pure { t with nValueOut := t.nValueOut + out }

/-- Another transaction: `CheckTxInputs`, its value in and out, the stake
reward of a coinstake, the fee of any other, the fee range, and BIP68. -/
def tallyInputs (tx : CTransaction) (t : Tally) : ValidationM Tally := do
  let _txfee ← (checkTxInputs tx t.view pindex.nHeight params).toBlock
  let nTxValueIn := t.view.getValueIn tx
  let nTxValueOut ← ValidationM.fault (valueOut tx)
  let (nTxValueOut, nStakeReward) := stakeValueOut currentHeight tx nTxValueIn nTxValueOut t.nStakeReward
  let nFees := if tx.isCoinStake then t.nFees else t.nFees + (nTxValueIn - nTxValueOut)
  rejectIfT (!moneyRange nFees) (.invalid .BLOCK_CONSENSUS "bad-txns-accumulated-fee-outofrange")
  let prevheights := tx.vin.map fun txin => (t.view.accessCoin txin.prevout).nHeight
  let fLocks ← ValidationM.fault (sequenceLocks m tx nLockTimeFlags prevheights pindex)
  rejectIfT (!fLocks) (.invalid .BLOCK_CONSENSUS "bad-txns-nonfinal")
  pure { t with
    nValueIn := t.nValueIn + nTxValueIn
    nValueOut := t.nValueOut + nTxValueOut
    nFees := nFees
    nStakeReward := nStakeReward }

/-- The value part of the loop body. -/
def tallyValues (tx : CTransaction) (t : Tally) : ValidationM Tally :=
  if tx.isCoinBase then tallyCoinbase tx t
  else tallyInputs params m pindex currentHeight nLockTimeFlags tx t

/-- The script checks of a transaction other than the coinbase, when
scripts are checked. -/
def scriptChecksOf (tx : CTransaction) (view : CCoinsViewCache) : Faulty (List ScriptCheck) :=
  if !fScriptChecks || tx.isCoinBase then pure [] else inputScriptChecks view tx flags 0 tx.vin

/-- The minimum fee of a transaction other than the coinbase and the
coinstake, when scripts are checked. -/
def checkFee (tx : CTransaction) (view : CCoinsViewCache) : ValidationM Unit :=
  if fScriptChecks && !tx.isCoinBase && !tx.isCoinStake then do
    let nTxValueOut ← ValidationM.fault (valueOut tx)
    let requiredFee :=
      getFee (getMinTxFee IsVericoin params env.chainHeight pindex.nHeight) (env.txTotalSize tx) true
    rejectIfT (view.getValueIn tx - nTxValueOut < requiredFee)
      (.invalid .BLOCK_CONSENSUS "bad-fee-amount")
  else pure ()

/-- One turn of the loop of `ConnectBlock`. -/
def connectTx (tx : CTransaction) (t : Tally) : ValidationM Tally := do
  let t ← tallyValues params m pindex currentHeight nLockTimeFlags tx t
  let nSigOpsCost := t.nSigOpsCost + getTransactionSigOpCost env tx t.view flags
  rejectIfT (nSigOpsCost > MAX_BLOCK_SIGOPS_COST) (.invalid .BLOCK_CONSENSUS "bad-blk-sigops")
  let checks ← ValidationM.fault (scriptChecksOf flags fScriptChecks tx t.view)
  checkFee env IsVericoin params pindex fScriptChecks tx t.view
  let view ← ValidationM.fault (updateCoins tx t.view pindex.nHeight)
  pure { t with nSigOpsCost := nSigOpsCost, vChecks := t.vChecks ++ checks, view := view }

/-- The loop of `ConnectBlock` over the transactions. -/
def connectTransactions : List CTransaction → Tally → ValidationM Tally
  | [], t => pure t
  | tx :: rest, t => do
      let t ← connectTx env IsVericoin params m pindex currentHeight flags nLockTimeFlags fScriptChecks tx t
      connectTransactions rest t

end Walk

/-! ## `ConnectBlock` -/

/-- A validation inside connecting, which also reads the weight cache. -/
def StakeM.validate {α : Type} (x : ValidationM α) : StakeM α := ExceptT.mk (liftFaulty x.run)

@[simp] theorem StakeM.validate_pure {α : Type} (a : α) : StakeM.validate (pure a : ValidationM α) = pure a :=
  rfl

section Connect

variable (env : ConnectEnv) (H : Hashers) (IsVericoin : Bool) (params : Params) (senv : StakeEnv)
  (m : BlockMap) (chainActive : CChain) (txindex : TxIndex)

/-- `CheckBlock(block, state, params, !fJustCheck, !fJustCheck)` at the start
of `ConnectBlock`; a mutated block aborts the node. -/
def connectCheckBlock (block : CBlock) (fJustCheck : Bool) : StakeM Unit :=
  match (checkBlock env.checkEnv H IsVericoin params block (!fJustCheck) (!fJustCheck) true).1 with
  | .ok () => pure ()
  | .error (.invalid .BLOCK_MUTATED _) =>
      throw (.failed "Corrupt block found indicating potential hardware failure; shutting down")
  | .error e => throw e

/-- The coin age of a stake block's coinstake, zero for a work block. -/
def coinAgeOfBlock (block : CBlock) (view : CCoinsViewCache) (pprev : CBlockIndex) : StakeM Nat :=
  if block.isProofOfStake IsVericoin then do
    let tx1 ← StakeM.fault (Fault.index block.vtx 1)
    let age ← ExceptT.lift (getCoinAge params m txindex view tx1 pprev)
    match age with
    | some nCoinAge => pure nCoinAge
    | none => throw (.invalid .BLOCK_CONSENSUS "unable to get coin age for coinstake")
  else pure 0

/-- `nCoinAge` as the `int64_t` argument of `GetProofOfStakeReward`. -/
def coinAgeArg (nCoinAge : Nat) : Int := (UInt64.ofNat nCoinAge).toInt64.toInt

/-- The reward checks after the loop: the coinbase against the work reward
plus the fees (zero in a stake block), and the stake reward against
`GetProofOfStakeReward`. -/
def rewardChecks (block : CBlock) (pprev : CBlockIndex) (nCoinAge : Nat) (t : Tally) : StakeM Unit := do
  let tx0 ← StakeM.fault (Fault.index block.vtx 0)
  let cbOut ← StakeM.fault (valueOut tx0)
  rejectIfT (cbOut > (if block.isProofOfWork IsVericoin then getProofOfWorkReward IsVericoin t.nFees pprev
      else 0))
    (.invalid .BLOCK_CONSENSUS "bad-cb-amount")
  if block.isProofOfStake IsVericoin then
    let reward ← ExceptT.lift (liftCache (getProofOfStakeReward params m (coinAgeArg nCoinAge) t.nFees pprev))
    rejectIfT (t.nStakeReward > reward) (.invalid .BLOCK_CONSENSUS "bad-txns-coinstake-too-large")

/-- The money supply and mint written to the entry, the validity raised to
`BLOCK_VALID_SCRIPTS`, and the view moved to the block. -/
def recordSupply (pindex pprev : CBlockIndex) (t : Tally) : Faulty (CBlockIndex × CCoinsViewCache) := do
  let pindex := { pindex with
    nMint := t.nValueOut - t.nValueIn + t.nFees
    nMoneySupply := pprev.nMoneySupply + t.nValueOut - t.nValueIn }
  let pindex := if !pindex.isValid BLOCK_VALID_SCRIPTS then pindex.raiseValidity BLOCK_VALID_SCRIPTS
    else pindex
  Fault.check pindex.phashBlock.isSome
  pure (pindex, { t.view with hashBlock := pindex.getBlockHash })

/-- The record writes the mint and the supply from the tallies, keeps the
entry's hash, which it asserts, and moves the view to it. -/
theorem recordSupply_ok {pindex : CBlockIndex} (pprev : CBlockIndex) (t : Tally)
    (hset : pindex.phashBlock.isSome) :
    ∃ recorded, recordSupply pindex pprev t =
        .ok (recorded, { t.view with hashBlock := pindex.getBlockHash }) ∧
      recorded.nMint = t.nValueOut - t.nValueIn + t.nFees ∧
      recorded.nMoneySupply = pprev.nMoneySupply + t.nValueOut - t.nValueIn := by
  let written : CBlockIndex := { pindex with
    nMint := t.nValueOut - t.nValueIn + t.nFees
    nMoneySupply := pprev.nMoneySupply + t.nValueOut - t.nValueIn }
  have hwritten : written.phashBlock.isSome = true := hset
  by_cases hvalid : written.isValid BLOCK_VALID_SCRIPTS = true
  · refine ⟨written, ?_, rfl, rfl⟩
    simp only [recordSupply]
    rw [if_neg (by simpa [written] using hvalid)]
    simp [written, hset, CBlockIndex.getBlockHash]
  · obtain ⟨nStatus, hraise⟩ := written.raiseValidity_eq_nStatus BLOCK_VALID_SCRIPTS
    refine ⟨{ written with nStatus := nStatus }, ?_, rfl, rfl⟩
    simp only [recordSupply]
    rw [if_pos (by simpa [written] using hvalid)]
    simp only [written] at hraise
    simp [hraise, hset, CBlockIndex.getBlockHash, written]

/-- `ConnectBlock` past the genesis case: the loop, the reward checks, the
queued script checks, and the record. -/
def connectBody (block : CBlock) (pindex : CBlockIndex) (view : CCoinsViewCache) (fJustCheck fScriptChecks : Bool) :
    StakeM (CBlockIndex × CCoinsViewCache) := do
  let nLockTimeFlags := if pindex.nHeight ≥ params.CSVHeight then LOCKTIME_VERIFY_SEQUENCE else 0
  let flags := getBlockScriptFlags pindex params
  let pprev ← StakeM.fault (Fault.deref (m.prev pindex))
  let nCoinAge ← coinAgeOfBlock IsVericoin params m txindex block view pprev
  let t ← StakeM.validate (connectTransactions env IsVericoin params m pindex (pprev.nHeight + 1) flags
    nLockTimeFlags fScriptChecks block.vtx (Tally.initial view))
  rewardChecks IsVericoin params m block pprev nCoinAge t
  let fChecksOk ← StakeM.fault (scriptChecksPass env t.vChecks)
  rejectIfT (!fChecksOk) (.invalid .BLOCK_CONSENSUS "block-validation-failed")
  if fJustCheck then pure (pindex, t.view)
  else StakeM.fault (recordSupply pindex pprev t)

/-- The stake checks at the start of `ConnectBlock`, made on Vericoin for an
entry whose stake modifier and checksum are both still zero. -/
def connectStakeChecks (block : CBlock) (pindex : CBlockIndex) (fJustCheck : Bool) :
    StakeM CBlockIndex :=
  if params.fIsVericoin && pindex.nStakeModifier == 0 && pindex.nStakeModifierChecksum == 0 then
    vericoinContextualBlockChecks H IsVericoin params senv m chainActive txindex block pindex fJustCheck
  else pure pindex

/-- `CChainState::ConnectBlock(block, state, pindex, view, chainparams,
fJustCheck)`: the entry and the view as the call leaves them.
`fScriptChecks` is what the assumed-valid block decides. -/
def connectBlock (block : CBlock) (pindex : CBlockIndex) (view : CCoinsViewCache)
    (fJustCheck fScriptChecks : Bool) : StakeM (CBlockIndex × CCoinsViewCache) := do
  let phashBlock ← StakeM.fault (Fault.deref pindex.phashBlock)
  StakeM.fault (Fault.check (phashBlock == block.getHash H IsVericoin))
  let pindex ← connectStakeChecks H IsVericoin params senv m chainActive txindex block pindex fJustCheck
  connectCheckBlock env H IsVericoin params block fJustCheck
  let hashPrevBlock := pindex.pprev.getD uint256.zero
  StakeM.fault (Fault.check (hashPrevBlock == view.hashBlock))
  -- the genesis block's coinbase is not connected
  if block.getHash H IsVericoin == params.hashGenesisBlock then
    pure (pindex, if !fJustCheck then { view with hashBlock := pindex.getBlockHash } else view)
  else connectBody env IsVericoin params m txindex block pindex view fJustCheck fScriptChecks

end Connect

end Veribase
