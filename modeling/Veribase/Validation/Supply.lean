import Veribase.Validation.ConnectBlock

/-!
# The money supply of a connected block

`ConnectBlock` records in the entry the value the block creates less the
value it spends, `nValueOut - nValueIn`, as the growth of the money supply.
Both tallies are sums over every transaction of the block, kept in
`int64_t`.  A transaction other than the coinbase brings its inputs into
`nValueIn` once `CheckTxInputs` has found each of them, and their sum, in
`[0, MAX_MONEY]`; nothing bounds the sum over the block but the number of
transactions the size limit leaves room for.

A chain of spends inside one block passes one coin of `MAX_MONEY` on from
each transaction to the next, each paying the minimum fee.  Every input and
every fee is in range, and `ConnectBlock` connects a block of 4400 of them,
of 291 kilobytes, while its `nValueIn` and `nValueOut` pass `2^63`
(`connectBlock_nValueIn_overflow`): the two additions overflow `int64_t`.
-/

namespace Veribase

open Checks

/-! ## A chain of spends inside one block -/

section Chain

/-- The minimum fee of a transaction under a kilobyte from `VIP1Height`:
`VIP1_MIN_TX_FEE`, the start fee `GetFee` adds. -/
def chainFee : Int := 10000

/-- How many such fees `MAX_MONEY` pays. -/
def chainBound : Nat := 210000000000

/-- The value left of `MAX_MONEY` after `i` fees. -/
def chainValue (i : Nat) : Int := MAX_MONEY - i * chainFee

/-- The output script `<01>`: a push of a true value. -/
def anyoneCanSpend : CScript := pushData [1]

/-- The time of the block and of its transactions. -/
def chainTime : UInt32 := 1600000000

/-- The outpoint spend `i` spends: the funding coin for the first, the
output of spend `i - 1` after it. -/
def chainOutpoint : Nat → COutPoint
  | 0 => ⟨smallKey 3, 0⟩
  | i + 1 => ⟨smallKey (i + 16), 0⟩

/-- Spend `i`: one input, one output paying on all but the fee. -/
def chainTx (i : Nat) : CTransaction where
  nVersion := 1
  nTime := chainTime
  vin := [⟨chainOutpoint i, [], SEQUENCE_FINAL, []⟩]
  vout := [⟨chainValue (i + 1), anyoneCanSpend⟩]
  nLockTime := 0
  hash := smallKey (i + 16)

/-- The coin spend `i` spends. -/
def chainCoin : Nat → Coin
  | 0 => ⟨⟨chainValue 0, anyoneCanSpend⟩, 1, false, false, chainTime⟩
  | i + 1 => ⟨⟨chainValue (i + 1), anyoneCanSpend⟩, 299000, false, false, chainTime⟩

/-- The coinbase: the height in its script, and the work reward without the
fees. -/
def chainCoinbase : CTransaction where
  nVersion := 1
  nTime := chainTime
  vin := [⟨⟨uint256.zero, COutPoint.NULL_INDEX⟩, pushInt64 299000, SEQUENCE_FINAL, []⟩]
  vout := [⟨2500 * COIN, anyoneCanSpend⟩]
  nLockTime := 0
  hash := smallKey 4

/-- The coinbase's output. -/
def coinbaseOutpoint : COutPoint := ⟨smallKey 4, 0⟩

/-- The coin the coinbase creates. -/
def coinbaseCoin : Coin := ⟨⟨2500 * COIN, anyoneCanSpend⟩, 299000, true, false, chainTime⟩

/-- A work block at height 299000: the coinbase, then `n` spends. -/
def chainBlock (n : Nat) : CBlock :=
  { CBlock.ofHeader { CBlockHeader.null with
      hashPrevBlock := smallKey 2
      nTime := chainTime
      nBits := getCompact (2 ^ 236) } with
    vtx := chainCoinbase :: (List.range n).map chainTx }

/-- The block before it, at height 298999. -/
def supplyPrev : CBlockIndex := smallEntry 2 none 298999 chainTime

/-- The index holding that block. -/
def supplyMap : BlockMap := BlockMap.ofList [supplyPrev]

/-- The entry of the block, its stake modifier written by `AcceptBlock`. -/
def chainEntry : CBlockIndex := { smallEntry 0 (some 2) 299000 chainTime with nStakeModifier := 7 }

/-- The coins before the block: the funding coin alone. -/
def fundingView : CCoinsViewCache where
  coins o := if o = chainOutpoint 0 then some (chainCoin 0) else none
  hashBlock := smallKey 2

/-- The coins after the coinbase and `i` spends. -/
def chainView (i : Nat) : CCoinsViewCache where
  coins o := if o = coinbaseOutpoint then some coinbaseCoin
    else if o = chainOutpoint i then some (chainCoin i) else none
  hashBlock := smallKey 2

/-- The script flags of the block. -/
def chainFlags : UInt32 := getBlockScriptFlags chainEntry smallParams

/-- The script check of spend `i`. -/
def chainCheck (i : Nat) : ScriptCheck := ⟨(chainCoin i).out, chainTx i, 0, chainFlags⟩

/-- The tallies after the coinbase and `i` spends: each spend adds its input,
its output and its fee, and queues its script check. -/
def chainTally : Nat → Tally
  | 0 => ⟨0, 0, 2500 * COIN, 0, 0, [], chainView 0⟩
  | i + 1 =>
      let t := chainTally i
      { nFees := t.nFees + chainFee
        nValueIn := t.nValueIn + chainValue i
        nValueOut := t.nValueOut + chainValue (i + 1)
        nSigOpsCost := 0
        nStakeReward := 0
        vChecks := t.vChecks ++ [chainCheck i]
        view := chainView (i + 1) }

/-- Sizes from the serialization, no signature operation in any script, and
an interpreter that runs scripts of pushes. -/
def chainEnv : ConnectEnv where
  checkEnv := { noKeyEnv with
    blockSerializeSize := fun block => (block.serialize true CTransaction.serialize SER_NETWORK).length
    txSerializeSize := fun tx => tx.serialize.length }
  scriptEnv := fun _ _ _ => hashEqualEnv zeroHash160
  p2shSigOpCount := fun _ _ => 0
  witnessSigOps := fun _ _ _ _ => 0
  txTotalSize := fun tx => tx.serialize.length
  chainHeight := 298999

/-! ### The outpoints are distinct -/

theorem smallKey_ne {a b : Nat} (ha : a < 2 ^ 256) (hb : b < 2 ^ 256) (hne : a ≠ b) :
    smallKey a ≠ smallKey b := by
  intro h
  have hval := congrArg uint256.uintToArith256 h
  simp only [smallKey, uint256.uintToArith256_arithToUint256, Nat.mod_eq_of_lt ha,
    Nat.mod_eq_of_lt hb] at hval
  exact hne hval

theorem key_lt_of_chainBound {i : Nat} (hi : i < chainBound) : i + 16 < 2 ^ 256 := by
  have hbound : chainBound + 16 < 2 ^ 256 := by
    unfold chainBound
    decide
  omega

theorem chainOutpoint_ne_coinbase {i : Nat} (hi : i < chainBound) :
    chainOutpoint i ≠ coinbaseOutpoint := by
  cases i with
  | zero => decide
  | succ i =>
      intro h
      have hkey : smallKey (i + 16) = smallKey 4 := congrArg COutPoint.hash h
      exact smallKey_ne (key_lt_of_chainBound (by omega)) (by decide) (by omega) hkey

theorem chainOutpoint_succ_ne {i : Nat} (hi : i + 1 < chainBound) :
    chainOutpoint (i + 1) ≠ chainOutpoint i := by
  intro h
  have hkey := congrArg COutPoint.hash h
  cases i with
  | zero => exact absurd hkey (by decide)
  | succ i =>
      exact smallKey_ne (key_lt_of_chainBound (by omega)) (key_lt_of_chainBound (by omega)) (by omega)
        hkey

/-! ### One spend -/

@[simp] theorem chainCoin_out (i : Nat) : (chainCoin i).out = ⟨chainValue i, anyoneCanSpend⟩ := by
  cases i <;> rfl

@[simp] theorem chainCoin_fCoinBase (i : Nat) : (chainCoin i).fCoinBase = false := by
  cases i <;> rfl

@[simp] theorem chainCoin_fCoinStake (i : Nat) : (chainCoin i).fCoinStake = false := by
  cases i <;> rfl

@[simp] theorem chainCoin_nTime (i : Nat) : (chainCoin i).nTime = chainTime := by
  cases i <;> rfl

@[simp] theorem chainTx_isCoinBase (i : Nat) : (chainTx i).isCoinBase = false := by
  cases i <;> simp [CTransaction.isCoinBase, chainTx, chainOutpoint, COutPoint.isNull,
    COutPoint.NULL_INDEX]

@[simp] theorem chainTx_isCoinStake (i : Nat) : (chainTx i).isCoinStake = false := rfl

theorem chainValue_nonneg {i : Nat} (hi : i ≤ chainBound) : 0 ≤ chainValue i := by
  unfold chainBound at hi
  simp only [chainValue, MAX_MONEY, COIN, chainFee]
  omega

theorem moneyRange_chainValue {i : Nat} (hi : i ≤ chainBound) : moneyRange (chainValue i) = true := by
  have hnonneg := chainValue_nonneg hi
  have hle : chainValue i ≤ MAX_MONEY := by
    simp only [chainValue, chainFee]
    omega
  simp only [moneyRange, Bool.and_eq_true]
  exact ⟨decide_eq_true hnonneg, decide_eq_true hle⟩

theorem chainValue_sub_succ (i : Nat) : chainValue i - chainValue (i + 1) = chainFee := by
  simp only [chainValue, chainFee]
  push_cast
  omega

theorem chainCoin_isSpent {i : Nat} (hi : i ≤ chainBound) : (chainCoin i).isSpent = false := by
  have hnonneg := chainValue_nonneg hi
  simp only [Coin.isSpent, chainCoin_out]
  rw [beq_eq_false_iff_ne]
  omega

theorem chainView_coins {i : Nat} (hi : i < chainBound) :
    (chainView i).coins (chainOutpoint i) = some (chainCoin i) := by
  simp [chainView, chainOutpoint_ne_coinbase hi]

@[simp] theorem chainTx_vin (i : Nat) : (chainTx i).vin = [⟨chainOutpoint i, [], SEQUENCE_FINAL, []⟩] :=
  rfl

@[simp] theorem chainTx_vout (i : Nat) : (chainTx i).vout = [⟨chainValue (i + 1), anyoneCanSpend⟩] :=
  rfl

@[simp] theorem chainTx_nTime (i : Nat) : (chainTx i).nTime = chainTime := rfl

theorem valueOut_chainTx {i : Nat} (hi : i < chainBound) :
    valueOut (chainTx i) = .ok (chainValue (i + 1)) := by
  have hrange : moneyRange (chainValue (i + 1)) = true := moneyRange_chainValue (by omega)
  -- stated first: unifying with the goal would unfold `chainValue`
  have hout := valueOut_of_vout_singleton (chainTx_vout i) hrange
  exact hout

theorem checkTxInputs_chainTx {i : Nat} (hi : i < chainBound) :
    checkTxInputs (chainTx i) (chainView i) 299000 smallParams = pure chainFee := by
  have hcoin := chainView_coins hi
  have hunspent := chainCoin_isSpent (i := i) (by omega)
  have hin := moneyRange_chainValue (i := i) (by omega)
  have hfee : moneyRange chainFee = true := by decide
  have hbelow : decide (chainValue i < chainValue (i + 1)) = false := by
    have hsub := chainValue_sub_succ i
    simp only [chainFee] at hsub
    simp only [decide_eq_false_iff_not]
    omega
  simp [checkTxInputs, CCoinsViewCache.haveInputs, CCoinsViewCache.haveCoin, hcoin, checkInputValues,
    CCoinsViewCache.accessCoin, hunspent, hin, valueOut_chainTx hi, hbelow, chainValue_sub_succ, hfee]

@[simp] theorem chainEntry_nHeight : chainEntry.nHeight = 299000 := rfl

theorem getValueIn_chainTx {i : Nat} (hi : i < chainBound) :
    (chainView i).getValueIn (chainTx i) = chainValue i := by
  simp [CCoinsViewCache.getValueIn, CCoinsViewCache.accessCoin, chainView_coins hi]

theorem sequenceLocks_chainTx (i : Nat) {prevHeights : List Int} (hlen : prevHeights.length = 1) :
    sequenceLocks supplyMap (chainTx i) 0 prevHeights chainEntry = .ok true := by
  have heval : evaluateSequenceLocks supplyMap chainEntry (-1, -1) = .ok true := by decide
  simp [sequenceLocks, calculateSequenceLocks, hlen, heval]

@[simp] theorem chainTally_nSigOpsCost (i : Nat) : (chainTally i).nSigOpsCost = 0 := by
  cases i <;> rfl

@[simp] theorem chainTally_nStakeReward (i : Nat) : (chainTally i).nStakeReward = 0 := by
  cases i <;> rfl

@[simp] theorem chainTally_view (i : Nat) : (chainTally i).view = chainView i := by
  cases i <;> rfl

theorem chainTally_nFees (i : Nat) : (chainTally i).nFees = i * chainFee := by
  induction i with
  | zero => rfl
  | succ i ih =>
      show (chainTally i).nFees + chainFee = _
      rw [ih]
      push_cast
      rw [Int.add_mul, Int.one_mul]

theorem moneyRange_chainFees {i : Nat} (hi : i < chainBound) :
    moneyRange ((i : Int) * chainFee + chainFee) = true := by
  unfold chainBound at hi
  have hnonneg : 0 ≤ (i : Int) * chainFee + chainFee := by
    simp only [chainFee]
    omega
  have hle : (i : Int) * chainFee + chainFee ≤ MAX_MONEY := by
    simp only [chainFee, MAX_MONEY, COIN]
    omega
  simp only [moneyRange, Bool.and_eq_true]
  exact ⟨decide_eq_true hnonneg, decide_eq_true hle⟩

/-- The value part of spend `i`: its input and output join the tallies, and
its fee the fees. -/
theorem tallyInputs_chainTx {i : Nat} (hi : i < chainBound) :
    tallyInputs smallParams supplyMap chainEntry 299000 0 (chainTx i) (chainTally i) =
      pure { chainTally i with
        nValueIn := (chainTally i).nValueIn + chainValue i
        nValueOut := (chainTally i).nValueOut + chainValue (i + 1)
        nFees := (chainTally i).nFees + chainFee } := by
  have hfees : moneyRange ((chainTally i).nFees + chainFee) = true := by
    rw [chainTally_nFees]
    exact moneyRange_chainFees hi
  have hlocks := sequenceLocks_chainTx i (rfl : [(chainCoin i).nHeight].length = 1)
  simp [tallyInputs, checkTxInputs_chainTx hi, getValueIn_chainTx hi, valueOut_chainTx hi,
    stakeValueOut, chainValue_sub_succ, hfees, CCoinsViewCache.accessCoin, chainView_coins hi, hlocks]

/-- No script of the block counts a signature operation. -/
theorem getTransactionSigOpCost_chainEnv (tx : CTransaction) (view : CCoinsViewCache) (flags : UInt32) :
    getTransactionSigOpCost chainEnv tx view flags = 0 := by
  simp [getTransactionSigOpCost, getLegacySigOpCount, chainEnv, noKeyEnv]

theorem scriptChecksOf_chainTx {i : Nat} (hi : i < chainBound) :
    scriptChecksOf chainFlags true (chainTx i) (chainView i) = .ok [chainCheck i] := by
  simp [scriptChecksOf, inputScriptChecks, CCoinsViewCache.accessCoin, chainView_coins hi,
    chainCoin_isSpent (i := i) (by omega), chainCheck]

theorem length_serialize_chainTx (i : Nat) : (chainTx i).serialize.length = 66 := by
  have hscript : anyoneCanSpend.length = 2 := by decide
  simp only [CTransaction.serialize, CTxIn.serialize, CTxOut.serialize, CBlock.serializeBytes,
    chainTx_vin, chainTx_vout, List.flatMap_cons, List.flatMap_nil, List.append_nil, List.length_append,
    ByteStream.length_leBytes, length_writeCompactSize, uint256.length_data, List.length_cons,
    List.length_nil, hscript]
  decide

theorem checkFee_chainTx {i : Nat} (hi : i < chainBound) :
    checkFee chainEnv true smallParams chainEntry true (chainTx i) (chainView i) = pure () := by
  have hfee : getFee (getMinTxFee true smallParams chainEnv.chainHeight 299000)
      (chainEnv.txTotalSize (chainTx i)) true = chainFee := by
    simp only [chainEnv, length_serialize_chainTx]
    decide
  simp [checkFee, valueOut_chainTx hi, getValueIn_chainTx hi, hfee, chainValue_sub_succ]

/-- Spend `i` moves the chain's coin from its input to its output. -/
theorem updateCoins_chainTx {i : Nat} (hi : i + 1 < chainBound) :
    updateCoins (chainTx i) (chainView i) 299000 = .ok (chainView (i + 1)) := by
  have hcoin := chainView_coins (i := i) (by omega)
  have hne := chainOutpoint_succ_ne hi
  have hne_cb := chainOutpoint_ne_coinbase (i := i + 1) hi
  let spent : CCoinsViewCache :=
    { chainView i with coins := fun o' => if o' = chainOutpoint i then none else (chainView i).coins o' }
  have hfresh : spent.coins (chainOutpoint (i + 1)) = none := by
    simp [spent, chainView, hne, hne_cb]
  let added : CCoinsViewCache :=
    { spent with coins := fun o' =>
      if o' = chainOutpoint (i + 1) then some (chainCoin (i + 1)) else spent.coins o' }
  have hspendable : isUnspendable (chainCoin (i + 1)).out.scriptPubKey = false := by
    simp only [chainCoin_out]
    decide
  have hadd : spent.addCoin (chainOutpoint (i + 1)) (chainCoin (i + 1)) false = .ok added :=
    CCoinsViewCache.addCoin_of_fresh (chainCoin_isSpent (by omega)) hspendable (Or.inr hfresh)
  have hview : added = chainView (i + 1) := by
    simp only [added, spent, chainView, CCoinsViewCache.mk.injEq, and_true]
    funext o
    by_cases hcb : o = coinbaseOutpoint
    · subst hcb
      simp [Ne.symm hne_cb, (chainOutpoint_ne_coinbase (i := i) (by omega)).symm]
    · by_cases hnext : o = chainOutpoint (i + 1)
      · simp [hnext, hne_cb]
      · simp [hcb, hnext]
  -- the output's outpoint and coin, as `AddCoins` builds them
  have houtpoint : (⟨(chainTx i).getHash, UInt32.ofNat 0⟩ : COutPoint) = chainOutpoint (i + 1) := rfl
  have hnew : (⟨⟨chainValue (i + 1), anyoneCanSpend⟩, 299000, false, false, chainTime⟩ : Coin) =
      chainCoin (i + 1) := rfl
  simp only [updateCoins, chainTx_isCoinBase, Bool.false_eq_true, if_false, chainTx_vin, spendInputs,
    CCoinsViewCache.spendCoin_of_coins hcoin, addCoins, addCoinsFrom, chainTx_vout, chainTx_isCoinStake,
    chainTx_nTime, houtpoint, hnew]
  rw [Fault.pure_eq, Fault.ok_bind]
  show (spent.addCoin (chainOutpoint (i + 1)) (chainCoin (i + 1)) false >>= fun view => pure view) = _
  rw [hadd, Fault.ok_bind, hview]
  rfl

/-- **One spend.**  Each turn of the loop over the spends passes: spend `i`
pays the fee, its script check is queued, and the chain's coin moves on. -/
theorem connectTx_chainTx {i : Nat} (hi : i + 1 < chainBound) :
    connectTx chainEnv true smallParams supplyMap chainEntry 299000 chainFlags 0 true (chainTx i)
      (chainTally i) = pure (chainTally (i + 1)) := by
  simp only [connectTx, tallyValues, chainTx_isCoinBase, Bool.false_eq_true, if_false,
    tallyInputs_chainTx (i := i) (by omega), pure_bind, getTransactionSigOpCost_chainEnv,
    chainEntry_nHeight]
  simp [scriptChecksOf_chainTx (i := i) (by omega), checkFee_chainTx (i := i) (by omega),
    updateCoins_chainTx hi]
  rfl

/-- **The spends, from any point.**  From the tallies after `i` spends, the
loop over the next `k` passes and leaves the tallies after `i + k`. -/
theorem connectTransactions_chainTxs (i k : Nat) (hk : i + k < chainBound) :
    connectTransactions chainEnv true smallParams supplyMap chainEntry 299000 chainFlags 0 true
      ((List.range' i k).map chainTx) (chainTally i) = pure (chainTally (i + k)) := by
  induction k generalizing i with
  | zero => rfl
  | succ k ih =>
      rw [List.range'_succ, List.map_cons, connectTransactions, connectTx_chainTx (by omega), pure_bind,
        ih (i + 1) (by omega), show i + 1 + k = i + (k + 1) by omega]

/-- The coinbase adds its output to the value created and its coin to the
view. -/
theorem connectTx_chainCoinbase :
    connectTx chainEnv true smallParams supplyMap chainEntry 299000 chainFlags 0 true chainCoinbase
      (Tally.initial fundingView) = pure (chainTally 0) := by
  have hcb : chainCoinbase.isCoinBase = true := by decide
  have hout : valueOut chainCoinbase = .ok (2500 * COIN) := by
    have hrange : moneyRange (2500 * COIN) = true := by decide
    have h := valueOut_of_vout_singleton (rfl : chainCoinbase.vout = [⟨2500 * COIN, anyoneCanSpend⟩])
      hrange
    exact h
  have hadd : fundingView.addCoin coinbaseOutpoint coinbaseCoin true =
      .ok { fundingView with coins := fun o' =>
        if o' = coinbaseOutpoint then some coinbaseCoin else fundingView.coins o' } :=
    CCoinsViewCache.addCoin_of_fresh (by decide) (by decide) (Or.inl rfl)
  have hupdate : updateCoins chainCoinbase fundingView 299000 = .ok (chainView 0) := by
    simp only [updateCoins, hcb, if_true, addCoins]
    rw [Fault.pure_eq, Fault.ok_bind]
    show (fundingView.addCoin coinbaseOutpoint coinbaseCoin true >>= fun view => pure view) = _
    rw [hadd, Fault.ok_bind]
    rfl
  simp [connectTx, tallyValues, hcb, tallyCoinbase, hout, getTransactionSigOpCost_chainEnv, scriptChecksOf,
    checkFee, hupdate, Tally.initial]
  rfl

/-- **The walk.**  The loop of `ConnectBlock` over the block of `n` spends
passes, and leaves the tallies after `n` spends. -/
theorem connectTransactions_chainBlock {n : Nat} (hn : n < chainBound) :
    connectTransactions chainEnv true smallParams supplyMap chainEntry 299000 chainFlags 0 true
      (chainBlock n).vtx (Tally.initial fundingView) = pure (chainTally n) := by
  have hwalk := connectTransactions_chainTxs 0 n (by omega)
  rw [Nat.zero_add, ← List.range_eq_range'] at hwalk
  show connectTransactions chainEnv true smallParams supplyMap chainEntry 299000 chainFlags 0 true
    (chainCoinbase :: (List.range n).map chainTx) (Tally.initial fundingView) = _
  rw [connectTransactions, connectTx_chainCoinbase, pure_bind, hwalk]

/-! ### The block passes `CheckBlock` -/

theorem mem_chainTxs {n : Nat} {tx : CTransaction} (h : tx ∈ (List.range n).map chainTx) :
    ∃ k < n, tx = chainTx k := by
  obtain ⟨k, hk, rfl⟩ := List.mem_map.mp h
  exact ⟨k, List.mem_range.mp hk, rfl⟩

@[simp] theorem chainBlock_vtx (n : Nat) : (chainBlock n).vtx = chainCoinbase :: (List.range n).map chainTx :=
  rfl

@[simp] theorem chainBlock_getBlockTime (n : Nat) : (chainBlock n).getBlockTime = chainTime.toNat := rfl

theorem chainBlock_isProofOfStake (n : Nat) : (chainBlock n).isProofOfStake true = false := by
  unfold CBlock.isProofOfStake
  simp only [Bool.not_true, Bool.false_eq_true, if_false, chainBlock_vtx]
  cases h : (List.range n).map chainTx with
  | nil => rfl
  | cons tx rest =>
      obtain ⟨k, -, rfl⟩ := mem_chainTxs (h ▸ List.mem_cons_self : tx ∈ (List.range n).map chainTx)
      rfl

theorem chainOutpoint_isNull (i : Nat) : (chainOutpoint i).isNull = false := by
  cases i <;> simp [chainOutpoint, COutPoint.isNull, COutPoint.NULL_INDEX]

theorem checkTransaction_chainTx {i : Nat} (hi : i < chainBound) :
    checkTransaction chainEnv.checkEnv.txSerializeSize (chainTx i) = .ok () := by
  have hnonneg := chainValue_nonneg (i := i + 1) (by omega)
  have hrange := moneyRange_chainValue (i := i + 1) (by omega)
  have hle : ¬ chainValue (i + 1) > MAX_MONEY := by
    simp only [chainValue, chainFee]
    omega
  have hsize : chainEnv.checkEnv.txSerializeSize (chainTx i) = 66 := length_serialize_chainTx i
  simp [checkTransaction, hsize, MAX_BLOCK_WEIGHT, MAX_BLOCK_SERIALIZED_SIZE, WITNESS_SCALE_FACTOR,
    checkOutputValues, Int.not_lt.mpr hnonneg, hle, hrange, chainOutpoint_isNull]

theorem checkTransactions_chainBlock {n : Nat} (hn : n < chainBound) :
    checkTransactions chainEnv.checkEnv (chainBlock n) = .ok () := by
  unfold checkTransactions
  rw [Checks.forM_eq_ok]
  intro tx htx
  rcases List.mem_cons.mp (chainBlock_vtx n ▸ htx) with rfl | htx
  · have hcb : checkTransaction chainEnv.checkEnv.txSerializeSize chainCoinbase = .ok () := by decide
    have htime : chainCoinbase.nTime = chainTime := rfl
    simp [hcb, htime, Except.mapError]
  · obtain ⟨k, hk, rfl⟩ := mem_chainTxs htx
    simp [checkTransaction_chainTx (i := k) (by omega), Except.mapError]

theorem checkCoinbaseCoinstake_chainBlock (n : Nat) :
    checkCoinbaseCoinstake true (chainBlock n) = .ok () := by
  have hcb : chainCoinbase.isCoinBase = true := by decide
  have hnocb : ((List.range n).map chainTx).any CTransaction.isCoinBase = false := by
    rw [List.any_eq_false]
    intro tx htx
    obtain ⟨k, -, rfl⟩ := mem_chainTxs htx
    simp
  have hnocs : ∀ tx ∈ ((List.range n).map chainTx).tail, tx.isCoinStake = false := by
    intro tx htx
    obtain ⟨k, -, rfl⟩ := mem_chainTxs (List.mem_of_mem_tail htx)
    simp
  have htime : ¬ (chainTime.toNat : Int) > chainCoinbase.nTime.toNat + MAX_FUTURE_BLOCK_TIME true := by
    decide
  simp [checkCoinbaseCoinstake, hcb, hnocb, chainBlock_isProofOfStake, htime]
  exact hnocs

@[simp] theorem chainBlock_vchBlockSig (n : Nat) : (chainBlock n).vchBlockSig = [] := rfl

theorem length_serialize_chainBlock (n : Nat) :
    ((chainBlock n).serialize true CTransaction.serialize SER_NETWORK).length =
      80 + getSizeOfCompactSize (n + 1) + 70 + 66 * n + 1 := by
  have hheader : ((chainBlock n).toCBlockHeader.serialize SER_NETWORK).length = 80 := by
    simp [CBlockHeader.serialize, uint256.length_data, writesFlags, SER_NETWORK, SER_GETHASH,
      SER_POSMARKER]
  have hcoinbase : chainCoinbase.serialize.length = 70 := by decide
  have hspends : (((List.range n).map chainTx).flatMap CTransaction.serialize).length = 66 * n := by
    simp [List.length_flatMap, Function.comp_def, length_serialize_chainTx, Nat.mul_comm]
  have hsig : getSizeOfCompactSize 0 = 1 := rfl
  simp only [CBlock.serialize, List.length_append, hheader, chainBlock_vtx, List.length_cons,
    List.length_map, List.length_range, List.flatMap_cons, hcoinbase, hspends, length_writeCompactSize,
    CBlock.serializeBytes, chainBlock_vchBlockSig, List.length_nil, if_true, hsig]
  omega

theorem getSizeOfCompactSize_le (nSize : Nat) : getSizeOfCompactSize nSize ≤ 9 := by
  unfold getSizeOfCompactSize
  split_ifs <;> omega

/-- The block of `n` spends passes every check of `CheckBlock` before the
signature, up to 10000 spends. -/
theorem checkBlockBody_chainBlock {n : Nat} (hn : n ≤ 10000) :
    checkBlockBody chainEnv.checkEnv true (chainBlock n) zeroHashers smallParams true true = .ok () := by
  have hpow : checkProofOfWork ((chainBlock n).getWorkHash zeroHashers) (chainBlock n).nBits
      smallParams.powLimit = true := by
    show checkProofOfWork uint256.zero (getCompact (2 ^ 236)) smallParams.powLimit = true
    decide
  have hsize : chainEnv.checkEnv.blockSerializeSize (chainBlock n) ≤ MAX_BLOCK_WEIGHT := by
    have hcompact := getSizeOfCompactSize_le (n + 1)
    show ((chainBlock n).serialize true CTransaction.serialize SER_NETWORK).length ≤ MAX_BLOCK_WEIGHT
    rw [length_serialize_chainBlock]
    simp only [MAX_BLOCK_WEIGHT, MAX_BLOCK_SERIALIZED_SIZE]
    omega
  have hlength : n + 1 ≤ MAX_BLOCK_WEIGHT := by
    simp only [MAX_BLOCK_WEIGHT, MAX_BLOCK_SERIALIZED_SIZE]
    omega
  have hmerkle : chainEnv.checkEnv.blockMerkleRoot (chainBlock n) = ((chainBlock n).hashMerkleRoot, false) :=
    rfl
  have hsigops : getLegacySigOpCount chainEnv.checkEnv.sigOpCount = fun _ => 0 := by
    funext tx
    simp [getLegacySigOpCount, chainEnv, noKeyEnv]
  simp [checkBlockBody, chainBlock_isProofOfStake, hpow, checkMerkleRoot, hmerkle, WITNESS_SCALE_FACTOR,
    Nat.not_lt.mpr hsize, Nat.not_lt.mpr hlength, checkCoinbaseCoinstake_chainBlock,
    checkTransactions_chainBlock (n := n) (by unfold chainBound; omega), hsigops, Function.comp_def]

/-! ### The rest of `ConnectBlock` -/

/-- Every queued check runs `<01>` after an empty `scriptSig`, and passes. -/
theorem runScriptCheck_chainCheck (i : Nat) : runScriptCheck chainEnv (chainCheck i) = .ok true := by
  have hverify : (verifyScript (hashEqualEnv zeroHash160) [] anyoneCanSpend [] chainFlags).run = .ok (.ok ()) := by
    decide
  simp [runScriptCheck, chainCheck, Fault.index, chainEnv, hverify]
  rfl

theorem scriptChecksPass_chainChecks (l : List Nat) :
    scriptChecksPass chainEnv (l.map chainCheck) = .ok true := by
  induction l with
  | nil => rfl
  | cons i l ih =>
      simp only [List.map_cons, scriptChecksPass, runScriptCheck_chainCheck, Fault.ok_bind, if_true]
      exact ih

theorem chainTally_vChecks (n : Nat) : (chainTally n).vChecks = (List.range n).map chainCheck := by
  induction n with
  | zero => rfl
  | succ n ih =>
      show (chainTally n).vChecks ++ [chainCheck n] = _
      rw [ih, List.range_succ, List.map_append, List.map_singleton]

theorem chainTally_nFees_nonneg (n : Nat) : 0 ≤ (chainTally n).nFees := by
  rw [chainTally_nFees]
  simp only [chainFee]
  omega

/-- The coinbase claims the work reward without the fees, and the block has
no stake to check. -/
theorem rewardChecks_chainBlock (n : Nat) (nCoinAge : Nat) :
    rewardChecks true smallParams supplyMap (chainBlock n) supplyPrev nCoinAge (chainTally n) = pure () := by
  have hout : valueOut chainCoinbase = .ok (2500 * COIN) := by
    have hrange : moneyRange (2500 * COIN) = true := by decide
    have h := valueOut_of_vout_singleton (rfl : chainCoinbase.vout = [⟨2500 * COIN, anyoneCanSpend⟩])
      hrange
    exact h
  have hfees := chainTally_nFees_nonneg n
  have hreward : ¬ 2500 * COIN > getProofOfWorkReward true (chainTally n).nFees supplyPrev := by
    simp only [getProofOfWorkReward, if_true]
    omega
  simp [rewardChecks, Fault.index, hout, CBlock.isProofOfWork, chainBlock_isProofOfStake, hreward]

theorem connectCheckBlock_chainBlock {n : Nat} (hn : n ≤ 10000) :
    connectCheckBlock chainEnv zeroHashers true smallParams (chainBlock n) false = pure () := by
  have hbody := checkBlockBody_chainBlock hn
  have hchecked : CBlock.isProofOfStake true
      (CBlock.mk (chainBlock n).toCBlockHeader (chainCoinbase :: (List.range n).map chainTx) [] true) = false :=
    chainBlock_isProofOfStake n
  have hfresh : (chainBlock n).fChecked = false := rfl
  simp [connectCheckBlock, checkBlock, hfresh, hbody, hchecked]

/-- What the block creates less what it spends: the coinbase less the fees. -/
theorem chainTally_supply (n : Nat) :
    (chainTally n).nValueOut - (chainTally n).nValueIn = 2500 * COIN - n * chainFee := by
  induction n with
  | zero => decide
  | succ n ih =>
      show (chainTally n).nValueOut + chainValue (n + 1) - ((chainTally n).nValueIn + chainValue n) = _
      have hsub := chainValue_sub_succ n
      push_cast
      simp only [chainFee] at hsub ih ⊢
      omega

/-- After `n` spends of a chain of `N`, the value spent is at least `n`
times the smallest of the spent values. -/
theorem chainTally_nValueIn_ge {N : Nat} (n : Nat) (hn : n ≤ N) :
    (n : Int) * chainValue N ≤ (chainTally n).nValueIn := by
  induction n with
  | zero => simp [chainTally]
  | succ n ih =>
      have hstep : chainValue N ≤ chainValue n := by
        simp only [chainValue, chainFee]
        omega
      show _ ≤ (chainTally n).nValueIn + chainValue n
      push_cast
      rw [Int.add_mul, Int.one_mul]
      exact Int.add_le_add (ih (by omega)) hstep

end Chain

/-! ## The overflow -/

/-- **The tallies overflow.**  `ConnectBlock` connects the work block of 4400
spends at height 299000: every check passes, and the entry records the supply
the block adds in exact arithmetic.  The loop that computes it leaves
`nValueIn` and `nValueOut` past `2^63 - 1`, the largest `int64_t`, so that
both sums overflow in the code. -/
theorem connectBlock_nValueIn_overflow :
    (∃ recorded view',
      (connectBlock chainEnv zeroHashers true smallParams acceptingStakeEnv supplyMap ⟨[]⟩ none
          (chainBlock 4400) chainEntry fundingView false true).run.run StakeWeightCache.initial =
        .ok (.ok (recorded, view'), StakeWeightCache.initial) ∧
      recorded.nMoneySupply = supplyPrev.nMoneySupply + 2500 * COIN - 4400 * chainFee) ∧
    connectTransactions chainEnv true smallParams supplyMap chainEntry 299000 chainFlags 0 true
        (chainBlock 4400).vtx (Tally.initial fundingView) = pure (chainTally 4400) ∧
    2 ^ 63 ≤ (chainTally 4400).nValueIn ∧ 2 ^ 63 ≤ (chainTally 4400).nValueOut := by
  have hwalk := connectTransactions_chainBlock (n := 4400) (by unfold chainBound; omega)
  have hin : 2 ^ 63 ≤ (chainTally 4400).nValueIn := by
    have hbound := chainTally_nValueIn_ge (N := 4400) 4400 le_rfl
    have hnum : (2 : Int) ^ 63 ≤ ((4400 : Nat) : Int) * chainValue 4400 := by decide
    exact Int.le_trans hnum hbound
  have hsupply := chainTally_supply 4400
  have hout : 2 ^ 63 ≤ (chainTally 4400).nValueOut := by
    simp only [COIN, chainFee] at hsupply
    omega
  obtain ⟨recorded, hrecord, -, hmoney⟩ :=
    recordSupply_ok supplyPrev (chainTally 4400) (rfl : chainEntry.phashBlock.isSome = true)
  refine ⟨⟨recorded, { (chainTally 4400).view with hashBlock := chainEntry.getBlockHash }, ?_, ?_⟩, hwalk,
    hin, hout⟩
  · have hphash : chainEntry.phashBlock = some uint256.zero := by decide
    have hhash : (chainBlock 4400).getHash zeroHashers true = uint256.zero := rfl
    have hgenesis : (uint256.zero == smallParams.hashGenesisBlock) = false := by decide
    have hprev : (chainEntry.pprev.getD uint256.zero == fundingView.hashBlock) = true := by decide
    have hpprev : supplyMap.prev chainEntry = some supplyPrev := rfl
    have hmod : (chainEntry.nStakeModifier == 0) = false := by decide
    have hcsv : ¬ smallParams.CSVHeight ≤ 299000 := by decide
    have hwalk' : connectTransactions chainEnv true smallParams supplyMap chainEntry (supplyPrev.nHeight + 1)
        (getBlockScriptFlags chainEntry smallParams) 0 true (chainCoinbase :: (List.range 4400).map chainTx)
        (Tally.initial fundingView) = pure (chainTally 4400) := hwalk
    have hchecks : scriptChecksPass chainEnv (chainTally 4400).vChecks = .ok true := by
      rw [chainTally_vChecks]
      exact scriptChecksPass_chainChecks _
    simp [connectBlock, hphash, hhash, connectStakeChecks, hmod, connectCheckBlock_chainBlock,
      hprev, hgenesis, connectBody, hcsv, hpprev, coinAgeOfBlock, chainBlock_isProofOfStake, hwalk',
      rewardChecks_chainBlock, hchecks, hrecord]
  · rw [hmoney, Int.add_sub_assoc, hsupply, Int.add_sub_assoc]
    rfl

end Veribase
