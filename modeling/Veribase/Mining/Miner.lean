import Veribase.Validation.ConnectBlock

/-!
# The block template

`miner.cpp`'s `BlockAssembler::CreateNewBlock` builds the block the staking
and mining threads sign.  For a stake block it first asks the wallet for a
coinstake (`CreateCoinStake`), keeps it only if its time would meet the
timestamp rules, and gives the coinbase the coinstake's time.  Then
`addPackageTxs` fills the block from the mempool, package by package in
order of ancestor feerate, keeping in `mapModifiedTx` the entries whose
ancestors are already in the block.  Last the header: the time is set three
times over, to the coinstake's time, then to the later of the median time
past and `GetMaxTransactionTime()`, then to no earlier than the parent's time
less `MAX_FUTURE_BLOCK_TIME`; and a template made for a wallet must pass
`TestBlockValidity`, or `CreateNewBlock` throws.

Nothing in the package selection reads a transaction's time.  A stake block
whose mempool part holds a transaction later than the coinstake gets that
later time (`templateTime_of_stake`), while `CheckBlock` wants the block time
of a stake block to be the coinstake's own (`bad-cs-time`); so
`CreateNewBlock` throws (`createNewBlock_throws_of_late_tx`), and the staking
thread, which catches the error, stops.  The mempool admits a transaction up
to `MAX_FUTURE_BLOCK_TIME` past the adjusted time, while the coinstake is
never later than it.

The mempool is what the assembler reads of it (`MempoolView`): the entries
and their ancestor aggregates, the `ancestor_score` order of `mapTx`, and
`CalculateMemPoolAncestors` and `CalculateDescendants`.  Feerates are
compared exactly, where the source multiplies doubles.
-/

namespace Veribase

open Checks

/-! ## The mempool as the assembler reads it -/

/-- A `CTxMemPoolEntry`, with the fields `BlockAssembler` reads. -/
structure CTxMemPoolEntry where
  /-- `GetTx()`. -/
  tx : CTransaction
  /-- `GetFee()`. -/
  nFee : Int
  /-- `GetModifiedFee()`: the fee with the `PrioritiseTransaction` delta. -/
  nModifiedFee : Int
  /-- `GetTxSize()`. -/
  nTxSize : Int
  /-- `GetTxWeight()`. -/
  nTxWeight : Int
  /-- `GetSigOpCost()`. -/
  sigOpCost : Int
  /-- `GetCountWithAncestors()`. -/
  nCountWithAncestors : Nat
  /-- `GetSizeWithAncestors()`. -/
  nSizeWithAncestors : Int
  /-- `GetModFeesWithAncestors()`. -/
  nModFeesWithAncestors : Int
  /-- `GetSigOpCostWithAncestors()`. -/
  nSigOpCostWithAncestors : Int
deriving DecidableEq

/-- What `BlockAssembler` reads of `CTxMemPool`: the entry a `txiter` points
to, `mapTx` in its `ancestor_score` order, and `CalculateMemPoolAncestors`
(without limits) and `CalculateDescendants` of an entry; the latter includes
the entry itself. -/
structure MempoolView where
  /-- The entry a `txiter` points to. -/
  entry : Nat → CTxMemPoolEntry
  /-- `mapTx.get<ancestor_score>()`, best first. -/
  byAncestorScore : List Nat
  /-- `CalculateMemPoolAncestors(*it, ancestors, nNoLimit, ...)`. -/
  ancestorsOf : Nat → List Nat
  /-- `CalculateDescendants(it, descendants)`. -/
  descendantsOf : Nat → List Nat

/-- `operator<` of `base_blob`: `memcmp` of the bytes. -/
def hashLt (a b : uint256) : Bool := decide (a.data < b.data)

/-- `CTxMemPoolModifiedEntry`: an entry with the aggregates of its ancestors
not yet in the block. -/
structure CTxMemPoolModifiedEntry where
  iter : Nat
  nSizeWithAncestors : Int
  nModFeesWithAncestors : Int
  nSigOpCostWithAncestors : Int
deriving DecidableEq

namespace MempoolView

variable (mp : MempoolView)

/-- `CTxMemPoolModifiedEntry(it)`: the entry's own aggregates. -/
def modifiedOf (it : Nat) : CTxMemPoolModifiedEntry :=
  let e := mp.entry it
  ⟨it, e.nSizeWithAncestors, e.nModFeesWithAncestors, e.nSigOpCostWithAncestors⟩

/-- `GetModFeeAndSize`: the fee and size of the lower of the feerate with
ancestors and the feerate of the transaction alone. -/
def modFeeAndSize (m : CTxMemPoolModifiedEntry) : Int × Int :=
  let e := mp.entry m.iter
  if e.nModifiedFee * m.nSizeWithAncestors > m.nModFeesWithAncestors * e.nTxSize then
    (m.nModFeesWithAncestors, m.nSizeWithAncestors)
  else (e.nModifiedFee, e.nTxSize)

/-- `CompareTxMemPoolEntryByAncestorFee()(a, b)`: `a` scores higher, ties
broken by hash. -/
def ancestorFeeGt (a b : CTxMemPoolModifiedEntry) : Bool :=
  let (aFee, aSize) := mp.modFeeAndSize a
  let (bFee, bSize) := mp.modFeeAndSize b
  if aFee * bSize = aSize * bFee then hashLt (mp.entry a.iter).tx.getHash (mp.entry b.iter).tx.getHash
  else aFee * bSize > aSize * bFee

/-- `mapModifiedTx.get<ancestor_score>().begin()`: the best entry. -/
def bestModified : List CTxMemPoolModifiedEntry → Option CTxMemPoolModifiedEntry
  | [] => none
  | m :: rest =>
    match bestModified rest with
    | none => some m
    | some b => if mp.ancestorFeeGt b m then some b else some m

end MempoolView

/-! ## The block assembler -/

/-- What `BlockAssembler` keeps while it fills a block. -/
structure BlockAssembler where
  /-- The transactions added after the coinbase (and coinstake). -/
  vtx : List CTransaction
  /-- `pblocktemplate->vTxFees` of those. -/
  vTxFees : List Int
  /-- `pblocktemplate->vTxSigOpsCost` of those. -/
  vTxSigOpsCost : List Int
  nBlockWeight : Int
  nBlockSigOpsCost : Int
  nBlockTx : Nat
  nFees : Int
  inBlock : List Nat

/-- `resetBlock()`: room kept for the coinbase. -/
def BlockAssembler.reset : BlockAssembler := ⟨[], [], [], 4000, 400, 0, 0, []⟩

/-- The state of the loop of `addPackageTxs`. -/
structure PackageLoop where
  /-- `mi`: what is left of `mapTx` by `ancestor_score`. -/
  mi : List Nat
  mapModifiedTx : List CTxMemPoolModifiedEntry
  failedTx : List Nat
  nConsecutiveFailed : Nat
  nPackagesSelected : Nat
  nDescendantsUpdated : Nat
  /-- The block so far. -/
  st : BlockAssembler

/-- `MAX_CONSECUTIVE_FAILURES`. -/
def MAX_CONSECUTIVE_FAILURES : Nat := 1000

section Assembler

variable (mp : MempoolView) (nBlockMaxWeight : Int) (nHeight nLockTimeCutoff : Int)
  (fIncludeWitness : Bool)

/-- `TestPackage(packageSize, packageSigOpsCost)`. -/
def testPackage (st : BlockAssembler) (packageSize packageSigOpsCost : Int) : Bool :=
  if st.nBlockWeight + WITNESS_SCALE_FACTOR * packageSize ≥ nBlockMaxWeight then false
  else if st.nBlockSigOpsCost + packageSigOpsCost ≥ MAX_BLOCK_SIGOPS_COST then false
  else true

/-- `TestPackageTransactions(package)`: final at the block's height and
cutoff, and no witness unless witnesses are included. -/
def testPackageTransactions (package : List Nat) : Bool :=
  package.all fun it =>
    isFinalTx (mp.entry it).tx nHeight nLockTimeCutoff && (fIncludeWitness || !hasWitness (mp.entry it).tx)

/-- `AddToBlock(iter)`. -/
def addToBlock (st : BlockAssembler) (it : Nat) : BlockAssembler :=
  let e := mp.entry it
  { vtx := st.vtx ++ [e.tx]
    vTxFees := st.vTxFees ++ [e.nFee]
    vTxSigOpsCost := st.vTxSigOpsCost ++ [e.sigOpCost]
    nBlockWeight := st.nBlockWeight + e.nTxWeight
    nBlockSigOpsCost := st.nBlockSigOpsCost + e.sigOpCost
    nBlockTx := st.nBlockTx + 1
    nFees := st.nFees + e.nFee
    inBlock := if it ∈ st.inBlock then st.inBlock else st.inBlock ++ [it] }

/-- `CompareTxIterByAncestorCount`, as the order a sort keeps: fewer
ancestors first, then the lower hash. -/
def ancestorCountLe (a b : Nat) : Bool :=
  let ea := mp.entry a
  let eb := mp.entry b
  decide (ea.nCountWithAncestors < eb.nCountWithAncestors) ||
    (ea.nCountWithAncestors == eb.nCountWithAncestors && !hashLt eb.tx.getHash ea.tx.getHash)

/-- `SortForBlock(package)`: by ancestor count, then by hash. -/
def sortForBlock (package : List Nat) : List Nat :=
  package.insertionSort fun a b => ancestorCountLe mp a b = true

/-- One descendant in `UpdatePackagesForAdded`: a new modified entry without
the added ancestor's modified fee, or the ancestor's fee taken off an
existing one (`update_for_parent_inclusion`). -/
def updateForParent (it desc : Nat) (mapModifiedTx : List CTxMemPoolModifiedEntry) :
    List CTxMemPoolModifiedEntry :=
  let a := mp.entry it
  if mapModifiedTx.any (·.iter == desc) then
    mapModifiedTx.map fun m =>
      if m.iter = desc then
        { m with
          nModFeesWithAncestors := m.nModFeesWithAncestors - a.nFee
          nSizeWithAncestors := m.nSizeWithAncestors - a.nTxSize
          nSigOpCostWithAncestors := m.nSigOpCostWithAncestors - a.sigOpCost }
      else m
  else
    let m := mp.modifiedOf desc
    mapModifiedTx ++
      [{ m with
          nSizeWithAncestors := m.nSizeWithAncestors - a.nTxSize
          nModFeesWithAncestors := m.nModFeesWithAncestors - a.nModifiedFee
          nSigOpCostWithAncestors := m.nSigOpCostWithAncestors - a.sigOpCost }]

/-- `UpdatePackagesForAdded(alreadyAdded, mapModifiedTx)`: the modified set,
and how many descendants were updated. -/
def updatePackagesForAdded (alreadyAdded : List Nat) (mapModifiedTx : List CTxMemPoolModifiedEntry) :
    List CTxMemPoolModifiedEntry × Nat :=
  alreadyAdded.foldl
    (fun acc it =>
      (mp.descendantsOf it).foldl
        (fun acc desc =>
          if desc ∈ alreadyAdded then acc else (updateForParent mp it desc acc.1, acc.2 + 1))
        acc)
    (mapModifiedTx, 0)

/-- `SkipMapTxEntry(it, mapModifiedTx, failedTx)`. -/
def skipMapTxEntry (lp : PackageLoop) (it : Nat) : Bool :=
  lp.mapModifiedTx.any (·.iter == it) || it ∈ lp.st.inBlock || it ∈ lp.failedTx

/-- Which transaction a turn of the loop looks at: the next entry of
`mapTx`, or the best modified entry if it scores higher; with whether it is
the modified one, and what is left of `mapTx`. -/
def chooseIter (lp : PackageLoop) : Faulty (Nat × Option CTxMemPoolModifiedEntry × List Nat) :=
  match lp.mi, mp.bestModified lp.mapModifiedTx with
  | [], some m => pure (m.iter, some m, [])
  -- the loop runs only while one of the two is not empty
  | [], none => throw .nullDeref
  | i :: mi', some m =>
    if mp.ancestorFeeGt m (mp.modifiedOf i) then pure (m.iter, some m, lp.mi) else pure (i, none, mi')
  | i :: mi', none => pure (i, none, mi')

/-- One turn of the `while` loop of `addPackageTxs`; `none` when the loop
stops, by its condition or by `break`. -/
def packageTurn (lp : PackageLoop) : Faulty (Option PackageLoop) :=
  if lp.mi.isEmpty && lp.mapModifiedTx.isEmpty then pure none
  else
    match lp.mi with
    | i :: mi' =>
      if skipMapTxEntry lp i then pure (some { lp with mi := mi' }) else packageTurnAt lp
    | [] => packageTurnAt lp
where
  /-- The turn once `mi` is not stale. -/
  packageTurnAt (lp : PackageLoop) : Faulty (Option PackageLoop) := do
    let (iter, modit, mi) ← chooseIter mp lp
    Fault.check !(iter ∈ lp.st.inBlock)
    let e := mp.entry iter
    let (packageSize, packageSigOpsCost) := match modit with
      | some m => (m.nSizeWithAncestors, m.nSigOpCostWithAncestors)
      | none => (e.nSizeWithAncestors, e.nSigOpCostWithAncestors)
    -- a failed modified entry leaves the modified set for the failed set
    let failModified : List CTxMemPoolModifiedEntry × List Nat := match modit with
      | some _ => (lp.mapModifiedTx.filter (·.iter != iter), lp.failedTx ++ [iter])
      | none => (lp.mapModifiedTx, lp.failedTx)
    if !testPackage nBlockMaxWeight lp.st packageSize packageSigOpsCost then
      let nConsecutiveFailed := lp.nConsecutiveFailed + 1
      if nConsecutiveFailed > MAX_CONSECUTIVE_FAILURES && lp.st.nBlockWeight > nBlockMaxWeight - 4000 then
        pure none
      else
        pure (some { lp with mi, mapModifiedTx := failModified.1, failedTx := failModified.2, nConsecutiveFailed })
    else
      let ancestors := (mp.ancestorsOf iter).filter (· ∉ lp.st.inBlock) ++ [iter]
      if !testPackageTransactions mp nHeight nLockTimeCutoff fIncludeWitness ancestors then
        pure (some { lp with mi, mapModifiedTx := failModified.1, failedTx := failModified.2 })
      else
        let sortedEntries := sortForBlock mp ancestors
        let st := sortedEntries.foldl (addToBlock mp) lp.st
        let mapModifiedTx := lp.mapModifiedTx.filter (·.iter ∉ sortedEntries)
        let (mapModifiedTx, nUpdated) := updatePackagesForAdded mp ancestors mapModifiedTx
        pure (some
          { mi, mapModifiedTx, failedTx := lp.failedTx, nConsecutiveFailed := 0
            nPackagesSelected := lp.nPackagesSelected + 1
            nDescendantsUpdated := lp.nDescendantsUpdated + nUpdated, st })

/-- The loop of `addPackageTxs`; `none` when `fuel` turns were not enough
for it to stop. -/
def addPackageTxsLoop : Nat → PackageLoop → Faulty (Option PackageLoop)
  | 0, _ => pure none
  | fuel + 1, lp => do
    match ← packageTurn mp nBlockMaxWeight nHeight nLockTimeCutoff fIncludeWitness lp with
    | none => pure (some lp)
    | some lp' => addPackageTxsLoop fuel lp'

/-- `addPackageTxs(nPackagesSelected, nDescendantsUpdated)` on the block so
far, with `fuel` turns of its loop. -/
def addPackageTxs (fuel : Nat) (st : BlockAssembler) : Faulty (Option PackageLoop) :=
  -- the count of this first update is not added to `nDescendantsUpdated`
  let mapModifiedTx := (updatePackagesForAdded mp st.inBlock []).1
  addPackageTxsLoop mp nBlockMaxWeight nHeight nLockTimeCutoff fIncludeWitness fuel
    ⟨mp.byAncestorScore, mapModifiedTx, [], 0, 0, 0, st⟩

end Assembler

/-! ## The template -/

/-- `CBlockTemplate`. -/
structure CBlockTemplate where
  block : CBlock
  /-- `vTxFees`, the coinbase's first. -/
  vTxFees : List Int
  /-- `vTxSigOpsCost`, the coinbase's first. -/
  vTxSigOpsCost : List Int

/-- The wallet a stake template is made for: `CreateCoinStake(wallet, nBits,
nSearchInterval, nFees, txNew)` on a `txNew` made at the given time, with the
coinstake it builds when it finds one. -/
structure StakeWallet where
  /-- `CreateCoinStake`. -/
  createCoinStake : UInt32 → Int → Int → UInt32 → Option CTransaction

/-- `CTransaction::CURRENT_VERSION`. -/
def CTransaction.CURRENT_VERSION : Int32 := 1

/-- `STANDARD_LOCKTIME_VERIFY_FLAGS`. -/
def STANDARD_LOCKTIME_VERIFY_FLAGS : Nat := LOCKTIME_VERIFY_SEQUENCE ||| LOCKTIME_MEDIAN_TIME_PAST

/-- `MakeTransactionRef(tx)`: the transaction with its hash. -/
def makeTransactionRef (H : Hashers) (tx : CTransaction) : CTransaction :=
  { tx with hash := H.Hash tx.serialize }

/-- `CBlock::GetMaxTransactionTime()`. -/
def CBlock.getMaxTransactionTime (block : CBlock) : Int :=
  block.vtx.foldl (fun maxTransactionTime tx => max maxTransactionTime tx.nTime.toNat) 0

/-- The running maximum of `GetMaxTransactionTime` is at least where it
starts and every time it passes, and stays below `2^32`. -/
theorem foldl_maxTime_bounds :
    ∀ (vtx : List CTransaction) (a : Int),
      let r := vtx.foldl (fun maxTransactionTime tx => max maxTransactionTime tx.nTime.toNat) a
      a ≤ r ∧ (∀ tx ∈ vtx, (tx.nTime.toNat : Int) ≤ r) ∧ (a < 2 ^ 32 → r < 2 ^ 32)
  | [], a => by simp
  | tx :: vtx, a => by
    obtain ⟨hstart, hall, hbound⟩ := foldl_maxTime_bounds vtx (max a tx.nTime.toNat)
    have htx : (tx.nTime.toNat : Int) < 2 ^ 32 := by
      have := UInt32.toNat_lt tx.nTime
      omega
    refine ⟨le_trans (le_max_left _ _) hstart, ?_, fun ha => hbound (max_lt ha htx)⟩
    intro tx' hmem
    cases List.mem_cons.mp hmem with
    | inl heq =>
      subst heq
      exact le_trans (le_max_right _ _) hstart
    | inr hrest => exact hall tx' hrest

theorem le_getMaxTransactionTime {block : CBlock} {tx : CTransaction} (h : tx ∈ block.vtx) :
    (tx.nTime.toNat : Int) ≤ block.getMaxTransactionTime :=
  (foldl_maxTime_bounds block.vtx 0).2.1 tx h

theorem getMaxTransactionTime_bounds (block : CBlock) :
    0 ≤ block.getMaxTransactionTime ∧ block.getMaxTransactionTime < 2 ^ 32 :=
  ⟨(foldl_maxTime_bounds block.vtx 0).1, (foldl_maxTime_bounds block.vtx 0).2.2 (by decide)⟩

/-- A time the header field holds as it is. -/
theorem toNat_ofInt_of_lt {x : Int} (h0 : 0 ≤ x) (h : x < 2 ^ 32) :
    ((UInt32.ofInt x).toNat : Int) = x := by
  simp only [UInt32.ofInt, UInt32.toNat_ofNat']
  rw [Int.emod_eq_of_lt h0 h]
  omega

/-- The coinbase of `CreateNewBlock` before its value is set: one null input
with the height and `OP_0`, and one output `CTxOut()`, of value `-1`, to
`scriptPubKeyIn`; made at `nTime`. -/
def coinbaseTx (scriptPubKeyIn : CScript) (nHeight : Int) (nTime : UInt32) : CTransaction :=
  { nVersion := CTransaction.CURRENT_VERSION, nTime
    vin := [⟨⟨uint256.zero, COutPoint.NULL_INDEX⟩, pushInt64 nHeight ++ [OP_0], SEQUENCE_FINAL, []⟩]
    vout := [⟨-1, scriptPubKeyIn⟩], nLockTime := 0, hash := uint256.zero }

/-- `UpdateTime(pblock)`: the header's time raised to the adjusted time. -/
def updateTime (nAdjustedTime : Int) (block : CBlock) : CBlock :=
  let nNewTime := max block.getBlockTime nAdjustedTime
  if block.getBlockTime < nNewTime then { block with nTime := UInt32.ofInt nNewTime } else block

/-- A check's result in `ValidationM`. -/
def ValidationM.ofExcept (r : Except BlockError Unit) : ValidationM Unit := ExceptT.mk (pure r)

/-- `state.ToString()` after a check that failed: the reject reason, or
`Valid` after a `return error(...)`, which leaves the state valid. -/
def BlockError.stateString : BlockError → String
  | .invalid _ reason => reason
  | .failed _ => "Valid"
  | .exception what => what

section Create

variable (henv : HeaderEnv) (env : CheckBlockEnv) (H : Hashers) (params : Params) (m : BlockMap)
  (connectBlock : CBlock → ValidationM Unit) (pindexPrev : CBlockIndex) (nAdjustedTime : Int)

/-- `TestBlockValidity(state, params, block, pindexPrev, fCheckPOW,
fCheckMerkleRoot)` at the tip `pindexPrev`; `connectBlock` is the
`ConnectBlock(..., fJustCheck = true)` on a view of the tip that ends it. -/
def testBlockValidity (block : CBlock) (fCheckPOW fCheckMerkleRoot : Bool) : ValidationM Unit := do
  contextualCheckBlockHeader henv params.fIsVericoin params m block.toCBlockHeader (some pindexPrev)
    nAdjustedTime
  ValidationM.ofExcept
    (checkBlock env H params.fIsVericoin params block fCheckPOW fCheckMerkleRoot true).1
  contextualCheckBlock env params m block (some pindexPrev)
  connectBlock block

/-- The coinstake search of `CreateNewBlock`: the coinstake, when
`CreateCoinStake` finds one whose time meets the rules the block time is held
to, and `nLastCoinStakeSearchTime` after the search. -/
def searchCoinStake (w : StakeWallet) (nBits : UInt32) (nLastCoinStakeSearchTime : Int) :
    Option CTransaction × Int :=
  -- `txCoinStake` is made at the adjusted time, and the search runs up to it
  let nSearchTime := UInt32.ofInt nAdjustedTime
  if (nSearchTime.toNat : Int) > nLastCoinStakeSearchTime then
    let found := w.createCoinStake nBits (nSearchTime.toNat - nLastCoinStakeSearchTime)
      BlockAssembler.reset.nFees nSearchTime
    (found.filter fun txCoinStake => decide ((txCoinStake.nTime.toNat : Int) ≥
        max (m.getMedianTimePast pindexPrev + 1)
          (pindexPrev.getBlockTime - MAX_FUTURE_BLOCK_TIME params.fIsVericoin)),
      nSearchTime.toNat)
  else (none, nLastCoinStakeSearchTime)

/-- The three writes of the header time: a stake block's coinstake time,
overwritten at once by the later of the median time past plus one and the
latest transaction, then raised to the parent's time less the drift bound; a
work block's time then goes up to the adjusted time. -/
def templateTime (fPos : Bool) (block : CBlock) : Faulty CBlock := do
  let block ← if fPos then (fun tx1 => { block with nTime := tx1.nTime }) <$> Fault.index block.vtx 1
    else pure block
  let block := { block with
    nTime := UInt32.ofInt (max (m.getMedianTimePast pindexPrev + 1) block.getMaxTransactionTime) }
  let block := { block with
    nTime := UInt32.ofInt
      (max block.getBlockTime (pindexPrev.getBlockTime - MAX_FUTURE_BLOCK_TIME params.fIsVericoin)) }
  pure (if fPos then block else updateTime nAdjustedTime block)

/-- `CreateNewBlock` after `addPackageTxs`: the coinbase's value and hash,
the header, and for a template made for a wallet `TestBlockValidity`, whose
failure throws. -/
def finishTemplate (fPos hasWallet : Bool) (coinbase : CTransaction) (stake : Option CTransaction)
    (header : CBlockHeader) (st : BlockAssembler) : Faulty CBlockTemplate := do
  let coinbase := if fPos then coinbase
    else { coinbase with vout := coinbase.vout.modifyHead fun txout =>
      { txout with nValue := getProofOfWorkReward params.fIsVericoin st.nFees pindexPrev } }
  let coinbase := makeTransactionRef H coinbase
  let block ← templateTime params m pindexPrev nAdjustedTime fPos
    { toCBlockHeader := { header with hashPrevBlock := pindexPrev.getBlockHash }
      vtx := coinbase :: (stake.toList ++ st.vtx), vchBlockSig := [], fChecked := false }
  let block := { block with nNonce := 0 }
  let template : CBlockTemplate := ⟨block, -st.nFees :: st.vTxFees,
    ((WITNESS_SCALE_FACTOR * getLegacySigOpCount env.sigOpCount coinbase : Nat) : Int) ::
      st.vTxSigOpsCost⟩
  if hasWallet then
    match (testBlockValidity henv env H params m connectBlock pindexPrev nAdjustedTime block
        false false).run with
    | .error f => throw f
    | .ok (.error (.exception what)) => throw (.exception what)
    | .ok (.error e) =>
      throw (.exception ("CreateNewBlock: TestBlockValidity failed: " ++ e.stateString))
    | .ok (.ok ()) => pure template
  else pure template

variable (mp : MempoolView) (nBlockMaxWeight : Int) (nVersion : Int32)

/-- `CreateNewBlock(scriptPubKeyIn, fPos, pwallet, &fPoSCancel)`, with
`nVersion` for `ComputeBlockVersion()` and `fuel` turns of the package loop:
what it returns (`none` is `nullptr`, which comes with `fPoSCancel` set) or
throws, or `none` when `fuel` was not enough; and the static
`nLastCoinStakeSearchTime` after the call. -/
def createNewBlock (fuel : Nat) (scriptPubKeyIn : CScript) (fPos : Bool)
    (pwallet : Option StakeWallet) (nLastCoinStakeSearchTime : Int) :
    Option (Faulty (Option CBlockTemplate)) × Int :=
  let nHeight := pindexPrev.nHeight + 1
  let nBits := if fPos then getNextTargetRequired m params pindexPrev true
    else pure (henv.getNextWorkRequired m pindexPrev)
  match nBits with
  -- a throw of the retarget leaves before the coinstake search
  | .error f => (some (.error f), nLastCoinStakeSearchTime)
  | .ok nBits =>
    let coinbase := coinbaseTx scriptPubKeyIn nHeight (UInt32.ofInt nAdjustedTime)
    let fStaking := pwallet.isSome && fPos
    let (stake, nLastCoinStakeSearchTime) := match pwallet, fPos with
      | some w, true => searchCoinStake params m pindexPrev nAdjustedTime w nBits nLastCoinStakeSearchTime
      | _, _ => (none, nLastCoinStakeSearchTime)
    -- no coinstake: `nullptr`, with `*pfPoSCancel` still set
    if fStaking && stake.isNone then (some (pure none), nLastCoinStakeSearchTime)
    else
      let coinbase := match stake with
        | some txCoinStake =>
          { coinbase with vout := coinbase.vout.modifyHead fun _ => ⟨0, []⟩, nTime := txCoinStake.nTime }
        | none => coinbase
      let header : CBlockHeader := { CBlockHeader.null with
        nVersion, nBits, nTime := UInt32.ofInt nAdjustedTime
        nFlags := if fStaking then CBlockIndex.BLOCK_PROOF_OF_STAKE else 0 }
      let nLockTimeCutoff := if STANDARD_LOCKTIME_VERIFY_FLAGS &&& LOCKTIME_MEDIAN_TIME_PAST != 0 then
        m.getMedianTimePast pindexPrev else header.getBlockTime
      let result := match addPackageTxs mp nBlockMaxWeight nHeight nLockTimeCutoff
          (isWitnessEnabled pindexPrev.phashBlock params) fuel BlockAssembler.reset with
        | .error f => some (.error f)
        | .ok none => none
        | .ok (some lp) => some (some <$> finishTemplate henv env H params m connectBlock pindexPrev
            nAdjustedTime fPos pwallet.isSome coinbase stake header lp.st)
      (result, nLastCoinStakeSearchTime)

/-! ### A stake template with a late transaction -/

section LateTx

variable {henv env H params m connectBlock pindexPrev nAdjustedTime mp nBlockMaxWeight nVersion}

/-- A coinstake the search keeps has a time the block time may take. -/
theorem searchCoinStake_time {w : StakeWallet} {nBits : UInt32} {nLast nLast' : Int}
    {txCoinStake : CTransaction}
    (h : searchCoinStake params m pindexPrev nAdjustedTime w nBits nLast = (some txCoinStake, nLast')) :
    m.getMedianTimePast pindexPrev + 1 ≤ txCoinStake.nTime.toNat ∧
      pindexPrev.getBlockTime - MAX_FUTURE_BLOCK_TIME params.fIsVericoin ≤ txCoinStake.nTime.toNat := by
  unfold searchCoinStake at h
  dsimp only at h
  split at h
  · obtain ⟨hfound, -⟩ := Prod.mk.inj h
    obtain ⟨-, hguard⟩ := Option.filter_eq_some_iff.mp hfound
    exact Int.max_le.mp (of_decide_eq_true hguard)
  · cases h

/-- **The header time of a stake template** is its latest transaction's time,
when the coinstake already meets the two lower bounds. -/
theorem templateTime_of_stake {block : CBlock} {tx0 tx1 : CTransaction} {rest : List CTransaction}
    (hvtx : block.vtx = tx0 :: tx1 :: rest)
    (hmtp : m.getMedianTimePast pindexPrev + 1 ≤ block.getMaxTransactionTime)
    (hprev : pindexPrev.getBlockTime - MAX_FUTURE_BLOCK_TIME params.fIsVericoin ≤
      block.getMaxTransactionTime) :
    templateTime params m pindexPrev nAdjustedTime true block =
      .ok { block with nTime := UInt32.ofInt block.getMaxTransactionTime } := by
  obtain ⟨h0, hlt⟩ := getMaxTransactionTime_bounds block
  -- the first write, the coinstake's time
  have hfirst : ((fun tx1 => { block with nTime := tx1.nTime }) <$> Fault.index block.vtx 1 :
      Faulty CBlock) = .ok { block with nTime := tx1.nTime } := by
    simp [Fault.index, hvtx]
  have hsecond : max (m.getMedianTimePast pindexPrev + 1) block.getMaxTransactionTime =
      block.getMaxTransactionTime := max_eq_right hmtp
  have hthird : max ((UInt32.ofInt block.getMaxTransactionTime).toNat : Int)
      (pindexPrev.getBlockTime - MAX_FUTURE_BLOCK_TIME params.fIsVericoin) =
      block.getMaxTransactionTime := by
    rw [toNat_ofInt_of_lt h0 hlt]
    exact max_eq_left hprev
  -- the second write reads the transactions, which the first leaves as they are
  have hsame : ({ block with nTime := tx1.nTime } : CBlock).getMaxTransactionTime =
      block.getMaxTransactionTime := rfl
  simp only [templateTime, hfirst, if_true, Fault.ok_bind, CBlockHeader.getBlockTime]
  rw [hsame, hsecond, hthird]
  rfl

/-- `TestBlockValidity` rejects, with a reason, what `CheckBlock` rejects,
when the target the header check requires is computed without a throw. -/
theorem testBlockValidity_rejects {block : CBlock} {nBits : UInt32}
    (htarget : getNextTargetOrWorkRequired henv m pindexPrev
      (isProofOfStake params (pindexPrev.nHeight + 1)) params = .ok nBits)
    (hcheck : ∃ e, (checkBlock env H params.fIsVericoin params block false false true).1 = .error e ∧
      e.isException = false) :
    ∃ e, (testBlockValidity henv env H params m connectBlock pindexPrev nAdjustedTime block
      false false).run = .ok (.error e) ∧ e.isException = false := by
  obtain ⟨r, hr, hrex⟩ := contextualCheckBlockHeader_run henv params.fIsVericoin params m
    block.toCBlockHeader pindexPrev nAdjustedTime htarget
  obtain ⟨e, he, hex⟩ := hcheck
  cases r with
  | error e' => exact ⟨e', by simp [testBlockValidity, ExceptT.run_bind, hr], hrex e' rfl⟩
  | ok u =>
    exact ⟨e, by simp [testBlockValidity, ExceptT.run_bind, hr, he, ValidationM.ofExcept], hex⟩

/-- A stake template for a wallet whose mempool part holds a transaction
later than the coinstake takes that later time and fails `TestBlockValidity`,
so the call throws. -/
theorem finishTemplate_throws_of_late_tx {coinbase txCoinStake : CTransaction}
    {header : CBlockHeader} {st : BlockAssembler} (hvericoin : params.fIsVericoin = true)
    (hdiv : (params.nTargetTimespan.tdiv params.nStakeTargetSpacing + 1) *
      params.nStakeTargetSpacing ≠ 0)
    (hcoinstake : txCoinStake.isCoinStake = true)
    (hmtp : m.getMedianTimePast pindexPrev + 1 ≤ txCoinStake.nTime.toNat)
    (hprev : pindexPrev.getBlockTime - MAX_FUTURE_BLOCK_TIME params.fIsVericoin ≤
      txCoinStake.nTime.toNat)
    (hlate : ∃ tx ∈ st.vtx, txCoinStake.nTime < tx.nTime) :
    ∃ reason, finishTemplate henv env H params m connectBlock pindexPrev nAdjustedTime true true
      coinbase (some txCoinStake) header st =
        .error (.exception ("CreateNewBlock: TestBlockValidity failed: " ++ reason)) := by
  obtain ⟨tx, htx, hlt⟩ := hlate
  -- the block before its header time
  obtain ⟨block, hblock⟩ : ∃ block : CBlock, block =
      { toCBlockHeader := { header with hashPrevBlock := pindexPrev.getBlockHash }
        vtx := makeTransactionRef H coinbase :: ((some txCoinStake).toList ++ st.vtx)
        vchBlockSig := [], fChecked := false } := ⟨_, rfl⟩
  have hvtx : block.vtx = makeTransactionRef H coinbase :: txCoinStake :: st.vtx := by
    rw [hblock]
    rfl
  have hcsmax : (txCoinStake.nTime.toNat : Int) ≤ block.getMaxTransactionTime :=
    le_getMaxTransactionTime (by simp [hvtx])
  have htxmax : (tx.nTime.toNat : Int) ≤ block.getMaxTransactionTime :=
    le_getMaxTransactionTime (by simp [hvtx, htx])
  -- the block `TestBlockValidity` gets: the latest transaction's time, which is not the coinstake's
  have hpos : CBlock.isProofOfStake params.fIsVericoin
      { block with nTime := UInt32.ofInt block.getMaxTransactionTime, nNonce := 0 } = true := by
    simp [CBlock.isProofOfStake, hvericoin, hvtx, hcoinstake]
  have htime : CBlockHeader.getBlockTime
      { block with nTime := UInt32.ofInt block.getMaxTransactionTime, nNonce := 0 }.toCBlockHeader ≠
      txCoinStake.nTime.toNat := by
    obtain ⟨h0, hlt32⟩ := getMaxTransactionTime_bounds block
    have hblockTime := toNat_ofInt_of_lt h0 hlt32
    have hltNat := UInt32.lt_iff_toNat_lt.mp hlt
    simp only [CBlockHeader.getBlockTime]
    omega
  have hvtx' : CBlock.vtx { block with nTime := UInt32.ofInt block.getMaxTransactionTime, nNonce := 0 } =
      makeTransactionRef H coinbase :: txCoinStake :: st.vtx := hvtx
  have hfresh : CBlock.fChecked
      { block with nTime := UInt32.ofInt block.getMaxTransactionTime, nNonce := 0 } = false := by
    rw [hblock]
  -- on Vericoin the header check recomputes the stake retarget, which does not throw
  obtain ⟨nBits, htarget⟩ := getNextTargetRequired_ok m params pindexPrev
    (isProofOfStake params (pindexPrev.nHeight + 1)) hdiv
  obtain ⟨e, he, hex⟩ := @testBlockValidity_rejects henv env H params m connectBlock pindexPrev
    nAdjustedTime { block with nTime := UInt32.ofInt block.getMaxTransactionTime, nNonce := 0 } nBits
    (by rw [getNextTargetOrWorkRequired, if_pos hvericoin, htarget])
    (checkBlock_error_of_coinstake_time env H params.fIsVericoin params hfresh hvtx' hpos htime
      false false true)
  simp only [finishTemplate, if_true]
  rw [← hblock, templateTime_of_stake hvtx (le_trans hmtp hcsmax) (le_trans hprev hcsmax),
    Fault.ok_bind]
  dsimp only
  rw [he]
  -- a rejection, not an exception, so the call throws its own message
  cases e with
  | invalid result reason => exact ⟨reason, rfl⟩
  | failed message => exact ⟨"Valid", rfl⟩
  | exception what => cases hex

theorem createNewBlock_throws_of_late_tx {w : StakeWallet} {txCoinStake : CTransaction}
    {nLastCoinStakeSearchTime nLast' : Int} {fuel : Nat} {scriptPubKeyIn : CScript}
    {lp : PackageLoop} {nBits : UInt32} (hvericoin : params.fIsVericoin = true)
    (hdiv : (params.nTargetTimespan.tdiv params.nStakeTargetSpacing + 1) *
      params.nStakeTargetSpacing ≠ 0)
    (htarget : getNextTargetRequired m params pindexPrev true = .ok nBits)
    (hstake : searchCoinStake params m pindexPrev nAdjustedTime w nBits nLastCoinStakeSearchTime =
        (some txCoinStake, nLast'))
    (hcoinstake : txCoinStake.isCoinStake = true)
    (hfill : addPackageTxs mp nBlockMaxWeight (pindexPrev.nHeight + 1) (m.getMedianTimePast pindexPrev)
      false fuel BlockAssembler.reset = .ok (some lp))
    (hlate : ∃ tx ∈ lp.st.vtx, txCoinStake.nTime < tx.nTime) :
    ∃ reason, createNewBlock henv env H params m connectBlock pindexPrev nAdjustedTime mp
      nBlockMaxWeight nVersion fuel scriptPubKeyIn true (some w) nLastCoinStakeSearchTime =
        (some (.error (.exception ("CreateNewBlock: TestBlockValidity failed: " ++ reason))), nLast') := by
  obtain ⟨hmtp, hprev⟩ := searchCoinStake_time hstake
  have hcutoff : (STANDARD_LOCKTIME_VERIFY_FLAGS &&& LOCKTIME_MEDIAN_TIME_PAST != 0) = true := by
    decide
  simp only [createNewBlock, if_true, htarget, hstake, hcutoff, isWitnessEnabled, hfill,
    Option.isSome_some, Option.isNone_some, Bool.and_true, Bool.and_false, Bool.false_eq_true,
    if_false, Prod.mk.injEq, Option.some.injEq, and_true, Fault.map_eq_error]
  exact finishTemplate_throws_of_late_tx hvericoin hdiv hcoinstake hmtp hprev hlate

end LateTx

/-- The tip of the witness: height `100`, time `1000`, no parent. -/
def stakeTip : CBlockIndex := smallEntry 0 none 100 1000

/-- A wallet that stakes at the time it is given: one input from a spent
output, the empty marker, and one output. -/
def stakeWallet : StakeWallet where
  createCoinStake _ _ _ nTime := some
    { nVersion := 1, nTime, vin := [⟨⟨uint256.arithToUint256 7, 0⟩, [], SEQUENCE_FINAL, []⟩]
      vout := [⟨0, []⟩, ⟨100 * COIN, [OP_1]⟩], nLockTime := 0, hash := uint256.arithToUint256 8 }

/-- A mempool of one transaction, made 100 seconds after the adjusted time
of the witness, within `MAX_FUTURE_BLOCK_TIME` of it. -/
def lateMempool : MempoolView where
  entry _ :=
    { tx := { nVersion := 1, nTime := 2100
              vin := [⟨⟨uint256.arithToUint256 9, 0⟩, [], SEQUENCE_FINAL, []⟩]
              vout := [⟨COIN, []⟩], nLockTime := 0, hash := uint256.arithToUint256 10 }
      nFee := 1000, nModifiedFee := 1000, nTxSize := 200, nTxWeight := 800, sigOpCost := 0
      nCountWithAncestors := 1, nSizeWithAncestors := 200, nModFeesWithAncestors := 1000
      nSigOpCostWithAncestors := 0 }
  byAncestorScore := [0]
  ancestorsOf _ := []
  descendantsOf it := [it]

theorem createNewBlock_throws_of_late_tx_stake :
    ∃ reason, createNewBlock ⟨fun _ _ => 0, [], false⟩ noKeyEnv zeroHashers smallParams (fun _ => none)
      (fun _ => pure ()) stakeTip 2000 lateMempool 996000 7 2 [] true (some stakeWallet) 0 =
        (some (.error (.exception ("CreateNewBlock: TestBlockValidity failed: " ++ reason))), 2000) :=
  createNewBlock_throws_of_late_tx rfl (by decide) rfl rfl rfl rfl
    ⟨_, List.mem_singleton_self _, by decide⟩

end Create

end Veribase
