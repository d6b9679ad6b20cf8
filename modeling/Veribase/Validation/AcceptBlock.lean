import Veribase.Validation.Contextual

/-!
# Accepting headers and blocks

`AcceptBlockHeader` (`validation.cpp`) enters a header into the block index:
a known header is returned as it is, a new one is checked against its
predecessor (`ContextualCheckBlockHeader`, and the walk that marks the
descendants of a failed block) and added by `AddToBlockIndex`.
`AcceptBlock` then checks the block itself (`CheckBlock`,
`ContextualCheckBlock`, `VericoinContextualBlockChecks`) and stores it.

For a new header the code calls `CheckBlockHeader(block, state, params,
!IsProofOfStake(params, pindex->nHeight+1))` while `pindex` is still the null
pointer it was initialised to: it is only set on the path of a known header,
which has returned.  The read is undefined behaviour, and the model ends it
in `Fault.nullDeref` (`acceptBlockHeader_new_nullDeref`).  The checks the
code goes on with are `checkNewHeader`.

`AddToBlockIndex` builds the entry from the header, `nFlags` included, and
ORs in the proof-of-stake bit when the *height* is a stake height.  The flags
a peer sent in the header therefore stay in the entry
(`addToBlockIndex_nFlags`).

The node's state is `NodeState`; acceptance runs in `NodeM`, where a
rejection keeps the state changes made before it, as the code's in-place
writes do.
-/

namespace Veribase

open Checks

/-- The node's state as block acceptance reads and writes it. -/
structure NodeState where
  /-- `m_block_index`. -/
  mapBlockIndex : BlockMap
  /-- `ChainActive()`. -/
  chainActive : CChain
  /-- `g_txindex`. -/
  txindex : TxIndex
  /-- `m_failed_blocks`, by key. -/
  failedBlocks : List uint256
  /-- The blocks written to disk, by hash. -/
  blocks : uint256 → Option CBlock
  /-- The `static` cache of `GetAverageStakeWeight`. -/
  stakeWeightCache : StakeWeightCache
  /-- `GetAdjustedTime()`. -/
  nAdjustedTime : Int
  nMinimumChainWork : Nat

/-- Acceptance: a rejection with its reason, above the node state, above a
possible fault. -/
abbrev NodeM := ExceptT BlockError (StateT NodeState Faulty)

/-- A possible fault inside acceptance. -/
def NodeM.fault {α : Type} (x : Faulty α) : NodeM α := ExceptT.lift (StateT.lift x)

@[simp] theorem NodeM.run_get_bind {α : Type} (k : NodeState → NodeM α) (st : NodeState) :
    (get >>= k : NodeM α).run.run st = (k st).run.run st := rfl

@[simp] theorem NodeM.run_fault_error_bind {α β : Type} (f : Fault) (k : α → NodeM β)
    (st : NodeState) : (NodeM.fault (.error f) >>= k).run.run st = .error f := rfl

/-- A fault ends the rest of the computation. -/
theorem NodeM.run_bind_of_error {α β : Type} {x : NodeM α} {st : NodeState} {f : Fault}
    (k : α → NodeM β) (hx : x.run.run st = .error f) : (x >>= k).run.run st = .error f := by
  simp only [ExceptT.run_bind, StateT.run_bind, hx]
  rfl

/-- A success passes its value and state on to the rest. -/
theorem NodeM.run_bind_of_ok {α β : Type} {x : NodeM α} {st st' : NodeState} {a : α}
    (k : α → NodeM β) (hx : x.run.run st = .ok (.ok a, st')) :
    (x >>= k).run.run st = (k a).run.run st' := by
  simp only [ExceptT.run_bind, StateT.run_bind, hx]
  rfl

/-- A validation inside acceptance: its rejection is the caller's. -/
def NodeM.validate {α : Type} (x : ValidationM α) : NodeM α := ExceptT.mk (StateT.lift x.run)

/-- The stake checks inside acceptance, on the node's cache: their result,
a rejection included. -/
def NodeM.stakeResult {α : Type} (x : StakeM α) : NodeM (Except BlockError α) :=
  ExceptT.lift fun st => do
    let (r, cache) ← x.run.run st.stakeWeightCache
    pure (r, { st with stakeWeightCache := cache })

/-- Store an entry under its key. -/
def NodeM.store (e : CBlockIndex) : NodeM Unit :=
  modify fun st => { st with mapBlockIndex := st.mapBlockIndex.update e }

/-! ## `AddToBlockIndex` -/

/-- `AddToBlockIndex(block)`: the entry of a known hash, or a new entry built
from the header, linked to its predecessor when that is known, flagged
proof-of-stake by the height schedule, and valid up to `BLOCK_VALID_TREE`. -/
def addToBlockIndex (H : Hashers) (IsVericoin : Bool) (params : Params) (m : BlockMap)
    (block : CBlockHeader) : CBlockIndex × BlockMap :=
  let hash := block.getHash H IsVericoin
  match m hash with
  | some e => (e, m)
  | none =>
      let pindexNew := { CBlockIndex.ofHeader block with phashBlock := some hash }
      let pindexNew := match m block.hashPrevBlock with
        | some prev => { pindexNew with pprev := some block.hashPrevBlock, nHeight := prev.nHeight + 1 }
        | none => pindexNew
      let pindexNew :=
        if isProofOfStake params pindexNew.nHeight then pindexNew.setProofOfStake else pindexNew
      let prevWork := ((m.prev pindexNew).map (·.nChainWork)).getD 0
      let pindexNew := { pindexNew with nChainWork := prevWork + getBlockProof pindexNew.nBits }
      let pindexNew := pindexNew.raiseValidity BLOCK_VALID_TREE
      (pindexNew, m.update pindexNew)

/-- The proof-of-stake bit `AddToBlockIndex` sets for a height. -/
def heightFlags (params : Params) (nHeight : Int) : UInt32 :=
  if isProofOfStake params nHeight then CBlockIndex.BLOCK_PROOF_OF_STAKE else 0

/-- Setting the stake bit by the height adds `heightFlags`. -/
theorem nFlags_setProofOfStake_byHeight (params : Params) (e : CBlockIndex) :
    (if isProofOfStake params e.nHeight then e.setProofOfStake else e).nFlags =
      e.nFlags ||| heightFlags params e.nHeight := by
  unfold heightFlags
  split_ifs <;> simp [CBlockIndex.nFlags_or_setProofOfStake]

theorem nHeight_setProofOfStake_byHeight (params : Params) (e : CBlockIndex) :
    (if isProofOfStake params e.nHeight then e.setProofOfStake else e).nHeight = e.nHeight := by
  split_ifs <;> rfl

/-- **The header's flags stay in the new entry.**  A new entry's `nFlags` is
the header's, with the stake bit of its height OR-ed in. -/
theorem addToBlockIndex_nFlags (H : Hashers) (IsVericoin : Bool) (params : Params) (m : BlockMap)
    (block : CBlockHeader) (hnew : m (block.getHash H IsVericoin) = none) :
    (addToBlockIndex H IsVericoin params m block).1.nFlags =
      block.nFlags ||| heightFlags params (addToBlockIndex H IsVericoin params m block).1.nHeight := by
  simp only [addToBlockIndex, hnew, CBlockIndex.raiseValidity_nFlags,
    CBlockIndex.raiseValidity_nHeight, nFlags_setProofOfStake_byHeight,
    nHeight_setProofOfStake_byHeight]
  -- linking to a known predecessor changes the height, not the flags
  cases m block.hashPrevBlock <;> rfl

/-! ## `AcceptBlockHeader` -/

section Header

variable (henv : HeaderEnv) (H : Hashers) (IsVericoin : Bool) (params : Params)

/-- `pindexPrev->GetAncestor(failedit->nHeight) == failedit`. -/
def descendsFrom (m : BlockMap) (pindexPrev : CBlockIndex) (failedit : CBlockIndex) : Bool :=
  (m.getAncestor pindexPrev failedit.nHeight).any (·.phashBlock == failedit.phashBlock)

/-- The walk from `invalid_walk` down to `failedit`, setting
`BLOCK_FAILED_CHILD` on the way; it reads through `pprev` until it meets
`failedit`, with `fuel` bounding the steps. -/
def markFailedChild (failedit : CBlockIndex) : Nat → Option CBlockIndex → NodeM Unit
  | 0, _ => pure ()
  | fuel + 1, invalid_walk => do
      let walk ← NodeM.fault (Fault.deref invalid_walk)
      if walk.phashBlock != failedit.phashBlock then
        NodeM.store { walk with nStatus := walk.nStatus ||| BLOCK_FAILED_CHILD }
        let m := (← get).mapBlockIndex
        markFailedChild failedit fuel (m.prev walk)

/-- The loop over `m_failed_blocks`: the first failed block `pindexPrev`
descends from marks the blocks between and rejects. -/
def checkFailedAncestors (pindexPrev : CBlockIndex) : List uint256 → NodeM Unit
  | [] => pure ()
  | key :: rest => do
      let m := (← get).mapBlockIndex
      let failedit ← NodeM.fault (Fault.deref (m key))
      if descendsFrom m pindexPrev failedit then
        NodeM.fault (Fault.check (failedit.nStatus &&& BLOCK_FAILED_VALID != 0))
        markFailedChild failedit (pindexPrev.nHeight.toNat + 1) (some pindexPrev)
        throw (.invalid .BLOCK_INVALID_PREV "bad-prevblk")
      else checkFailedAncestors pindexPrev rest

/-- The checks of a new header against its predecessor, which the code runs
after the `CheckBlockHeader` call. -/
def checkNewHeader (block : CBlockHeader) : NodeM Unit := do
  let st ← get
  let some pindexPrev := st.mapBlockIndex block.hashPrevBlock
    | throw (.invalid .BLOCK_MISSING_PREV "prev-blk-not-found")
  rejectIfT (pindexPrev.nStatus &&& BLOCK_FAILED_MASK != 0)
    (.invalid .BLOCK_INVALID_PREV "bad-prevblk")
  NodeM.validate (contextualCheckBlockHeader henv IsVericoin params st.mapBlockIndex block
    (some pindexPrev) st.nAdjustedTime)
  if !pindexPrev.isValid BLOCK_VALID_SCRIPTS then checkFailedAncestors pindexPrev st.failedBlocks

/-- `AddToBlockIndex` on the node's index. -/
def addToBlockIndexM (block : CBlockHeader) : NodeM CBlockIndex := do
  let st ← get
  let (pindex, m) := addToBlockIndex H IsVericoin params st.mapBlockIndex block
  set { st with mapBlockIndex := m }
  pure pindex

/-- `AcceptBlockHeader(block, state, chainparams, &pindex)`. -/
def acceptBlockHeader (block : CBlockHeader) : NodeM CBlockIndex := do
  let hash := block.getHash H IsVericoin
  if hash != params.hashGenesisBlock then
    match (← get).mapBlockIndex hash with
    | some pindex =>
        rejectIfT (pindex.nStatus &&& BLOCK_FAILED_MASK != 0)
          (.invalid .BLOCK_CACHED_INVALID "duplicate")
        pure pindex
    | none =>
        -- `pindex->nHeight` with `pindex` still null, for an argument the check ignores
        let pindex ← NodeM.fault (Fault.deref (none : Option CBlockIndex))
        let _fCheckPOW := !isProofOfStake params (pindex.nHeight + 1)
        checkNewHeader henv IsVericoin params block
        addToBlockIndexM H IsVericoin params block
  else addToBlockIndexM H IsVericoin params block

/-- **A new header is read through a null pointer.**  Every header that is
not the genesis block and not yet in the index makes `AcceptBlockHeader`
dereference `pindex` while it is null. -/
theorem acceptBlockHeader_new_nullDeref (block : CBlockHeader) (st : NodeState)
    (hgenesis : block.getHash H IsVericoin ≠ params.hashGenesisBlock)
    (hnew : st.mapBlockIndex (block.getHash H IsVericoin) = none) :
    (acceptBlockHeader henv H IsVericoin params block).run.run st = .error .nullDeref := by
  have hne : (block.getHash H IsVericoin != params.hashGenesisBlock) = true := by simpa using hgenesis
  simp only [acceptBlockHeader, hne, if_true, NodeM.run_get_bind, hnew, Fault.deref_none,
    NodeM.run_fault_error_bind]

/-- A known header that has not failed is returned as it is, and the state
is left alone. -/
theorem acceptBlockHeader_known (block : CBlockHeader) (st : NodeState) (e : CBlockIndex)
    (hgenesis : block.getHash H IsVericoin ≠ params.hashGenesisBlock)
    (he : st.mapBlockIndex (block.getHash H IsVericoin) = some e)
    (hfailed : e.nStatus &&& BLOCK_FAILED_MASK = 0) :
    (acceptBlockHeader henv H IsVericoin params block).run.run st = .ok (.ok e, st) := by
  have hne : (block.getHash H IsVericoin != params.hashGenesisBlock) = true := by simpa using hgenesis
  simp only [acceptBlockHeader, hne, if_true, NodeM.run_get_bind, he, hfailed]
  rfl

end Header

/-! ## `AcceptBlock` -/

/-- `MIN_BLOCKS_TO_KEEP`. -/
def MIN_BLOCKS_TO_KEEP : Int := 288

section Block

variable (henv : HeaderEnv) (env : CheckBlockEnv) (senv : StakeEnv) (H : Hashers)
  (IsVericoin : Bool) (params : Params)

/-- Mark the entry `BLOCK_FAILED_VALID` and reject with `e`. -/
def failBlock {α : Type} (pindex : CBlockIndex) (e : BlockError) : NodeM α := do
  NodeM.store { pindex with nStatus := pindex.nStatus ||| BLOCK_FAILED_VALID }
  throw e

/-- `SaveBlockToDisk` and `ReceivedBlockTransactions`: the block is stored and
its entry has data, `nTx` and validity `BLOCK_VALID_TRANSACTIONS`. -/
def receivedBlockTransactions (block : CBlock) (pindex : CBlockIndex) : NodeM Unit := do
  let stored := { pindex with nTx := block.vtx.length, nStatus := pindex.nStatus ||| BLOCK_HAVE_DATA }
  NodeM.store (stored.raiseValidity BLOCK_VALID_TRANSACTIONS)
  modify fun st => { st with blocks := fun h => if some h = pindex.phashBlock then some block else st.blocks h }

/-- The checks of `AcceptBlock` once the header is accepted: the stake
predecessor, whether to process the block at all, `CheckBlock` and
`ContextualCheckBlock` (a failure other than `BLOCK_MUTATED` marks the entry
failed), `VericoinContextualBlockChecks`, which writes the entry, and the
store.  `true` when the block was stored. -/
def acceptBlockChecks (block : CBlock) (fRequested : Bool) (pindex : CBlockIndex) : NodeM Bool := do
  let st ← get
  let m := st.mapBlockIndex
  if params.fIsVericoin then
    if let some pprev := m.prev pindex then
      rejectIfT (!pprev.isValid BLOCK_VALID_TRANSACTIONS)
        (.failed "AcceptBlock: this block does not connect to any valid known block")
  let fAlreadyHave := pindex.nStatus &&& BLOCK_HAVE_DATA != 0
  let fHasMoreOrSameWork := match st.chainActive.tip.bind m with
    | some tip => decide (pindex.nChainWork ≥ tip.nChainWork)
    | none => true
  let fTooFarAhead := pindex.nHeight > st.chainActive.height + MIN_BLOCKS_TO_KEEP
  if fAlreadyHave then return false
  if !fRequested && (pindex.nTx != 0 || !fHasMoreOrSameWork || fTooFarAhead ||
      decide (pindex.nChainWork < st.nMinimumChainWork)) then return false
  match checkBlock env H IsVericoin params block true true true with
  | (.error e, _) =>
      match e with
      | .invalid .BLOCK_MUTATED _ => throw e
      | _ => failBlock pindex e
  | (.ok (), _) =>
      match (contextualCheckBlock env params m block (m.prev pindex)).run with
      | .error f => NodeM.fault (.error f)
      | .ok (.error e) =>
          match e with
          | .invalid .BLOCK_MUTATED _ => throw e
          | _ => failBlock pindex e
      | .ok (.ok ()) =>
          let checked ← NodeM.stakeResult (vericoinContextualBlockChecks H IsVericoin params senv m
            st.chainActive st.txindex block pindex false)
          match checked with
          | .error _ => failBlock pindex (.invalid .BLOCK_CONSENSUS "bad-pos")
          | .ok written =>
              NodeM.store written
              receivedBlockTransactions block written
              return true

/-- `AcceptBlock(pblock, state, chainparams, &pindex, fRequested, dbp,
fNewBlock)`: `true` when the block was stored, `false` for a block the node
does not process. -/
def acceptBlock (block : CBlock) (fRequested : Bool) : NodeM Bool := do
  let pindex ← acceptBlockHeader henv H IsVericoin params block.toCBlockHeader
  acceptBlockChecks env senv H IsVericoin params block fRequested pindex

/-- **A new block faults.**  A block that is not the genesis block and whose
header the index does not hold yet makes `AcceptBlock` read through the null
`pindex` of `AcceptBlockHeader`; no check runs after it. -/
theorem acceptBlock_new_nullDeref (block : CBlock) (fRequested : Bool) (st : NodeState)
    (hgenesis : block.getHash H IsVericoin ≠ params.hashGenesisBlock)
    (hnew : st.mapBlockIndex (block.getHash H IsVericoin) = none) :
    (acceptBlock henv env senv H IsVericoin params block fRequested).run.run st = .error .nullDeref := by
  unfold acceptBlock
  exact NodeM.run_bind_of_error _
    (acceptBlockHeader_new_nullDeref henv H IsVericoin params block.toCBlockHeader st hgenesis hnew)

/-- The cases in which `AcceptBlock` returns without processing the block:
its data is stored, or it was not requested and its entry has transactions
(a pruned block), less work than the tip, is more than `MIN_BLOCKS_TO_KEEP`
ahead of the tip, or is below `nMinimumChainWork`. -/
def SkipsProcessing (st : NodeState) (fRequested : Bool) (pindex : CBlockIndex) : Prop :=
  pindex.nStatus &&& BLOCK_HAVE_DATA ≠ 0 ∨
    fRequested = false ∧
      (pindex.nTx ≠ 0 ∨
        (∃ tip, st.chainActive.tip.bind st.mapBlockIndex = some tip ∧
          pindex.nChainWork < tip.nChainWork) ∨
        pindex.nHeight > st.chainActive.height + MIN_BLOCKS_TO_KEEP ∨
        pindex.nChainWork < st.nMinimumChainWork)

/-- A block `AcceptBlock` skips is not checked: once its predecessor passes,
the call returns without a rejection and without touching the state. -/
theorem acceptBlockChecks_unprocessed (block : CBlock) (fRequested : Bool) (st : NodeState)
    (pindex : CBlockIndex)
    (hprev : ∀ pprev, st.mapBlockIndex.prev pindex = some pprev →
      pprev.isValid BLOCK_VALID_TRANSACTIONS = true)
    (hskip : SkipsProcessing st fRequested pindex) :
    (acceptBlockChecks env senv H IsVericoin params block fRequested pindex).run.run st =
      .ok (.ok false, st) := by
  unfold acceptBlockChecks
  rw [NodeM.run_get_bind]
  dsimp only
  -- the predecessor check passes, so every branch reaches the skip tests
  split
  split
  rename_i pprev hp
  simp only [hprev pprev hp, Bool.not_true, Checks.rejectIfT_false, pure_bind]
  all_goals
    rcases hskip with hdata | ⟨hreq, hrest⟩
    · rw [if_pos (by simpa using hdata)]
      rfl
    by_cases hdata : (pindex.nStatus &&& BLOCK_HAVE_DATA != 0) = true
    · rw [if_pos hdata]
      rfl
    rw [if_neg hdata, if_pos]
    · rfl
    simp only [hreq, Bool.not_false, Bool.true_and, Bool.or_eq_true, decide_eq_true_eq]
    rcases hrest with hnTx | ⟨tip, htip, hlt⟩ | hfar | hmin
    · simp [hnTx]
    · simp [htip, hlt]
    · exact Or.inl (Or.inr hfar)
    · exact Or.inr hmin

/-- **A known block can be skipped.**  For a block whose entry is in the
index and has not failed, `AcceptBlock` returns without a rejection and
leaves the state as it was whenever it skips the block. -/
theorem acceptBlock_unprocessed (block : CBlock) (fRequested : Bool) (st : NodeState)
    (e : CBlockIndex) (hgenesis : block.getHash H IsVericoin ≠ params.hashGenesisBlock)
    (he : st.mapBlockIndex (block.getHash H IsVericoin) = some e)
    (hfailed : e.nStatus &&& BLOCK_FAILED_MASK = 0)
    (hprev : ∀ pprev, st.mapBlockIndex.prev e = some pprev →
      pprev.isValid BLOCK_VALID_TRANSACTIONS = true)
    (hskip : SkipsProcessing st fRequested e) :
    (acceptBlock henv env senv H IsVericoin params block fRequested).run.run st =
      .ok (.ok false, st) := by
  unfold acceptBlock
  rw [NodeM.run_bind_of_ok _ (acceptBlockHeader_known henv H IsVericoin params
    block.toCBlockHeader st e hgenesis he hfailed)]
  exact acceptBlockChecks_unprocessed env senv H IsVericoin params block fRequested st e hprev hskip

end Block

/-! ## A small node

The runs below use `smallParams`, hashers that send every header to zero,
and outside functions that accept every script and merkle root. -/

/-- No checkpoints, and Verium's retarget never asked. -/
def noCheckpoints : HeaderEnv := ⟨fun _ _ => 0, [], false⟩

/-- A node that holds no block yet. -/
def NodeState.empty : NodeState where
  mapBlockIndex := fun _ => none
  chainActive := ⟨[]⟩
  txindex := none
  failedBlocks := []
  blocks := fun _ => none
  stakeWeightCache := .initial
  nAdjustedTime := 0
  nMinimumChainWork := 0

/-- The empty block reaches the null read on an empty node. -/
theorem acceptBlock_new_nullDeref_empty :
    (CBlock.ofHeader CBlockHeader.null).getHash zeroHashers true ≠ smallParams.hashGenesisBlock ∧
    NodeState.empty.mapBlockIndex ((CBlock.ofHeader CBlockHeader.null).getHash zeroHashers true) = none ∧
    (acceptBlock noCheckpoints noKeyEnv acceptingStakeEnv zeroHashers true smallParams
      (CBlock.ofHeader CBlockHeader.null) true).run.run NodeState.empty = .error .nullDeref :=
  ⟨by decide, rfl, acceptBlock_new_nullDeref noCheckpoints noKeyEnv acceptingStakeEnv zeroHashers true
    smallParams (CBlock.ofHeader CBlockHeader.null) true NodeState.empty (by decide) rfl⟩

/-! ## The flags of an accepted entry -/

/-- **The header's flags reach the written entry.**  A new header's entry,
once `VericoinContextualBlockChecks` has written it, carries the flags the
header came with, the stake bit of its height, and the entropy and modifier
bits the checks computed: the bits a peer sets in the header stay. -/
theorem vericoinContextualBlockChecks_header_nFlags (H : Hashers) (IsVericoin : Bool)
    (params : Params) (senv : StakeEnv) (m m' : BlockMap) (chainActive : CChain) (txindex : TxIndex)
    (block : CBlock) (written : CBlockIndex) (cache cache' : StakeWeightCache)
    (hv : params.fIsVericoin = true) (hnew : m (block.getHash H IsVericoin) = none)
    (hrun : (vericoinContextualBlockChecks H IsVericoin params senv m' chainActive txindex block
      (addToBlockIndex H IsVericoin params m block.toCBlockHeader).1 false).run.run cache =
      .ok (.ok written, cache')) :
    ∃ f cache₁, (stakeFields H IsVericoin params senv m' chainActive txindex block
        (addToBlockIndex H IsVericoin params m block.toCBlockHeader).1).run.run cache =
        .ok (.ok f, cache₁) ∧
      written.nFlags = block.nFlags |||
        heightFlags params (addToBlockIndex H IsVericoin params m block.toCBlockHeader).1.nHeight |||
        f.flags := by
  obtain ⟨f, cache₁, hf, hflags⟩ :=
    vericoinContextualBlockChecks_nFlags H IsVericoin params senv m' chainActive txindex hv hrun
  refine ⟨f, cache₁, hf, ?_⟩
  rw [hflags, addToBlockIndex_nFlags H IsVericoin params m block.toCBlockHeader hnew]

/-- The genesis entry: key `1`, height zero, and a generated modifier. -/
def genesisEntry : CBlockIndex :=
  { CBlockIndex.ofHeader CBlockHeader.null with
    phashBlock := some (uint256.arithToUint256 1)
    nFlags := CBlockIndex.BLOCK_STAKE_MODIFIER }

/-- An index that holds the genesis entry alone. -/
def genesisMap : BlockMap := BlockMap.ofList [genesisEntry]

/-- A work block on the genesis block whose header carries the stake bit
and the modifier bit. -/
def forgedBlock : CBlock :=
  CBlock.ofHeader { CBlockHeader.null with
    hashPrevBlock := uint256.arithToUint256 1
    nFlags := CBlockIndex.BLOCK_PROOF_OF_STAKE ||| CBlockIndex.BLOCK_STAKE_MODIFIER }

/-- `AddToBlockIndex` of the forged header: its entry, at height one, and the
index with it. -/
def forgedEntry : CBlockIndex × BlockMap :=
  addToBlockIndex zeroHashers true smallParams genesisMap forgedBlock.toCBlockHeader

/-- The checks pass the forged block and leave both forged bits in its entry. -/
theorem vericoinContextualBlockChecks_header_nFlags_forged :
    smallParams.fIsVericoin = true ∧
    genesisMap (forgedBlock.getHash zeroHashers true) = none ∧
    (vericoinContextualBlockChecks zeroHashers true smallParams acceptingStakeEnv forgedEntry.2 ⟨[]⟩
      none forgedBlock forgedEntry.1 false).run.run .initial = .ok (.ok forgedEntry.1, .initial) ∧
    ∃ f cache₁, (stakeFields zeroHashers true smallParams acceptingStakeEnv forgedEntry.2 ⟨[]⟩ none
        forgedBlock forgedEntry.1).run.run .initial = .ok (.ok f, cache₁) ∧
      forgedEntry.1.nFlags = forgedBlock.nFlags ||| heightFlags smallParams forgedEntry.1.nHeight |||
        f.flags :=
  ⟨rfl, by decide, by rfl,
    vericoinContextualBlockChecks_header_nFlags zeroHashers true smallParams acceptingStakeEnv
      genesisMap forgedEntry.2 ⟨[]⟩ none forgedBlock forgedEntry.1 .initial .initial rfl (by decide)
      (by rfl)⟩

/-- The entry says proof-of-stake and a generated modifier, where the
schedule says work and the computed modifier was not generated. -/
example : forgedEntry.1.isProofOfStake = true ∧ forgedEntry.1.generatedStakeModifier = true ∧
    isProofOfStake smallParams forgedEntry.1.nHeight = false ∧
    (computeNextStakeModifier zeroHashers smallParams forgedEntry.2 id acceptingStakeEnv.sort
      forgedEntry.1).map (·.2) = some false := by
  decide

/-! ## A work block past `PoSHeight`

The header checks choose by height: past `PoSHeight` they ask for the stake
target in `nBits`.  The block checks choose by content: a block without a
coinstake has its proof of work checked against the same `nBits`, and no
check compares the two.  A work block that carries the stake target is
therefore accepted at a stake height. -/

/-- The last block of work, at `PoSHeight`, valid up to its transactions,
with a generated modifier. -/
def lastWorkEntry : CBlockIndex :=
  { smallEntry 2 none 20160 0 with
    nStatus := BLOCK_VALID_TRANSACTIONS
    nFlags := CBlockIndex.BLOCK_STAKE_MODIFIER }

/-- A node whose index holds that block, one second after it. -/
def lastWorkState : NodeState :=
  { NodeState.empty with
    mapBlockIndex := BlockMap.ofList [lastWorkEntry]
    nAdjustedTime := 1 }

/-- A work block on it: a coinbase paying the work reward with the height in
its script, and the stake target of the height in `nBits`. -/
def workBlock : CBlock :=
  { CBlock.ofHeader { CBlockHeader.null with
      hashPrevBlock := smallKey 2
      nTime := 1
      nBits := getCompact (2 ^ 236) } with
    vtx := [⟨1, 0, [⟨⟨uint256.zero, COutPoint.NULL_INDEX⟩, pushInt64 20161, 0, []⟩],
      [⟨getProofOfWorkReward true 0 lastWorkEntry, []⟩], 0, smallKey 8⟩] }

/-- **A work block is accepted past `PoSHeight`.**  Its header passes the
checks `AcceptBlockHeader` makes of a new header, and once its entry is in
the index `AcceptBlock` stores the block, at height `PoSHeight + 1`, which
the schedule reserves for stake blocks. -/
theorem acceptBlock_work_above_PoSHeight :
    workBlock.isProofOfStake true = false ∧
    (addToBlockIndex zeroHashers true smallParams lastWorkState.mapBlockIndex
        workBlock.toCBlockHeader).1.nHeight = smallParams.PoSHeight + 1 ∧
    ((checkNewHeader noCheckpoints true smallParams workBlock.toCBlockHeader).run.run
        lastWorkState).map Prod.fst = .ok (.ok ()) ∧
    ((acceptBlock noCheckpoints noKeyEnv acceptingStakeEnv zeroHashers true smallParams workBlock true).run.run
        { lastWorkState with
          mapBlockIndex := (addToBlockIndex zeroHashers true smallParams lastWorkState.mapBlockIndex
            workBlock.toCBlockHeader).2 }).map Prod.fst = .ok (.ok true) := by
  decide +kernel

end Veribase
