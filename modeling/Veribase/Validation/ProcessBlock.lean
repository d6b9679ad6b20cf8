import Veribase.Validation.AcceptBlock

/-!
# Processing a new block, and the search for duplicate stakes

`ProcessNewBlock` (`validation.cpp`) runs `CheckBlock` on the block, then
`AcceptBlock`, and, once the block is accepted on Vericoin outside initial
block download, looks its entry's `hashProofOfStake` up in `vStakeSeen`, a
direct-mapped table of 1024 stake hashes indexed by `univHash`
(`hash.cpp`).  A hit sets `*fPoSDuplicate`, and the BLOCK handler
(`net_processing.cpp`) then adds 100 to the sending peer's `nPoSTemperature`.
The hash is written into its slot either way.

The search reads `pindex` as `AcceptBlock` left it, and `AcceptBlock` returns
true without validating the block in five cases: its data is already stored,
or it was not requested and the entry has transactions, or less work than
the tip, or is more than `MIN_BLOCKS_TO_KEEP` ahead, or is below
`nMinimumChainWork`.  An entry the checks never wrote still has the zero
`hashProofOfStake` it was built with, which the zero-initialised table holds
in every slot; an entry they did write finds its own hash in its slot the
next time the same block arrives.  Either way the flag is set with no second
block behind it (`processNewBlock_duplicate_unvalidated`).

In `AcceptBlock` the model's `false` is a block the node did not store; the
code returns true there and sets `*fNewBlock` to false, so the model's
result is `*fNewBlock` and a rejection is the code's `false`.
`ActivateBestChain`, which runs after the search, is left out, and
`IsInitialBlockDownload()` and `vericonomyRandseed` are arguments.
-/

namespace Veribase

/-! ## `univHash` -/

/-- `univHash(x)`: the words of `x` folded into an `int` under the seed, and
the sum of its two halves masked to ten bits.  The arithmetic is that of
`int` and `uint32_t`, wrapping. -/
def univHash (vericonomyRandseed : Int32) (x : uint256) : Fin 1024 :=
  let h := (List.range 8).foldl
    (fun (h : Int32) i =>
      let p := UInt32.ofNat (x.getDataPtr i)
      (h.toUInt32 ^^^ ((p >>> (h &&& 0xf).toUInt32) +
        (vericonomyRandseed >>> (Int32.ofNat i)).toUInt32)).toInt32)
    (vericonomyRandseed >>> 20)
  -- the mask leaves a value below 1024, so the reduction does nothing
  Fin.ofNat 1024 ((h + (h >>> 16)) &&& 1023).toNatClampNeg

/-! ## `ProcessNewBlock` -/

/-- The state `ProcessNewBlock` reads and writes: the node, and the table
`vStakeSeen`. -/
structure ProcessState where
  /-- The node's block index, chain and caches. -/
  node : NodeState
  /-- `vStakeSeen[1024]`. -/
  vStakeSeen : Fin 1024 → uint256

/-- What a call reports: `ret` as it stands after `AcceptBlock`,
`*fNewBlock` and `*fPoSDuplicate`. -/
structure ProcessResult where
  /-- The block was not rejected. -/
  ret : Bool
  /-- `*fNewBlock`. -/
  fNewBlock : Bool
  /-- `*fPoSDuplicate`. -/
  fPoSDuplicate : Bool
deriving DecidableEq, Repr

/-- A rejected block: nothing is reported. -/
def ProcessResult.rejected : ProcessResult := ⟨false, false, false⟩

section Process

variable (henv : HeaderEnv) (env : CheckBlockEnv) (senv : StakeEnv) (H : Hashers)
  (IsVericoin : Bool) (params : Params) (vericonomyRandseed : Int32)
  (fInitialBlockDownload : Bool)

/-- The search for a duplicate stake on the entry `pindex` of an accepted
block: the report, and the table with the entry's hash in its slot. -/
def searchDuplicate (vStakeSeen : Fin 1024 → uint256) (pindex : CBlockIndex) :
    Bool × (Fin 1024 → uint256) :=
  if params.fIsVericoin && pindex.isProofOfStake && !fInitialBlockDownload then
    let ndx := univHash vericonomyRandseed pindex.hashProofOfStake
    (vStakeSeen ndx == pindex.hashProofOfStake,
      Function.update vStakeSeen ndx pindex.hashProofOfStake)
  else (false, vStakeSeen)

/-- `ProcessNewBlock(chainparams, pblock, fForceProcessing, &fNewBlock,
ppindex, &fPoSDuplicate)` up to `ActivateBestChain`.  `CheckBlock` may set
the block's `fChecked`, which the `CheckBlock` inside `AcceptBlock` then
reads. -/
def processNewBlock (block : CBlock) (fForceProcessing : Bool) (s : ProcessState) :
    Faulty (ProcessResult × ProcessState) :=
  match checkBlock env H IsVericoin params block true true true with
  | (.error _, _) => pure (.rejected, s)
  | (.ok (), block) => do
      let (r, node) ← (acceptBlock henv env senv H IsVericoin params block fForceProcessing).run.run s.node
      match r with
      | .error _ => pure (.rejected, { s with node })
      | .ok fNewBlock =>
          -- `pindex` is the entry `AcceptBlock` left under the block's hash
          let pindex ← Fault.deref (node.mapBlockIndex (block.getHash H IsVericoin))
          let (fPoSDuplicate, vStakeSeen) :=
            searchDuplicate params vericonomyRandseed fInitialBlockDownload s.vStakeSeen pindex
          pure (⟨true, fNewBlock, fPoSDuplicate⟩, ⟨node, vStakeSeen⟩)

/-- The tail of the BLOCK handler: the block is processed, and a duplicate
stake adds 100 to the sending peer's `nPoSTemperature`. -/
def processBlockMessage (block : CBlock) (forceProcessing : Bool) (s : ProcessState)
    (nPoSTemperature : Int) : Faulty (ProcessState × Int) := do
  let (r, s) ← processNewBlock henv env senv H IsVericoin params vericonomyRandseed
    fInitialBlockDownload block forceProcessing s
  pure (s, if params.fIsVericoin && r.fPoSDuplicate then nPoSTemperature + 100 else nPoSTemperature)

/-- On a stake entry, on Vericoin and outside initial block download, the
search reports whether the entry's slot already held its hash, and writes
the hash there. -/
theorem searchDuplicate_of_stake (vStakeSeen : Fin 1024 → uint256) (pindex : CBlockIndex)
    (hv : params.fIsVericoin = true) (hibd : fInitialBlockDownload = false)
    (hpos : pindex.isProofOfStake = true) :
    searchDuplicate params vericonomyRandseed fInitialBlockDownload vStakeSeen pindex =
      (vStakeSeen (univHash vericonomyRandseed pindex.hashProofOfStake) == pindex.hashProofOfStake,
        Function.update vStakeSeen (univHash vericonomyRandseed pindex.hashProofOfStake)
          pindex.hashProofOfStake) := by
  simp [searchDuplicate, hv, hibd, hpos]

/-- A block that passes `CheckBlock` and that `AcceptBlock` does not reject
is reported accepted, with `*fNewBlock` as `AcceptBlock` set it and the
search's report on the entry under the block's hash. -/
theorem processNewBlock_of_accept {block block' : CBlock} {fForceProcessing fNewBlock : Bool}
    {s : ProcessState} {node : NodeState} {pindex : CBlockIndex}
    (hcheck : checkBlock env H IsVericoin params block true true true = (.ok (), block'))
    (hacc : (acceptBlock henv env senv H IsVericoin params block' fForceProcessing).run.run s.node =
      .ok (.ok fNewBlock, node))
    (hpindex : node.mapBlockIndex (block'.getHash H IsVericoin) = some pindex) :
    processNewBlock henv env senv H IsVericoin params vericonomyRandseed fInitialBlockDownload
        block fForceProcessing s =
      .ok (⟨true, fNewBlock,
          (searchDuplicate params vericonomyRandseed fInitialBlockDownload s.vStakeSeen pindex).1⟩,
        ⟨node, (searchDuplicate params vericonomyRandseed fInitialBlockDownload s.vStakeSeen pindex).2⟩) := by
  simp only [processNewBlock, hcheck, hacc, Fault.ok_bind, hpindex, Fault.deref_some]
  rfl

/-- The handler warms the peer by what the call reports. -/
theorem processBlockMessage_of_process {block : CBlock} {forceProcessing : Bool}
    {s s' : ProcessState} {r : ProcessResult} (nPoSTemperature : Int)
    (hprocess : processNewBlock henv env senv H IsVericoin params vericonomyRandseed
      fInitialBlockDownload block forceProcessing s = .ok (r, s')) :
    processBlockMessage henv env senv H IsVericoin params vericonomyRandseed fInitialBlockDownload
        block forceProcessing s nPoSTemperature =
      .ok (s', if params.fIsVericoin && r.fPoSDuplicate then nPoSTemperature + 100 else nPoSTemperature) := by
  simp only [processBlockMessage, hprocess, Fault.ok_bind]
  rfl

/-! ## Blocks `AcceptBlock` skips -/

/-- A stake block `AcceptBlock` skips goes through the search all the same:
the call reports it accepted, not new, and a duplicate exactly when its
slot already held its entry's stake hash, and writes that hash there. -/
theorem processNewBlock_unprocessed (block : CBlock) (fForceProcessing : Bool) (s : ProcessState)
    (e : CBlockIndex) (hv : params.fIsVericoin = true) (hibd : fInitialBlockDownload = false)
    (hcheck : (checkBlock env H IsVericoin params block true true true).1 = .ok ())
    (hgenesis : block.getHash H IsVericoin ≠ params.hashGenesisBlock)
    (he : s.node.mapBlockIndex (block.getHash H IsVericoin) = some e)
    (hfailed : e.nStatus &&& BLOCK_FAILED_MASK = 0)
    (hprev : ∀ pprev, s.node.mapBlockIndex.prev e = some pprev →
      pprev.isValid BLOCK_VALID_TRANSACTIONS = true)
    (hskip : SkipsProcessing s.node fForceProcessing e) (hpos : e.isProofOfStake = true) :
    processNewBlock henv env senv H IsVericoin params vericonomyRandseed fInitialBlockDownload
        block fForceProcessing s =
      .ok (⟨true, false, s.vStakeSeen (univHash vericonomyRandseed e.hashProofOfStake) ==
          e.hashProofOfStake⟩,
        ⟨s.node, Function.update s.vStakeSeen (univHash vericonomyRandseed e.hashProofOfStake)
          e.hashProofOfStake⟩) := by
  -- `AcceptBlock` sees the object `CheckBlock` returned, whose header is the block's
  set block' := (checkBlock env H IsVericoin params block true true true).2
  have hcheck' : checkBlock env H IsVericoin params block true true true = (.ok (), block') := by
    rw [← hcheck]
  have hhash : block'.getHash H IsVericoin = block.getHash H IsVericoin := by
    simp only [block', CBlock.getHash, checkBlock_snd_toCBlockHeader]
  rw [← hhash] at hgenesis he
  rw [processNewBlock_of_accept henv env senv H IsVericoin params vericonomyRandseed
      fInitialBlockDownload hcheck'
      (acceptBlock_unprocessed henv env senv H IsVericoin params block' fForceProcessing s.node e
        hgenesis he hfailed hprev hskip) he,
    searchDuplicate_of_stake params vericonomyRandseed fInitialBlockDownload s.vStakeSeen e hv hibd hpos]

/-- **Duplicate stakes without a second block.**  A stake block that
`AcceptBlock` skips, on Vericoin outside initial block download, is searched
for as if it had been validated.  Its first call writes its entry's stake
hash to its slot; the same block processed again is then a duplicate, and
its sender is warmed by 100.  An entry the checks never wrote still has the
zero stake hash, and the zero-initialised table makes it a duplicate at the
first call. -/
theorem processNewBlock_duplicate_unvalidated (block : CBlock) (fForceProcessing : Bool)
    (s : ProcessState) (e : CBlockIndex) (hv : params.fIsVericoin = true)
    (hibd : fInitialBlockDownload = false)
    (hcheck : (checkBlock env H IsVericoin params block true true true).1 = .ok ())
    (hgenesis : block.getHash H IsVericoin ≠ params.hashGenesisBlock)
    (he : s.node.mapBlockIndex (block.getHash H IsVericoin) = some e)
    (hfailed : e.nStatus &&& BLOCK_FAILED_MASK = 0)
    (hprev : ∀ pprev, s.node.mapBlockIndex.prev e = some pprev →
      pprev.isValid BLOCK_VALID_TRANSACTIONS = true)
    (hskip : SkipsProcessing s.node fForceProcessing e) (hpos : e.isProofOfStake = true)
    (nPoSTemperature : Int) :
    processNewBlock henv env senv H IsVericoin params vericonomyRandseed fInitialBlockDownload
        block fForceProcessing s =
      .ok (⟨true, false, s.vStakeSeen (univHash vericonomyRandseed e.hashProofOfStake) ==
          e.hashProofOfStake⟩,
        ⟨s.node, Function.update s.vStakeSeen (univHash vericonomyRandseed e.hashProofOfStake)
          e.hashProofOfStake⟩) ∧
    processBlockMessage henv env senv H IsVericoin params vericonomyRandseed fInitialBlockDownload
        block fForceProcessing
        ⟨s.node, Function.update s.vStakeSeen (univHash vericonomyRandseed e.hashProofOfStake)
          e.hashProofOfStake⟩ nPoSTemperature =
      .ok (⟨s.node, Function.update s.vStakeSeen (univHash vericonomyRandseed e.hashProofOfStake)
          e.hashProofOfStake⟩, nPoSTemperature + 100) ∧
    (e.hashProofOfStake = uint256.zero →
      processBlockMessage henv env senv H IsVericoin params vericonomyRandseed
          fInitialBlockDownload block fForceProcessing ⟨s.node, fun _ => uint256.zero⟩ nPoSTemperature =
        .ok (⟨s.node, fun _ => uint256.zero⟩, nPoSTemperature + 100)) := by
  have hcall := fun (vStakeSeen : Fin 1024 → uint256) =>
    processNewBlock_unprocessed henv env senv H IsVericoin params vericonomyRandseed
      fInitialBlockDownload block fForceProcessing ⟨s.node, vStakeSeen⟩ e hv hibd hcheck hgenesis he
      hfailed hprev hskip hpos
  refine ⟨hcall s.vStakeSeen, ?_, fun hzero => ?_⟩
  · -- the second call finds the hash the first one wrote
    rw [processBlockMessage_of_process henv env senv H IsVericoin params vericonomyRandseed
      fInitialBlockDownload nPoSTemperature (hcall _)]
    simp [hv]
  · -- the zero hash is in every slot of the fresh table
    rw [processBlockMessage_of_process henv env senv H IsVericoin params vericonomyRandseed
      fInitialBlockDownload nPoSTemperature (hcall _)]
    have hfresh : Function.update (fun _ => uint256.zero)
        (univHash vericonomyRandseed uint256.zero) uint256.zero = fun _ => uint256.zero :=
      Function.update_eq_self _ _
    simp only [hzero, hfresh, beq_self_eq_true, hv, Bool.and_self, if_true]

end Process

/-! ## A stake block ahead of an empty chain -/

/-- The entry of `workBlock`'s header on `lastWorkState`: height
`PoSHeight + 1`, so a stake entry, with no data and the zero stake hash. -/
def workHeaderEntry : CBlockIndex :=
  (addToBlockIndex zeroHashers true smallParams lastWorkState.mapBlockIndex
    workBlock.toCBlockHeader).1

/-- `lastWorkState` once the header of `workBlock` is in its index, with the
zero-initialised table.  The active chain is empty, so the block is more
than `MIN_BLOCKS_TO_KEEP` ahead of it. -/
def workHeaderState : ProcessState where
  node := { lastWorkState with
    mapBlockIndex := (addToBlockIndex zeroHashers true smallParams lastWorkState.mapBlockIndex
      workBlock.toCBlockHeader).2 }
  vStakeSeen := fun _ => uint256.zero

/-- The unrequested `workBlock` is skipped as too far ahead, and the first
call on it is a duplicate. -/
theorem processNewBlock_duplicate_unvalidated_ahead :
    smallParams.fIsVericoin = true ∧
    (checkBlock noKeyEnv zeroHashers true smallParams workBlock true true true).1 = .ok () ∧
    workBlock.getHash zeroHashers true ≠ smallParams.hashGenesisBlock ∧
    workHeaderState.node.mapBlockIndex (workBlock.getHash zeroHashers true) = some workHeaderEntry ∧
    workHeaderEntry.nStatus &&& BLOCK_FAILED_MASK = 0 ∧
    (∀ pprev, workHeaderState.node.mapBlockIndex.prev workHeaderEntry = some pprev →
      pprev.isValid BLOCK_VALID_TRANSACTIONS = true) ∧
    SkipsProcessing workHeaderState.node false workHeaderEntry ∧
    workHeaderEntry.isProofOfStake = true ∧
    workHeaderEntry.hashProofOfStake = uint256.zero ∧
    processBlockMessage noCheckpoints noKeyEnv acceptingStakeEnv zeroHashers true smallParams 0 false
        workBlock false ⟨workHeaderState.node, fun _ => uint256.zero⟩ 0 =
      .ok (⟨workHeaderState.node, fun _ => uint256.zero⟩, 100) := by
  have hprev : ∀ pprev, workHeaderState.node.mapBlockIndex.prev workHeaderEntry = some pprev →
      pprev.isValid BLOCK_VALID_TRANSACTIONS = true := by
    intro pprev hp
    have hlast : workHeaderState.node.mapBlockIndex.prev workHeaderEntry = some lastWorkEntry := by
      decide
    rw [hlast] at hp
    cases hp
    decide
  have hskip : SkipsProcessing workHeaderState.node false workHeaderEntry :=
    Or.inr ⟨rfl, Or.inr (Or.inr (Or.inl (by decide)))⟩
  have hcheck : (checkBlock noKeyEnv zeroHashers true smallParams workBlock true true true).1 =
      .ok () := by decide
  have hgenesis : workBlock.getHash zeroHashers true ≠ smallParams.hashGenesisBlock := by decide
  have he : workHeaderState.node.mapBlockIndex (workBlock.getHash zeroHashers true) =
      some workHeaderEntry := by decide
  have hfailed : workHeaderEntry.nStatus &&& BLOCK_FAILED_MASK = 0 := by decide
  have hpos : workHeaderEntry.isProofOfStake = true := by decide
  have hzero : workHeaderEntry.hashProofOfStake = uint256.zero := by decide
  refine ⟨rfl, hcheck, hgenesis, he, hfailed, hprev, hskip, hpos, hzero, ?_⟩
  exact (processNewBlock_duplicate_unvalidated noCheckpoints noKeyEnv acceptingStakeEnv zeroHashers true
    smallParams 0 false workBlock false workHeaderState workHeaderEntry rfl rfl hcheck hgenesis he
    hfailed hprev hskip hpos 0).2.2 hzero

end Veribase
