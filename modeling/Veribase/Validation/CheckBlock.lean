import Veribase.Primitives.Block
import Veribase.Primitives.Compact
import Veribase.Consensus.Params
import Veribase.Lib.Checks

/-!
# Context-free block checks and the `fChecked` cache

`CheckBlock` (`validation.cpp`) runs the checks that need no chain context:
proof of work for a work block, the merkle root, size, the place of the
coinbase and of the ppcoin coinstake, timestamps, every transaction
(`CheckTransaction`), the signature-operation count, and last the ppcoin
block signature of a stake block.  `CheckBlockHeader` returns true without a
check on this code base.

`CBlock` has a memory-only member `fChecked`.  A call that finds it set
returns true at once; a call with `fCheckPOW` and `fCheckMerkleRoot` sets it
once every check up to the signoperations has passed, which is *before* the
block signature is checked.  So a stake block whose only fault is its
signature fails the first call and passes every later call on the same object
(`checkBlock_bad_signature`, `checkBlock_of_fChecked`).

Compact-block reconstruction reaches that state.  `FillBlock` builds the block
into the handler's object and runs `CheckBlock` on it; a failure that is not
`BLOCK_MUTATED` comes back as `READ_STATUS_CHECKBLOCK_FAILED`, and the
`BLOCKTXN` handler passes exactly that status on to `ProcessNewBlock` with
the same object (`blockTxn_bad_signature`).  Nothing after
`CheckBlock` checks the block signature again.

The functions that lie outside this model (merkle root, serialized sizes,
signature-operation counting of a script, `Solver`, `CPubKey::Verify`) are
the fields of `CheckBlockEnv`.
-/

namespace Veribase

open Checks

/-! ## Results -/

/-- `BlockValidationResult`. -/
inductive BlockValidationResult
  | BLOCK_RESULT_UNSET
  | BLOCK_CONSENSUS
  | BLOCK_RECENT_CONSENSUS_CHANGE
  | BLOCK_CACHED_INVALID
  | BLOCK_INVALID_HEADER
  | BLOCK_MUTATED
  | BLOCK_MISSING_PREV
  | BLOCK_INVALID_PREV
  | BLOCK_TIME_FUTURE
  | BLOCK_CHECKPOINT
deriving DecidableEq, Repr

/-- How a check ends when it does not return true: `state.Invalid(result,
reason)` and `return false`, `return error(message)`, which leaves the state
valid, or an exception thrown through it. -/
inductive BlockError
  | invalid (result : BlockValidationResult) (reason : String)
  | failed (message : String)
  | exception (what : String)
deriving DecidableEq, Repr

/-- An exception, thrown through the check rather than returned by it. -/
def BlockError.isException : BlockError → Bool
  | .exception _ => true
  | _ => false

/-! ## Constants -/

/-- `MAX_BLOCK_SERIALIZED_SIZE`. -/
def MAX_BLOCK_SERIALIZED_SIZE : Nat := 2000000

/-- `MAX_BLOCK_WEIGHT`. -/
def MAX_BLOCK_WEIGHT : Nat := MAX_BLOCK_SERIALIZED_SIZE / 2

/-- `MAX_BLOCK_SIGOPS_COST`. -/
def MAX_BLOCK_SIGOPS_COST : Nat := MAX_BLOCK_SERIALIZED_SIZE / 50

/-- `WITNESS_SCALE_FACTOR`. -/
def WITNESS_SCALE_FACTOR : Nat := 1

/-- `MAX_FUTURE_BLOCK_TIME`, two hours on a Verium build and ten minutes on
Vericoin. -/
def MAX_FUTURE_BLOCK_TIME (IsVericoin : Bool) : Int := if IsVericoin then 10 * 60 else 2 * 60 * 60

/-- The functions `CheckBlock` reaches outside this model. -/
structure CheckBlockEnv where
  /-- `BlockMerkleRoot(block, &mutated)`. -/
  blockMerkleRoot : CBlock → uint256 × Bool
  /-- `GetSerializeSize` of a block without witness data. -/
  blockSerializeSize : CBlock → Nat
  /-- `GetSerializeSize` of a transaction without witness data. -/
  txSerializeSize : CTransaction → Nat
  /-- `CScript::GetSigOpCount(false)`. -/
  sigOpCount : CScript → Nat
  /-- `Solver(scriptPubKey, vSolutions)` when it returns `TX_PUBKEY`: the key. -/
  solvePubKey : CScript → Option (List UInt8)
  /-- `CPubKey(vchPubKey).Verify(hash, vchSig)`. -/
  verify : List UInt8 → uint256 → List UInt8 → Bool

/-! ## Transactions -/

/-- The output loop of `CheckTransaction`: no negative value, none above
`MAX_MONEY`, and the running total in range. -/
def checkOutputValues : Int → List CTxOut → Except String Unit
  | _, [] => pure ()
  | nValueOut, txout :: rest =>
      if txout.nValue < 0 then throw "bad-txns-vout-negative"
      else if txout.nValue > MAX_MONEY then throw "bad-txns-vout-toolarge"
      else if !moneyRange (nValueOut + txout.nValue) then throw "bad-txns-txouttotal-toolarge"
      else checkOutputValues (nValueOut + txout.nValue) rest

/-- The coinbase script-length check of `CheckTransaction`. -/
def badCoinbaseLength (tx : CTransaction) : Bool :=
  match tx.vin with
  | txin :: _ => txin.scriptSig.length < 2 || txin.scriptSig.length > 100
  | [] => false

/-- `Consensus::CheckTransaction(tx, state)`: the reject reason of the first
check that fails. -/
def checkTransaction (txSerializeSize : CTransaction → Nat) (tx : CTransaction) :
    Except String Unit := do
  rejectIf tx.vin.isEmpty "bad-txns-vin-empty"
  rejectIf tx.vout.isEmpty "bad-txns-vout-empty"
  rejectIf (txSerializeSize tx * WITNESS_SCALE_FACTOR > MAX_BLOCK_WEIGHT) "bad-txns-oversize"
  checkOutputValues 0 tx.vout
  rejectIf (!decide (tx.vin.map (·.prevout)).Nodup) "bad-txns-inputs-duplicate"
  if tx.isCoinBase then rejectIf (badCoinbaseLength tx) "bad-cb-length"
  else rejectIf (tx.vin.any (·.prevout.isNull)) "bad-txns-prevout-null"

/-- `GetLegacySigOpCount(tx)`. -/
def getLegacySigOpCount (sigOpCount : CScript → Nat) (tx : CTransaction) : Nat :=
  (tx.vin.map fun txin => sigOpCount txin.scriptSig).sum +
    (tx.vout.map fun txout => sigOpCount txout.scriptPubKey).sum

/-- `CheckCoinStakeTimestamp(nTimeBlock, nTimeTx)`, the v0.3 rule. -/
def checkCoinStakeTimestamp (nTimeBlock nTimeTx : Int) : Bool := nTimeBlock == nTimeTx

/-! ## The checks of `CheckBlock` -/

section Checks

variable (env : CheckBlockEnv) (IsVericoin : Bool) (block : CBlock)

/-- The merkle-root checks, made when `fCheckMerkleRoot`. -/
def checkMerkleRoot (fCheckMerkleRoot : Bool) : Except BlockError Unit :=
  if fCheckMerkleRoot then do
    let (hashMerkleRoot2, mutated) := env.blockMerkleRoot block
    rejectIf (block.hashMerkleRoot != hashMerkleRoot2) (.invalid .BLOCK_MUTATED "bad-txnmrklroot")
    rejectIf mutated (.invalid .BLOCK_MUTATED "bad-txns-duplicate")
  else pure ()

/-- The checks on the first two transactions: one coinbase and it first, the
coinstake only second, an empty coinbase output and no coinbase reward in a
stake block, and the two timestamps.  `GetValueOut` throws on an output out
of range, which no check has excluded yet. -/
def checkCoinbaseCoinstake : Except BlockError Unit :=
  match block.vtx with
  | [] => throw (.invalid .BLOCK_CONSENSUS "bad-cb-missing")
  | tx0 :: rest => do
      rejectIf (!tx0.isCoinBase) (.invalid .BLOCK_CONSENSUS "bad-cb-missing")
      rejectIf (rest.any CTransaction.isCoinBase) (.invalid .BLOCK_CONSENSUS "bad-cb-multiple")
      rejectIf ((rest.drop 1).any CTransaction.isCoinStake)
        (.invalid .BLOCK_CONSENSUS "bad-cs-missing")
      let isPoS := block.isProofOfStake IsVericoin
      rejectIf (isPoS && !(tx0.vout.head?.all CTxOut.isEmpty))
        (.invalid .BLOCK_CONSENSUS "bad-cb-notempty")
      rejectIf (block.getBlockTime > tx0.nTime.toNat + MAX_FUTURE_BLOCK_TIME IsVericoin)
        (.invalid .BLOCK_CONSENSUS "bad-cb-time")
      rejectIf (isPoS && !(rest.head?.all fun tx1 =>
          checkCoinStakeTimestamp block.getBlockTime tx1.nTime.toNat))
        (.invalid .BLOCK_CONSENSUS "bad-cs-time")
      if isPoS then
        match tx0.getValueOut with
        | .error what => throw (.exception what)
        | .ok nValueOut => rejectIf (nValueOut > 0) (.invalid .BLOCK_CONSENSUS "bad-cb-amount")
      else pure ()

/-- The transaction loop: `CheckTransaction` and the transaction timestamp. -/
def checkTransactions : Except BlockError Unit :=
  block.vtx.forM fun tx => do
    (checkTransaction env.txSerializeSize tx).mapError (.invalid .BLOCK_CONSENSUS)
    rejectIf (block.getBlockTime < tx.nTime.toNat) (.invalid .BLOCK_CONSENSUS "bad-tx-time")

/-- `CheckBlock` from `CheckBlockHeader` to the signature-operation limit:
every check made before `fChecked` is written. -/
def checkBlockBody (H : Hashers) (consensusParams : Params) (fCheckPOW fCheckMerkleRoot : Bool) :
    Except BlockError Unit := do
  rejectIf (!block.isProofOfStake IsVericoin && fCheckPOW &&
      !checkProofOfWork (block.getWorkHash H) block.nBits consensusParams.powLimit)
    (.invalid .BLOCK_MUTATED "high-hash")
  checkMerkleRoot env block fCheckMerkleRoot
  rejectIf (block.vtx.isEmpty || block.vtx.length * WITNESS_SCALE_FACTOR > MAX_BLOCK_WEIGHT ||
      env.blockSerializeSize block * WITNESS_SCALE_FACTOR > MAX_BLOCK_WEIGHT)
    (.invalid .BLOCK_CONSENSUS "bad-blk-length")
  checkCoinbaseCoinstake IsVericoin block
  checkTransactions env block
  rejectIf ((block.vtx.map (getLegacySigOpCount env.sigOpCount)).sum * WITNESS_SCALE_FACTOR >
      MAX_BLOCK_SIGOPS_COST)
    (.invalid .BLOCK_CONSENSUS "bad-blk-sigops")

/-- `CheckBlockSignature(block)`: the genesis block must carry no signature;
any other block is signed by the key of the first coinstake output after the
marker, or of the first coinbase output for a work block. -/
def checkBlockSignature (H : Hashers) (consensusParams : Params) : Bool :=
  if block.getHash H IsVericoin == consensusParams.hashGenesisBlock then block.vchBlockSig.isEmpty
  else
    let txout :=
      if block.isProofOfStake IsVericoin then (block.vtx[1]?).bind (·.vout[1]?)
      else (block.vtx[0]?).bind (·.vout[0]?)
    match txout.bind (env.solvePubKey ·.scriptPubKey) with
    | none => false
    | some vchPubKey =>
        if block.vchBlockSig.isEmpty then false
        else env.verify vchPubKey (block.getHash H IsVericoin) block.vchBlockSig

end Checks

/-- `CheckBlock(block, state, params, fCheckPOW, fCheckMerkleRoot,
fCheckSignature)` on the object `block`: the result, and the object after the
call, whose `fChecked` the call may have set. -/
def checkBlock (env : CheckBlockEnv) (H : Hashers) (IsVericoin : Bool) (consensusParams : Params)
    (block : CBlock) (fCheckPOW fCheckMerkleRoot fCheckSignature : Bool) :
    Except BlockError Unit × CBlock :=
  if block.fChecked then (.ok (), block)
  else
    match checkBlockBody env IsVericoin block H consensusParams fCheckPOW fCheckMerkleRoot with
    | .error e => (.error e, block)
    | .ok () =>
        let block := if fCheckPOW && fCheckMerkleRoot then { block with fChecked := true } else block
        if fCheckMerkleRoot && fCheckSignature && block.isProofOfStake IsVericoin &&
            !checkBlockSignature env IsVericoin block H consensusParams then
          (.error (.invalid .BLOCK_CONSENSUS "bad-blk-sign"), block)
        else (.ok (), block)

section Cache

variable (env : CheckBlockEnv) (H : Hashers) (IsVericoin : Bool) (consensusParams : Params)

/-- A call on an object with `fChecked` set returns true and leaves it as it is. -/
theorem checkBlock_of_fChecked {block : CBlock} (hchecked : block.fChecked = true)
    (fCheckPOW fCheckMerkleRoot fCheckSignature : Bool) :
    checkBlock env H IsVericoin consensusParams block fCheckPOW fCheckMerkleRoot fCheckSignature =
      (.ok (), block) := by
  simp [checkBlock, hchecked]

/-- The call sets `fChecked` at most: the object's header stays. -/
theorem checkBlock_snd_toCBlockHeader (block : CBlock)
    (fCheckPOW fCheckMerkleRoot fCheckSignature : Bool) :
    (checkBlock env H IsVericoin consensusParams block fCheckPOW fCheckMerkleRoot
      fCheckSignature).2.toCBlockHeader = block.toCBlockHeader := by
  unfold checkBlock
  split
  · rfl
  split
  · rfl
  dsimp only
  split_ifs <;> rfl

/-- The call changes nothing of the object but `fChecked`. -/
theorem checkBlock_snd_eq (block : CBlock) (fCheckPOW fCheckMerkleRoot fCheckSignature : Bool) :
    ∃ fChecked, (checkBlock env H IsVericoin consensusParams block fCheckPOW fCheckMerkleRoot
      fCheckSignature).2 = { block with fChecked := fChecked } := by
  unfold checkBlock
  split
  · exact ⟨block.fChecked, rfl⟩
  split
  · exact ⟨block.fChecked, rfl⟩
  dsimp only
  split_ifs
  all_goals first | exact ⟨true, rfl⟩ | exact ⟨block.fChecked, rfl⟩

/-- The signature is not part of what `fChecked` caches: a stake block whose
only fault is its signature fails the call and leaves `fChecked` set. -/
theorem checkBlock_bad_signature {block : CBlock} (hfresh : block.fChecked = false)
    (hbody : checkBlockBody env IsVericoin block H consensusParams true true = .ok ())
    (hpos : block.isProofOfStake IsVericoin = true)
    (hsig : checkBlockSignature env IsVericoin block H consensusParams = false) :
    checkBlock env H IsVericoin consensusParams block true true true =
      (.error (.invalid .BLOCK_CONSENSUS "bad-blk-sign"), { block with fChecked := true }) := by
  have hsig' : checkBlockSignature env IsVericoin { block with fChecked := true } H
      consensusParams = false := hsig
  have hpos' : CBlock.isProofOfStake IsVericoin { block with fChecked := true } = true := hpos
  simp [checkBlock, hfresh, hbody, hpos', hsig']

end Cache

/-! ## The coinstake time -/

section CoinstakeTime

variable (env : CheckBlockEnv) (H : Hashers) (IsVericoin : Bool) (consensusParams : Params)

theorem checkMerkleRoot_error {block : CBlock} {f : Bool} :
    ∀ e, checkMerkleRoot env block f = .error e → e.isException = false := by
  cases f with
  | false => intro e h; cases h
  | true =>
    unfold checkMerkleRoot
    dsimp only [if_true]
    refine bind_error_all (fun e h => by rw [rejectIf_error h]; rfl) fun e h => ?_
    rw [rejectIf_error h]
    rfl

/-- A stake block whose time is not its coinstake's is rejected by the checks
on the first two transactions, at `bad-cs-time` if not before. -/
theorem checkCoinbaseCoinstake_error_of_time {block : CBlock} {tx0 tx1 : CTransaction}
    {rest : List CTransaction} (hvtx : block.vtx = tx0 :: tx1 :: rest)
    (hpos : block.isProofOfStake IsVericoin = true) (htime : block.getBlockTime ≠ tx1.nTime.toNat) :
    ∃ e, checkCoinbaseCoinstake IsVericoin block = .error e ∧ e.isException = false := by
  have hcs : checkCoinStakeTimestamp block.getBlockTime tx1.nTime.toNat = false := by
    simpa [checkCoinStakeTimestamp] using htime
  unfold checkCoinbaseCoinstake
  rw [hvtx]
  dsimp only
  refine rejectIf_bind_error rfl fun _ => ?_
  refine rejectIf_bind_error rfl fun _ => ?_
  refine rejectIf_bind_error rfl fun _ => ?_
  refine rejectIf_bind_error rfl fun _ => ?_
  refine rejectIf_bind_error rfl fun _ => ?_
  -- the coinstake-time check is the one that rejects
  refine rejectIf_bind_error rfl fun hpass => ?_
  simp [hpos, hcs] at hpass

/-- `CheckBlock` rejects a stake block whose time is not its coinstake's,
whatever the flags, unless the object has passed it before. -/
theorem checkBlock_error_of_coinstake_time {block : CBlock} {tx0 tx1 : CTransaction}
    {rest : List CTransaction} (hfresh : block.fChecked = false) (hvtx : block.vtx = tx0 :: tx1 :: rest)
    (hpos : block.isProofOfStake IsVericoin = true) (htime : block.getBlockTime ≠ tx1.nTime.toNat)
    (fCheckPOW fCheckMerkleRoot fCheckSignature : Bool) :
    ∃ e, (checkBlock env H IsVericoin consensusParams block fCheckPOW fCheckMerkleRoot
      fCheckSignature).1 = .error e ∧ e.isException = false := by
  have hbody : ∃ e, checkBlockBody env IsVericoin block H consensusParams fCheckPOW fCheckMerkleRoot =
      .error e ∧ e.isException = false := by
    unfold checkBlockBody
    refine rejectIf_bind_error rfl fun _ => ?_
    refine bind_error_of (checkMerkleRoot_error env) fun _ => ?_
    refine rejectIf_bind_error rfl fun _ => ?_
    obtain ⟨e, he, hex⟩ := checkCoinbaseCoinstake_error_of_time IsVericoin hvtx hpos htime
    rw [he]
    exact ⟨e, rfl, hex⟩
  obtain ⟨e, he, hex⟩ := hbody
  exact ⟨e, by simp [checkBlock, hfresh, he], hex⟩

end CoinstakeTime

/-! ## Outside functions for small runs -/

/-- Outside functions that accept any merkle root, count no size or
signature operation, and find no key in any script. -/
def noKeyEnv : CheckBlockEnv where
  blockMerkleRoot := fun block => (block.hashMerkleRoot, false)
  blockSerializeSize := fun _ => 0
  txSerializeSize := fun _ => 0
  sigOpCount := fun _ => 0
  solvePubKey := fun _ => none
  verify := fun _ _ _ => false

/-- Hash functions that send everything to zero. -/
def zeroHashers : Hashers := ⟨fun _ => uint256.zero, fun _ => uint256.zero⟩

end Veribase
