import Veribase.Validation.CheckBlock

/-!
# Compact-block reconstruction and the BLOCKTXN handler

A compact block (BIP 152) carries the header, the ppcoin block signature and
short ids of the transactions.  `PartiallyDownloadedBlock` keeps one slot per
transaction, filled from the mempool or still missing; the `BLOCKTXN`
message brings the missing ones.  `FillBlock` (`blockencodings.cpp`) writes
header, signature and transactions into the handler's fresh `CBlock` object,
takes the missing transactions in order, and runs `CheckBlock` on the result.

The `BLOCKTXN` handler (`net_processing.cpp`) punishes the peer on
`READ_STATUS_INVALID`, asks for the full block on `READ_STATUS_FAILED` (a
mutated block, possibly a short-id collision), and otherwise, the
`READ_STATUS_CHECKBLOCK_FAILED` case included, hands the same object to
`ProcessNewBlock`.

With `CheckBlock` caching `fChecked` before the block-signature test, a stake
block with a bad signature reaches `ProcessNewBlock` as an object whose
`CheckBlock` passes (`blockTxn_bad_signature`).
-/

namespace Veribase

/-- `ReadStatus`. -/
inductive ReadStatus
  | READ_STATUS_OK
  | READ_STATUS_INVALID
  | READ_STATUS_FAILED
  | READ_STATUS_CHECKBLOCK_FAILED
deriving DecidableEq, Repr

/-- The slot loop of `FillBlock`: an available transaction is taken as it
is, a missing one from `vtx_missing` in order.  `none` when `vtx_missing`
runs out; otherwise the transactions and what is left of `vtx_missing`. -/
def fillSlots :
    List (Option CTransaction) → List CTransaction → Option (List CTransaction × List CTransaction)
  | [], vtx_missing => some ([], vtx_missing)
  | some tx :: slots, vtx_missing => (fillSlots slots vtx_missing).map fun r => (tx :: r.1, r.2)
  | none :: _, [] => none
  | none :: slots, tx :: vtx_missing => (fillSlots slots vtx_missing).map fun r => (tx :: r.1, r.2)

/-- The block `FillBlock` builds: `block = header`, then the signature and
the transactions. -/
def reconstructed (header : CBlockHeader) (vchBlockSig : List UInt8) (vtx : List CTransaction) :
    CBlock :=
  { CBlock.ofHeader header with vchBlockSig := vchBlockSig, vtx := vtx }

section Fill

variable (env : CheckBlockEnv) (H : Hashers) (IsVericoin : Bool) (consensusParams : Params)

/-- `PartiallyDownloadedBlock::FillBlock(block, vtx_missing)` for a partial
block with `header`, `vchBlockSig` and the slots `txn_available`: the status
and the object `block` after the call, or the exception `CheckBlock` throws. -/
def fillBlock (header : CBlockHeader) (vchBlockSig : List UInt8)
    (txn_available : List (Option CTransaction)) (vtx_missing : List CTransaction) :
    Except String (ReadStatus × CBlock) :=
  match fillSlots txn_available vtx_missing with
  | none => .ok (.READ_STATUS_INVALID, reconstructed header vchBlockSig [])
  | some (vtx, _ :: _) => .ok (.READ_STATUS_INVALID, reconstructed header vchBlockSig vtx)
  | some (vtx, []) =>
      match checkBlock env H IsVericoin consensusParams (reconstructed header vchBlockSig vtx)
          true true true with
      | (.ok (), block) => .ok (.READ_STATUS_OK, block)
      | (.error (.invalid .BLOCK_MUTATED _), block) => .ok (.READ_STATUS_FAILED, block)
      | (.error (.invalid _ _), block) => .ok (.READ_STATUS_CHECKBLOCK_FAILED, block)
      | (.error (.failed _), block) => .ok (.READ_STATUS_CHECKBLOCK_FAILED, block)
      | (.error (.exception what), _) => .error what

/-- What the `BLOCKTXN` handler does after `FillBlock`. -/
inductive BlockTxnAction
  | misbehaving
  | getdata
  | processNewBlock (pblock : CBlock)

/-- The `BLOCKTXN` handler from `FillBlock` on: punish on an invalid
response, re-request a mutated block, and pass the object on to
`ProcessNewBlock` otherwise. -/
def blockTxn (header : CBlockHeader) (vchBlockSig : List UInt8)
    (txn_available : List (Option CTransaction)) (vtx_missing : List CTransaction) :
    Except String BlockTxnAction := do
  let (status, pblock) ←
    fillBlock env H IsVericoin consensusParams header vchBlockSig txn_available vtx_missing
  match status with
  | .READ_STATUS_INVALID => pure .misbehaving
  | .READ_STATUS_FAILED => pure .getdata
  | _ => pure (.processNewBlock pblock)

/-- **A stake block with a bad signature gets past `CheckBlock`.**  When the
missing transactions complete the block and its only fault is the block
signature, the `BLOCKTXN` handler calls `ProcessNewBlock` with an object on
which `CheckBlock` (the call in `ProcessNewBlock` and again in `AcceptBlock`)
returns true, although its signature check fails. -/
theorem blockTxn_bad_signature (header : CBlockHeader) (vchBlockSig : List UInt8)
    (txn_available : List (Option CTransaction)) (vtx_missing vtx : List CTransaction)
    (hslots : fillSlots txn_available vtx_missing = some (vtx, []))
    (hbody : checkBlockBody env IsVericoin (reconstructed header vchBlockSig vtx) H
      consensusParams true true = .ok ())
    (hpos : (reconstructed header vchBlockSig vtx).isProofOfStake IsVericoin = true)
    (hsig : checkBlockSignature env IsVericoin (reconstructed header vchBlockSig vtx) H
      consensusParams = false) :
    ∃ pblock, blockTxn env H IsVericoin consensusParams header vchBlockSig txn_available
        vtx_missing = .ok (.processNewBlock pblock) ∧
      checkBlock env H IsVericoin consensusParams pblock true true true = (.ok (), pblock) ∧
      checkBlockSignature env IsVericoin pblock H consensusParams = false := by
  -- the first `CheckBlock`, inside `FillBlock`, fails on the signature and sets `fChecked`
  have hfirst := checkBlock_bad_signature env H IsVericoin consensusParams rfl hbody hpos hsig
  refine ⟨{ reconstructed header vchBlockSig vtx with fChecked := true }, ?_, ?_, hsig⟩
  · simp [blockTxn, fillBlock, hslots, hfirst]
  · exact checkBlock_of_fChecked env H IsVericoin consensusParams rfl true true true

end Fill

/-! ## A stake block with no valid signature -/

/-- A coinbase with an empty output, as in a stake block. -/
def stakeCoinbase : CTransaction where
  nVersion := 1
  nTime := 0
  vin := [⟨⟨uint256.zero, COutPoint.NULL_INDEX⟩, [0, 0], 0, []⟩]
  vout := [⟨0, []⟩]
  nLockTime := 0
  hash := uint256.zero

/-- A coinstake: a non-null input, the empty marker output and one more. -/
def coinstake : CTransaction where
  nVersion := 1
  nTime := 0
  vin := [⟨⟨uint256.zero, 0⟩, [], 0, []⟩]
  vout := [⟨0, []⟩, ⟨0, []⟩]
  nLockTime := 0
  hash := uint256.zero

/-- A header with a target set, as `FillBlock` asserts. -/
def stakeHeader : CBlockHeader := { CBlockHeader.null with nBits := 0x1e0fffff }

/-- Vericoin parameters whose genesis hash is not the zero hash. -/
def stakeParams : Params := vericoinParams uint256.zero uint256.zero (uint256.arithToUint256 1) []

theorem blockTxn_bad_signature_stake :
    fillSlots [some stakeCoinbase, none] [coinstake] = some ([stakeCoinbase, coinstake], []) ∧
    checkBlockBody noKeyEnv true (reconstructed stakeHeader [] [stakeCoinbase, coinstake])
      zeroHashers stakeParams true true = .ok () ∧
    (reconstructed stakeHeader [] [stakeCoinbase, coinstake]).isProofOfStake true = true ∧
    checkBlockSignature noKeyEnv true (reconstructed stakeHeader [] [stakeCoinbase, coinstake])
      zeroHashers stakeParams = false ∧
    ∃ pblock, blockTxn noKeyEnv zeroHashers true stakeParams stakeHeader []
        [some stakeCoinbase, none] [coinstake] = .ok (.processNewBlock pblock) ∧
      checkBlock noKeyEnv zeroHashers true stakeParams pblock true true true = (.ok (), pblock) ∧
      checkBlockSignature noKeyEnv true pblock zeroHashers stakeParams = false := by
  have hslots : fillSlots [some stakeCoinbase, none] [coinstake] =
      some ([stakeCoinbase, coinstake], []) := rfl
  have hbody : checkBlockBody noKeyEnv true (reconstructed stakeHeader [] [stakeCoinbase, coinstake])
      zeroHashers stakeParams true true = .ok () := by decide
  have hpos : (reconstructed stakeHeader [] [stakeCoinbase, coinstake]).isProofOfStake true =
      true := by decide
  have hsig : checkBlockSignature noKeyEnv true
      (reconstructed stakeHeader [] [stakeCoinbase, coinstake]) zeroHashers stakeParams =
        false := by decide
  exact ⟨hslots, hbody, hpos, hsig, blockTxn_bad_signature noKeyEnv zeroHashers true stakeParams
    stakeHeader [] [some stakeCoinbase, none] [coinstake] [stakeCoinbase, coinstake]
    hslots hbody hpos hsig⟩

end Veribase
