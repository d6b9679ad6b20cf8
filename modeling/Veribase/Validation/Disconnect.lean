import Veribase.Validation.Supply
import Veribase.Validation.Undo

/-!
# Disconnecting a block

`ConnectBlock` calls `UpdateCoins` on every transaction of the block, which
moves every coin an input spends into the transaction's `CTxUndo`, and
writes the records of all transactions but the coinbase to the undo file.
`DisconnectBlock` reads them back and walks the block backwards: it spends
every output the transaction created, checking it is still there as the
block made it, and puts every spent coin back with `ApplyTxInUndo`.

`spendInputsUndo` and `updateCoinsUndo` are the input loop and
`UpdateCoins` with the undo record kept.

The undo file does not give the coins back as they were spent
(`txInUndoUnser_ser`), and a block that spends a coin created at height two
disconnects with `DISCONNECT_OK` while the coin comes back at height one
(`connectDisconnect_height_two`).
-/

namespace Veribase

open ByteStream

/-! ## Connecting with undo records -/

/-- The input loop of `UpdateCoins` with its record: `SpendCoin(prevout,
&txundo.vprevout.back())` moves each coin into the record as it spends it. -/
def spendInputsUndo : List CTxIn → CCoinsViewCache → Faulty (CCoinsViewCache × List Coin)
  | [], view => pure (view, [])
  | txin :: rest, view =>
      match view.spendCoin txin.prevout with
      | some spent => do
        let (view', vprevout) ← spendInputsUndo rest spent
        pure (view', view.accessCoin txin.prevout :: vprevout)
      | none => .error .assertion

/-- `UpdateCoins(tx, inputs, txundo, nHeight)`. -/
def updateCoinsUndo (tx : CTransaction) (view : CCoinsViewCache) (nHeight : Int) :
    Faulty (CCoinsViewCache × CTxUndo) := do
  let (view, vprevout) ← if tx.isCoinBase then pure (view, []) else spendInputsUndo tx.vin view
  let view ← addCoins view tx nHeight
  pure (view, ⟨vprevout⟩)

/-- The `UpdateCoins` calls of `ConnectBlock`: transaction `i` with its
record, which is kept for every `i > 0` and dropped for the coinbase. -/
def updateCoinsLoop (nHeight : Int) :
    List (CTransaction × Nat) → CCoinsViewCache → List CTxUndo → Faulty (CCoinsViewCache × CBlockUndo)
  | [], view, vtxundo => pure (view, ⟨vtxundo⟩)
  | (tx, i) :: rest, view, vtxundo => do
    let (view, txundo) ← updateCoinsUndo tx view nHeight
    updateCoinsLoop nHeight rest view (if i > 0 then vtxundo ++ [txundo] else vtxundo)

/-- The view and the undo data `ConnectBlock` leaves for `block` at height
`nHeight`. -/
def connectUndo (block : CBlock) (nHeight : Int) (view : CCoinsViewCache) :
    Faulty (CCoinsViewCache × CBlockUndo) :=
  updateCoinsLoop nHeight block.vtx.zipIdx view []

/-! ## Disconnecting -/

/-- `DisconnectResult`. -/
inductive DisconnectResult
  | DISCONNECT_OK
  | DISCONNECT_UNCLEAN
  | DISCONNECT_FAILED
deriving DecidableEq, Repr

/-- `MAX_OUTPUTS_PER_BLOCK`: the block weight over the weight of the
smallest output, `CTxOut()`. -/
def MAX_OUTPUTS_PER_BLOCK : Nat :=
  MAX_BLOCK_WEIGHT / (WITNESS_SCALE_FACTOR * (CTxOut.serialize ⟨-1, []⟩).length)

/-- `AccessByTxid(view, txid)`: the first unspent output of the
transaction, or the empty coin. -/
def accessByTxid (view : CCoinsViewCache) (txid : uint256) : Coin :=
  (((List.range MAX_OUTPUTS_PER_BLOCK).map fun n => view.accessCoin ⟨txid, UInt32.ofNat n⟩).find?
    fun alternate => !alternate.isSpent).getD Coin.empty

/-- `ApplyTxInUndo(undo, view, out)`. -/
def applyTxInUndo (params : Params) (undo : Coin) (view : CCoinsViewCache) (out : COutPoint) :
    Faulty (DisconnectResult × CCoinsViewCache) :=
  -- an output already there is overwritten
  let fClean := !view.haveCoin out
  let undo? : Option Coin :=
    if undo.nHeight = 0 then
      -- missing metadata: older versions kept it only with the last spend of a transaction
      let alternate := accessByTxid view out.hash
      if !alternate.isSpent then
        some { undo with
          nHeight := alternate.nHeight
          fCoinBase := alternate.fCoinBase
          nTime := alternate.nTime
          fCoinStake := if params.fIsVericoin then alternate.fCoinStake else undo.fCoinStake }
      else none
    else some undo
  match undo? with
  | none => pure (.DISCONNECT_FAILED, view)
  | some undo => do
    let view ← view.addCoin out undo (!fClean)
    pure (if fClean then .DISCONNECT_OK else .DISCONNECT_UNCLEAN, view)

/-- The output loop of `DisconnectBlock` for `tx`, from output `o`: every
spendable output is spent, and `fClean` drops unless it was there as the
block at `nHeight` created it. -/
def spendOutputs (tx : CTransaction) (nHeight : Int) :
    Nat → List CTxOut → CCoinsViewCache → Bool → CCoinsViewCache × Bool
  | _, [], view, fClean => (view, fClean)
  | o, txout :: rest, view, fClean =>
    if !isUnspendable txout.scriptPubKey then
      let out : COutPoint := ⟨tx.getHash, UInt32.ofNat o⟩
      let coin := view.accessCoin out
      match view.spendCoin out with
      | some spent =>
        let fMatch := txout == coin.out && nHeight == coin.nHeight &&
          tx.isCoinBase == coin.fCoinBase && tx.isCoinStake == coin.fCoinStake
        spendOutputs tx nHeight (o + 1) rest spent (fClean && fMatch)
      | none => spendOutputs tx nHeight (o + 1) rest view false
    else spendOutputs tx nHeight (o + 1) rest view fClean

/-- The input loop of `DisconnectBlock`: the inputs and their records from
the last; `none` for `DISCONNECT_FAILED`. -/
def restoreInputs (params : Params) :
    List (COutPoint × Coin) → CCoinsViewCache → Bool → Faulty (Option (CCoinsViewCache × Bool))
  | [], view, fClean => pure (some (view, fClean))
  | (out, undo) :: rest, view, fClean => do
    let (res, view) ← applyTxInUndo params undo view out
    if res = .DISCONNECT_FAILED then pure none
    else restoreInputs params rest view (fClean && res != .DISCONNECT_UNCLEAN)

/-- The transaction loop of `DisconnectBlock`, over the transactions and
their positions from the last; `none` for `DISCONNECT_FAILED`. -/
def disconnectTxs (params : Params) (nHeight : Int) (vtxundo : List CTxUndo) :
    List (CTransaction × Nat) → CCoinsViewCache → Bool → Faulty (Option (CCoinsViewCache × Bool))
  | [], view, fClean => pure (some (view, fClean))
  | (tx, i) :: rest, view, fClean => do
    let (view, fClean) := spendOutputs tx nHeight 0 tx.vout view fClean
    if i > 0 then
      let txundo ← Fault.index vtxundo (i - 1)
      -- transaction and undo data inconsistent
      if txundo.vprevout.length ≠ tx.vin.length then pure none
      else
        match ← restoreInputs params ((tx.vin.map (·.prevout)).zip txundo.vprevout).reverse view fClean with
        | none => pure none
        | some (view, fClean) => disconnectTxs params nHeight vtxundo rest view fClean
    else disconnectTxs params nHeight vtxundo rest view fClean

/-- `DisconnectBlock(block, pindex, view)`, given what `UndoReadFromDisk`
reads (`none` for its `false` return); `nHeight` and `hashPrevBlock` are
what it reads of `pindex`.  On `DISCONNECT_FAILED` the view is left as it
is. -/
def disconnectBlock (params : Params) (block : CBlock) (nHeight : Int) (hashPrevBlock : uint256)
    (blockUndo? : Option CBlockUndo) (view : CCoinsViewCache) : Faulty (DisconnectResult × CCoinsViewCache) :=
  match blockUndo? with
  | none => pure (.DISCONNECT_FAILED, view)
  | some blockUndo =>
    if blockUndo.vtxundo.length + 1 ≠ block.vtx.length then pure (.DISCONNECT_FAILED, view)
    else do
      match ← disconnectTxs params nHeight blockUndo.vtxundo block.vtx.zipIdx.reverse view true with
      | none => pure (.DISCONNECT_FAILED, view)
      | some (view, fClean) =>
        pure (if fClean then .DISCONNECT_OK else .DISCONNECT_UNCLEAN, { view with hashBlock := hashPrevBlock })

section File

variable (ecPubkeyParse : List UInt8 → Option (List UInt8))

/-- `UndoReadFromDisk` of what `UndoWriteToDisk` wrote: the undo data read
back from its bytes, or `none` for the `false` return, on a read error or
when bytes are left before the checksum that follows them. -/
def undoReadWritten (blockundo : CBlockUndo) : Option CBlockUndo :=
  match (CBlockUndo.unserialize ecPubkeyParse).run (blockundo.serialize ecPubkeyParse) with
  | .ok (u, []) => some u
  | _ => none

/-- A block connected on `view` at `nHeight`, its undo data written and read
back, and the block disconnected again. -/
def connectDisconnect (params : Params) (block : CBlock) (nHeight : Int) (hashPrevBlock : uint256)
    (view : CCoinsViewCache) : Faulty (DisconnectResult × CCoinsViewCache) := do
  let (view, blockundo) ← connectUndo block nHeight view
  disconnectBlock params block nHeight hashPrevBlock (undoReadWritten ecPubkeyParse blockundo) view

end File

/-! ## A coin of height two disconnected -/

section HeightTwo

/-- The coin the block spends: fifty coins to `OP_TRUE`, created at height
two by a plain transaction. -/
def heightTwoCoin : Coin := ⟨⟨50 * COIN, [OP_1]⟩, 2, false, false, 0⟩

/-- Its outpoint. -/
def heightTwoOutpoint : COutPoint := ⟨smallKey 1, 0⟩

/-- The view before the block: that coin alone, at the tip `smallKey 7`. -/
def heightTwoView : CCoinsViewCache :=
  ⟨fun o => if o = heightTwoOutpoint then some heightTwoCoin else none, smallKey 7⟩

/-- The coinbase of the block at height three. -/
def heightTwoCoinbase : CTransaction where
  nVersion := 1
  nTime := 0
  vin := [⟨⟨uint256.zero, COutPoint.NULL_INDEX⟩, pushInt64 3, SEQUENCE_FINAL, []⟩]
  vout := [⟨50 * COIN, [OP_1]⟩]
  nLockTime := 0
  hash := smallKey 2

/-- The spend of the coin. -/
def heightTwoSpend : CTransaction where
  nVersion := 1
  nTime := 0
  vin := [⟨heightTwoOutpoint, [], SEQUENCE_FINAL, []⟩]
  vout := [⟨49 * COIN, [OP_1]⟩]
  nLockTime := 0
  hash := smallKey 3

/-- The block at height three on the tip `smallKey 7`. -/
def heightTwoBlock : CBlock :=
  { CBlock.ofHeader { CBlockHeader.null with hashPrevBlock := smallKey 7 } with
    vtx := [heightTwoCoinbase, heightTwoSpend] }

@[simp] theorem heightTwoCoinbase_isCoinBase : heightTwoCoinbase.isCoinBase = true := by decide

@[simp] theorem heightTwoSpend_isCoinBase : heightTwoSpend.isCoinBase = false := by decide

@[simp] theorem heightTwoCoinbase_isCoinStake : heightTwoCoinbase.isCoinStake = false := by decide

@[simp] theorem heightTwoSpend_isCoinStake : heightTwoSpend.isCoinStake = false := by decide

theorem smallKey_one_ne_two : smallKey 1 ≠ smallKey 2 := smallKey_ne (by decide) (by decide) (by decide)

theorem smallKey_one_ne_three : smallKey 1 ≠ smallKey 3 := smallKey_ne (by decide) (by decide) (by decide)

theorem smallKey_two_ne_three : smallKey 2 ≠ smallKey 3 := smallKey_ne (by decide) (by decide) (by decide)

/-- The undo data of the block, written and read back: the coin comes back
at height one. -/
theorem undoReadWritten_heightTwo :
    undoReadWritten (fun _ => none) ⟨[⟨[heightTwoCoin]⟩]⟩ =
      some ⟨[⟨[{ heightTwoCoin with nHeight := 1 }]⟩]⟩ := by
  have hrange : UndoCoinInRange heightTwoCoin := by
    refine ⟨by decide, by decide, by decide, by decide⟩
  have hread := cBlockUndoUnser_ser (fun _ => none) (fun _ _ _ h => by simp at h)
    (u := ⟨[⟨[heightTwoCoin]⟩]⟩) (by decide)
    (fun t ht => by
      simp only [List.mem_singleton] at ht
      subst ht
      exact ⟨by decide, by simpa using hrange⟩) []
  rw [List.append_nil] at hread
  rw [undoReadWritten, hread]
  simp [Coin.undoReadBack, heightTwoCoin]

/-- **A disconnected block does not restore its coins.**  The block spends a
coin created at height two; connecting it, writing its undo data, reading
it back and disconnecting it ends in `DISCONNECT_OK`, with the coin back in
the view at height one. -/
theorem connectDisconnect_height_two :
    heightTwoView.coins heightTwoOutpoint = some heightTwoCoin ∧
    ∃ view, connectDisconnect (fun _ => none) (vericoinParams uint256.zero uint256.zero uint256.zero [])
        heightTwoBlock 3 (smallKey 7) heightTwoView = .ok (.DISCONNECT_OK, view) ∧
      view.coins heightTwoOutpoint = some { heightTwoCoin with nHeight := 1 } := by
  refine ⟨by simp [heightTwoView], ?_⟩
  -- the transactions as the loops read them
  have hcbHash : heightTwoCoinbase.getHash = smallKey 2 := rfl
  have hspHash : heightTwoSpend.getHash = smallKey 3 := rfl
  have hcbOut : heightTwoCoinbase.vout = [⟨50 * COIN, [OP_1]⟩] := rfl
  have hspOut : heightTwoSpend.vout = [⟨49 * COIN, [OP_1]⟩] := rfl
  have hspIn : heightTwoSpend.vin = [⟨heightTwoOutpoint, [], SEQUENCE_FINAL, []⟩] := rfl
  have hcbTime : heightTwoCoinbase.nTime = 0 := rfl
  have hspTime : heightTwoSpend.nTime = 0 := rfl
  -- connect, write and read the undo data, and disconnect, through the source's loops
  simp [hcbHash, hspHash, hcbOut, hspOut, hspIn, hcbTime, hspTime, connectDisconnect, connectUndo,
    heightTwoBlock, CBlock.ofHeader, updateCoinsLoop, updateCoinsUndo, addCoins, addCoinsFrom,
    CCoinsViewCache.addCoin, spendInputsUndo, CCoinsViewCache.spendCoin, CCoinsViewCache.haveCoin,
    CCoinsViewCache.accessCoin, heightTwoView, Fault.check, Coin.isSpent, isUnspendable, smallKey_one_ne_two,
    smallKey_one_ne_three, smallKey_one_ne_three.symm, smallKey_two_ne_three.symm, heightTwoOutpoint, COIN,
    OP_1, OP_RETURN, MAX_SCRIPT_SIZE, undoReadWritten_heightTwo, disconnectBlock, disconnectTxs, spendOutputs,
    restoreInputs, applyTxInUndo, Fault.index]
  -- every check of the disconnect passes on the restored coin
  simp [heightTwoCoin, COIN, OP_1, smallKey_one_ne_two, smallKey_two_ne_three, smallKey_one_ne_two.symm]

end HeightTwo

end Veribase
