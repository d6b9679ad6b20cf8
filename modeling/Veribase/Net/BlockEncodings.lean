import Veribase.Net.CompactBlocks
import Veribase.Serialize.Transaction

/-!
# Compact blocks on the wire

`blockencodings.cpp` and `blockencodings.h`: the sending side of BIP 152 and
the first half of the receiving side.  The sender builds a
`CBlockHeaderAndShortTxIDs` from a block (`ofBlock`): the header with its
ppcoin `nFlags`, the block signature, the coinbase as the one prefilled
transaction, and for every other transaction a 48-bit short id, SipHash of
its hash under keys taken from SHA-256 of the header and a random nonce.  On
the wire the message is the header, the nonce, the signature, the short ids
as six bytes each and the prefilled transactions (`serialize`,
`unserialize`).  The receiver's `InitData` (`initData`) checks the counts,
puts the prefilled transactions in their slots through the running
`lastprefilledindex`, gives each short id the next slot no prefilled
transaction took (`index_offset`), and fills slots from the mempool and the
extra transactions.  `FillBlock` (`Net.CompactBlocks`) then takes the
missing ones in order.

The fork put the signature and the flags on the wire under two different
tests: the signature goes out on Vericoin whatever the stream, the flags only
on a `SER_POSMARKER` stream.  A Vericoin stream without the marker rebuilds
the block with the flags of a null header (`flaggedBlock_not_rebuilt`).  A
message that was read back (`unserialize_serialize`, for every message whose
short ids fit six bytes, whose counts fit `uint16_t` and whose prefilled
transactions read back) goes through `initData` from an empty mempool to
`READ_STATUS_OK` or `READ_STATUS_FAILED` only, unless a prefilled transaction
is null (`initShortIds_ne_invalid`); on a stream that carries the flags the
block is rebuilt whole (`cmpctBlock_reconstructs`).

The buckets of `std::unordered_map` are the library's: whether the bucket of
a short id holds more than twelve entries is the parameter `overfull`.
-/

namespace Veribase

open ByteStream

/-! ## Transactions in a compact block -/

/-- `CTransaction::IsNull()`. -/
def CTransaction.isNull (tx : CTransaction) : Bool := tx.vin.isEmpty && tx.vout.isEmpty

/-- `CTransaction::HasWitness()`. -/
def CTransaction.hasWitness (tx : CTransaction) : Bool :=
  tx.vin.any fun txin => !txin.scriptWitness.isEmpty

/-- `CTransaction::GetWitnessHash()`, as `ComputeWitnessHash()` fills it: the
hash for a transaction without witness, otherwise
`SerializeHash(*this, SER_GETHASH, 0)`, which writes no witness either. -/
def CTransaction.getWitnessHash (H : Hashers) (tx : CTransaction) : uint256 :=
  if tx.hasWitness then H.Hash tx.serialize else tx.hash

/-- `CTransaction(CMutableTransaction&&)`: the fields, and `ComputeHash()`
of their serialization. -/
def CMutableTransaction.toTransaction (H : Hashers) (tx : CMutableTransaction) : CTransaction :=
  { nVersion := tx.nVersion, nTime := tx.nTime, vin := tx.vin, vout := tx.vout,
    nLockTime := tx.nLockTime, hash := H.Hash tx.serialize }

/-- A transaction that reads back as itself: what
`CMutableTransaction.unserialize_serialize` asks of it, and a cached hash that is the
one the reader computes. -/
structure CTransaction.ReadsBack (H : Hashers) (tx : CTransaction) : Prop where
  hash : tx.hash = H.Hash tx.serialize
  wit : ∀ txin ∈ tx.vin, txin.scriptWitness = []
  vin : tx.vin.length ≤ MAX_SIZE
  vout : tx.vout.length ≤ MAX_SIZE
  sig : ∀ txin ∈ tx.vin, txin.scriptSig.length ≤ MAX_SIZE
  pk : ∀ txout ∈ tx.vout, txout.scriptPubKey.length ≤ MAX_SIZE
  value : ∀ txout ∈ tx.vout, int64Range txout.nValue

theorem CTransaction.ReadsBack.toTransaction_toMutable {H : Hashers} {tx : CTransaction}
    (h : tx.ReadsBack H) : tx.toMutable.toTransaction H = tx := by
  obtain ⟨nVersion, nTime, vin, vout, nLockTime, hash⟩ := tx
  simp only [CMutableTransaction.toTransaction, CTransaction.toMutable, CTransaction.mk.injEq,
    true_and]
  -- the serialization does not read the cached hash
  exact h.hash.symm

/-- **Transaction round trip, with the hash.**  The reader gives back the
fields, and building the `CTransaction` recomputes the hash it had. -/
theorem CTransaction.ReadsBack.unserialize {H : Hashers} {tx : CTransaction}
    (h : tx.ReadsBack H) (rest : List UInt8) :
    unserializeTransaction.run (tx.serialize ++ rest) = .ok (tx.toMutable, rest) :=
  tx.toMutable.unserialize_serialize h.wit h.vin h.vout h.sig h.pk h.value rest

/-! ## Short ids -/

/-- The hash functions of `crypto/sha256.h` and `crypto/siphash.h` that short
ids are made of. -/
structure ShortIdHashers where
  /-- `CSHA256().Write(data).Finalize(out)`. -/
  sha256 : List UInt8 → uint256
  /-- `SipHashUint256(k0, k1, val)`. -/
  sipHashUint256 : UInt64 → UInt64 → uint256 → UInt64

/-- `uint256::GetUint64(pos)`: the little-endian word of bytes `8 pos` to
`8 pos + 7`. -/
def uint256.getUint64 (a : uint256) (pos : Nat) : UInt64 :=
  UInt64.ofNat (leValue ((a.data.drop (8 * pos)).take 8))

/-! ## The message -/

/-- `PrefilledTransaction`.  In a message `index` is the offset from the
slot after the previous prefilled transaction. -/
structure PrefilledTransaction where
  index : UInt16
  tx : CTransaction
deriving DecidableEq

/-- `CBlockHeaderAndShortTxIDs`.  The keys `shorttxidk0` and `shorttxidk1`
are a cache that `FillShortTxIDSelector()` fills from the header and the
nonce, after construction and after a read; they are computed where they are
used (`fillShortTxIDSelector`). -/
structure CBlockHeaderAndShortTxIDs where
  nonce : UInt64
  shorttxids : List UInt64
  prefilledtxn : List PrefilledTransaction
  header : CBlockHeader
  /-- `vchBlockSig` (ppcoin). -/
  vchBlockSig : List UInt8
deriving DecidableEq

namespace CBlockHeaderAndShortTxIDs

variable (S : ShortIdHashers)

/-- `SHORTTXIDS_LENGTH`. -/
def SHORTTXIDS_LENGTH : Nat := 6

/-- `FillShortTxIDSelector()`: the first two words of SHA-256 of the header
and the nonce on a `SER_NETWORK` stream. -/
def fillShortTxIDSelector (c : CBlockHeaderAndShortTxIDs) : UInt64 × UInt64 :=
  let shorttxidhash := S.sha256 (c.header.serialize SER_NETWORK ++ leBytes 8 c.nonce.toNat)
  (shorttxidhash.getUint64 0, shorttxidhash.getUint64 1)

/-- `GetShortID(txhash)`. -/
def getShortID (c : CBlockHeaderAndShortTxIDs) (txhash : uint256) : UInt64 :=
  S.sipHashUint256 (c.fillShortTxIDSelector S).1 (c.fillShortTxIDSelector S).2 txhash &&&
    0xffffffffffff

/-- `BlockTxCount()`. -/
def blockTxCount (c : CBlockHeaderAndShortTxIDs) : Nat := c.shorttxids.length + c.prefilledtxn.length

/-- `CBlockHeaderAndShortTxIDs(block, fUseWTXID)`, with the `nonce` that
`GetRand` drew.  On an empty `vtx`, `shorttxids(block.vtx.size() - 1)` asks
for `SIZE_MAX` entries and the vector constructor throws. -/
def ofBlock (H : Hashers) (nonce : UInt64) (fUseWTXID : Bool) (block : CBlock) :
    Except String CBlockHeaderAndShortTxIDs :=
  match block.vtx with
  | [] => throw "cannot create std::vector larger than max_size()"
  | coinbase :: vtx =>
      let c : CBlockHeaderAndShortTxIDs :=
        ⟨nonce, [], [⟨0, coinbase⟩], block.toCBlockHeader, block.vchBlockSig⟩
      pure { c with
        shorttxids := vtx.map fun tx => c.getShortID S (if fUseWTXID then tx.getWitnessHash H else tx.getHash) }

theorem getShortID_lt (c : CBlockHeaderAndShortTxIDs) (txhash : uint256) :
    (c.getShortID S txhash).toNat < 2 ^ 48 := by
  rw [getShortID, UInt64.toNat_and]
  have hmask : (0xffffffffffff : UInt64).toNat = 2 ^ 48 - 1 := rfl
  have := Nat.and_le_right (n := (S.sipHashUint256 (c.fillShortTxIDSelector S).1
    (c.fillShortTxIDSelector S).2 txhash).toNat) (m := (0xffffffffffff : UInt64).toNat)
  omega

end CBlockHeaderAndShortTxIDs

/-! ## On the wire -/

/-- Whether a stream carries the block signature:
`IsVericoin || (s.GetType() & SER_POSMARKER)`. -/
def carriesSig (IsVericoin : Bool) (nType : Nat) : Bool := IsVericoin || nType &&& SER_POSMARKER != 0

/-- `CustomUintFormatter<SHORTTXIDS_LENGTH>::Ser`. -/
def writeShortId (v : UInt64) : Except String (List UInt8) :=
  if v.toNat > 0xffffffffffff then throw "CustomUintFormatter value out of range"
  else pure (leBytes CBlockHeaderAndShortTxIDs.SHORTTXIDS_LENGTH v.toNat)

/-- `CustomUintFormatter<SHORTTXIDS_LENGTH>::Unser`. -/
def readShortId : StreamReader UInt64 := do
  let v ← readLE CBlockHeaderAndShortTxIDs.SHORTTXIDS_LENGTH
  pure (UInt64.ofNat v)

/-- `CompactSizeFormatter::Unser` into a `uint16_t`. -/
def readIndex : StreamReader UInt16 := do
  let n ← readCompactSize
  if n > 0xffff then throw "CompactSize exceeds limit of type" else pure (UInt16.ofNat n)

theorem mapM_writeShortId :
    ∀ (ids : List UInt64), (∀ v ∈ ids, v.toNat < 2 ^ 48) →
      ids.mapM writeShortId = .ok (ids.map fun v => leBytes CBlockHeaderAndShortTxIDs.SHORTTXIDS_LENGTH v.toNat)
  | [], _ => rfl
  | v :: ids, h => by
    have hv : ¬ v.toNat > 0xffffffffffff := by
      have := h v List.mem_cons_self
      omega
    rw [List.mapM_cons, writeShortId, if_neg hv,
      mapM_writeShortId ids (fun w hw => h w (List.mem_cons_of_mem v hw))]
    rfl

theorem readShortId_leBytes {v : UInt64} (hv : v.toNat < 2 ^ 48) (rest : List UInt8) :
    readShortId.run (leBytes CBlockHeaderAndShortTxIDs.SHORTTXIDS_LENGTH v.toNat ++ rest) = .ok (v, rest) := by
  have hmod : v.toNat % 256 ^ CBlockHeaderAndShortTxIDs.SHORTTXIDS_LENGTH = v.toNat :=
    Nat.mod_eq_of_lt (by rw [CBlockHeaderAndShortTxIDs.SHORTTXIDS_LENGTH]; omega)
  rw [readShortId, StateT.run_bind, readLE_leBytes, except_ok_bind, hmod, UInt64.ofNat_toNat]
  rfl

theorem readIndex_writeCompactSize (index : UInt16) (rest : List UInt8) :
    readIndex.run (writeCompactSize index.toNat ++ rest) = .ok (index, rest) := by
  have hlt : index.toNat < 0x10000 := index.toNat_lt
  have hsize : index.toNat ≤ MAX_SIZE := by
    unfold MAX_SIZE
    omega
  have hfits : ¬ index.toNat > 0xffff := by omega
  rw [readIndex, StateT.run_bind, readCompactSize_writeCompactSize hsize, except_ok_bind, if_neg hfits,
    UInt16.ofNat_toNat]
  rfl

namespace PrefilledTransaction

/-- `SERIALIZE_METHODS` writing: `COMPACTSIZE(index)`, then the transaction. -/
def serialize (p : PrefilledTransaction) : List UInt8 :=
  writeCompactSize p.index.toNat ++ p.tx.serialize

/-- `SERIALIZE_METHODS` reading: the index, then a transaction, built with
its hash. -/
def unserialize (H : Hashers) : StreamReader PrefilledTransaction := do
  let index ← readIndex
  let tx ← unserializeTransaction
  pure ⟨index, tx.toTransaction H⟩

theorem unserialize_serialize {H : Hashers} {p : PrefilledTransaction} (hp : p.tx.ReadsBack H)
    (rest : List UInt8) : (unserialize H).run (p.serialize ++ rest) = .ok (p, rest) := by
  rw [unserialize, serialize, List.append_assoc, StateT.run_bind, readIndex_writeCompactSize,
    except_ok_bind, StateT.run_bind, hp.unserialize, except_ok_bind, hp.toTransaction_toMutable]
  rfl

end PrefilledTransaction

namespace CBlockHeaderAndShortTxIDs

/-- `SERIALIZE_METHODS` writing to a stream of type `nType`. -/
def serialize (IsVericoin : Bool) (nType : Nat) (c : CBlockHeaderAndShortTxIDs) :
    Except String (List UInt8) := do
  let ids ← c.shorttxids.mapM writeShortId
  pure (c.header.serialize nType ++ leBytes 8 c.nonce.toNat ++
    (if carriesSig IsVericoin nType then CBlock.serializeBytes c.vchBlockSig else []) ++
    (writeCompactSize c.shorttxids.length ++ ids.flatten) ++
    (writeCompactSize c.prefilledtxn.length ++ c.prefilledtxn.flatMap PrefilledTransaction.serialize))

/-- The read of the signature, made only on a stream that carries it; the
dummy object's signature is empty. -/
def readBlockSig (IsVericoin : Bool) (nType : Nat) : StreamReader (List UInt8) :=
  if carriesSig IsVericoin nType then readByteVector else pure []

/-- `SERIALIZE_METHODS` reading from a stream of type `nType` into the dummy
object `CBlockHeaderAndShortTxIDs()`, whose header is null. -/
def unserialize (H : Hashers) (IsVericoin : Bool) (nType : Nat) :
    StreamReader CBlockHeaderAndShortTxIDs := do
  let header ← CBlockHeader.unserialize nType CBlockHeader.null
  let nonce ← readLE 8
  let vchBlockSig ← readBlockSig IsVericoin nType
  let shorttxids ← readVector readShortId
  let prefilledtxn ← readVector (PrefilledTransaction.unserialize H)
  if shorttxids.length + prefilledtxn.length > 0xffff then throw "indexes overflowed 16 bits"
  else pure ⟨UInt64.ofNat nonce, shorttxids, prefilledtxn, header, vchBlockSig⟩

/-- What a stream of type `nType` carries of a message into the dummy
object: the header as `CBlockHeader`'s read gives it, and the signature only
where it is written. -/
def carried (IsVericoin : Bool) (nType : Nat) (c : CBlockHeaderAndShortTxIDs) :
    CBlockHeaderAndShortTxIDs :=
  { c with
    header := CBlockHeader.carried nType CBlockHeader.null c.header
    vchBlockSig := if carriesSig IsVericoin nType then c.vchBlockSig else [] }

/-- A message that reads back: short ids that fit six bytes, a count that
fits `uint16_t`, prefilled transactions that read back, and a signature of
at most `MAX_SIZE` bytes. -/
structure ReadsBack (H : Hashers) (c : CBlockHeaderAndShortTxIDs) : Prop where
  shortIds : ∀ v ∈ c.shorttxids, v.toNat < 2 ^ 48
  count : c.blockTxCount ≤ 0xffff
  prefilled : ∀ p ∈ c.prefilledtxn, p.tx.ReadsBack H
  sig : c.vchBlockSig.length ≤ MAX_SIZE

/-- The signature reads back where it is written. -/
theorem readBlockSig_serializeBytes {v : List UInt8} (hv : v.length ≤ MAX_SIZE) (IsVericoin : Bool)
    (nType : Nat) (rest : List UInt8) :
    (readBlockSig IsVericoin nType).run
        ((if carriesSig IsVericoin nType then CBlock.serializeBytes v else []) ++ rest) =
      .ok (if carriesSig IsVericoin nType then v else [], rest) := by
  unfold readBlockSig
  cases carriesSig IsVericoin nType
  · rfl
  · exact readByteVector_serializeBytes hv rest

/-- **Message round trip.**  A message whose short ids fit six bytes, whose
count fits `uint16_t` and whose prefilled transactions read back is written
without an exception, and reading it gives back what the stream carries of
it, stopping where it ends. -/
theorem unserialize_serialize {H : Hashers} {c : CBlockHeaderAndShortTxIDs} (hc : c.ReadsBack H)
    (IsVericoin : Bool) (nType : Nat) :
    ∃ bytes, c.serialize IsVericoin nType = .ok bytes ∧
      ∀ rest, (unserialize H IsVericoin nType).run (bytes ++ rest) =
        .ok (c.carried IsVericoin nType, rest) := by
  refine ⟨_, by rw [serialize, mapM_writeShortId c.shorttxids hc.shortIds]; rfl, fun rest => ?_⟩
  have hcount := hc.count
  unfold blockTxCount at hcount
  have hmax : 0xffff ≤ MAX_SIZE := by decide
  -- the two vectors, each read back whole
  have hids := readVector_flatMap (r := readShortId) (f := id) (by omega)
    (fun v hv rest => readShortId_leBytes (hc.shortIds v hv) rest)
  have hpre := readVector_flatMap (r := PrefilledTransaction.unserialize H) (f := id) (by omega)
    (fun p hp rest => PrefilledTransaction.unserialize_serialize (hc.prefilled p hp) rest)
  simp only [List.map_id, List.append_assoc] at hids hpre
  have hnonce := readLE_leBytes 8 c.nonce.toNat
  have hfits : ¬ c.shorttxids.length + c.prefilledtxn.length > 0xffff := by omega
  simp only [← List.flatMap_def, List.append_assoc]
  rw [unserialize, StateT.run_bind, CBlockHeader.unserialize_serialize, except_ok_bind, StateT.run_bind, hnonce,
    except_ok_bind, StateT.run_bind, readBlockSig_serializeBytes hc.sig, except_ok_bind, StateT.run_bind, hids,
    except_ok_bind, StateT.run_bind, hpre, except_ok_bind, if_neg hfits]
  have hnonce' : UInt64.ofNat (c.nonce.toNat % 256 ^ 8) = c.nonce := by
    rw [Nat.mod_eq_of_lt (show c.nonce.toNat < 256 ^ 8 from c.nonce.toNat_lt), UInt64.ofNat_toNat]
  rw [hnonce']
  rfl

end CBlockHeaderAndShortTxIDs

/-! ## `InitData` -/

/-- `MIN_SERIALIZABLE_TRANSACTION_WEIGHT`. -/
def MIN_SERIALIZABLE_TRANSACTION_WEIGHT : Nat := WITNESS_SCALE_FACTOR * 10

/-- `PartiallyDownloadedBlock`: the slots, `mempool_count`, the header and
the signature.  `prefilled_count` and `extra_count` are only logged. -/
structure PartiallyDownloadedBlock where
  txn_available : List (Option CTransaction)
  mempool_count : Nat
  header : CBlockHeader
  /-- `vchBlockSig` (ppcoin). -/
  vchBlockSig : List UInt8

namespace PartiallyDownloadedBlock

/-- `PartiallyDownloadedBlock(pool)`: a null header and no slots, as the
`assert` at the start of `InitData` requires. -/
def fresh : PartiallyDownloadedBlock := ⟨[], 0, CBlockHeader.null, []⟩

/-- The prefilled loop of `InitData`, from the `i`-th prefilled transaction
on: each lands `index + 1` slots after the previous one.  A null
transaction, a slot past `uint16_t`, or a slot past the short ids and the
prefilled transactions before it is `READ_STATUS_INVALID`; the slots are
returned as the loop leaves them. -/
def placePrefilled (nShortIds : Nat) :
    Nat → Int → List (Option CTransaction) → List PrefilledTransaction →
      ReadStatus × List (Option CTransaction)
  | _, _, slots, [] => (.READ_STATUS_OK, slots)
  | i, lastprefilledindex, slots, p :: prefilledtxn =>
      if p.tx.isNull then (.READ_STATUS_INVALID, slots)
      else
        let lastprefilledindex := lastprefilledindex + p.index.toNat + 1
        if lastprefilledindex > 0xffff then (.READ_STATUS_INVALID, slots)
        else if lastprefilledindex.toNat > nShortIds + i then (.READ_STATUS_INVALID, slots)
        else
          placePrefilled nShortIds (i + 1) lastprefilledindex
            (slots.set lastprefilledindex.toNat (some p.tx)) prefilledtxn

/-- `shorttxids[id] = index` on the map of `InitData`, kept as its entries:
the entry of `id` takes the new value, or a new entry is added. -/
def assignShortId (m : List (UInt64 × UInt16)) (id : UInt64) (index : UInt16) :
    List (UInt64 × UInt16) :=
  if m.any (·.1 == id) then m.map fun e => if e.1 == id then (id, index) else e
  else m ++ [(id, index)]

/-- `while (txn_available[i + index_offset]) index_offset++`, from slot
`i + index_offset` on: the held slots before the first free one. -/
def heldRun : List (Option CTransaction) → Nat
  | some _ :: slots => heldRun slots + 1
  | _ => 0

/-- The short-id loop of `InitData`, from the `i`-th short id on: each short
id gets the next slot no prefilled transaction holds, stored as a
`uint16_t`.  `none` is the `READ_STATUS_FAILED` of a bucket with more than
twelve entries.  `index_offset` is a `uint16_t` in the code; it counts held
slots, at most the prefilled transactions, which a message that was read has
fewer than `2^16` of. -/
def mapShortIds (overfull : List (UInt64 × UInt16) → UInt64 → Bool) (slots : List (Option CTransaction)) :
    Nat → Nat → List (UInt64 × UInt16) → List UInt64 → Option (List (UInt64 × UInt16))
  | _, _, m, [] => some m
  | i, index_offset, m, id :: shorttxids =>
      let index_offset := index_offset + heldRun (slots.drop (i + index_offset))
      let m := assignShortId m id (UInt16.ofNat (i + index_offset))
      if overfull m id then none
      else mapShortIds overfull slots (i + 1) index_offset m shorttxids

/-- One of the two candidate loops of `InitData`: over the mempool's
`vTxHashes` (`fExtra = false`) or over `extra_txn` (`fExtra = true`).  A
candidate whose short id is in the map fills its slot when `have_txn` is
unset; when it is set, the slot is emptied if it holds a transaction, for an
extra transaction only if the witness hashes differ.  The loop stops once
`mempool_count` reaches the size of the map. -/
def matchCandidates (H : Hashers) (getShortID : uint256 → UInt64) (m : List (UInt64 × UInt16))
    (fExtra : Bool) :
    List (uint256 × CTransaction) → List Bool × PartiallyDownloadedBlock →
      List Bool × PartiallyDownloadedBlock
  | [], st => st
  | (txhash, tx) :: candidates, (have_txn, pdb) =>
      let st : List Bool × PartiallyDownloadedBlock :=
        match List.lookup (getShortID txhash) m with
        | none => (have_txn, pdb)
        | some index =>
            if !have_txn.getD index.toNat false then
              (have_txn.set index.toNat true,
                { pdb with
                  txn_available := pdb.txn_available.set index.toNat (some tx)
                  mempool_count := pdb.mempool_count + 1 })
            else
              match pdb.txn_available.getD index.toNat none with
              | some held =>
                  if fExtra && held.getWitnessHash H == tx.getWitnessHash H then (have_txn, pdb)
                  else
                    (have_txn,
                      { pdb with
                        txn_available := pdb.txn_available.set index.toNat none
                        mempool_count := pdb.mempool_count - 1 })
              | none => (have_txn, pdb)
      if st.2.mempool_count = m.length then st
      else matchCandidates H getShortID m fExtra candidates st

/-- The part of `InitData` after the prefilled loop, on the object `pdb`
whose slots hold the prefilled transactions: the map from short ids to
slots, the collision test, and the two candidate loops. -/
def initShortIds (H : Hashers) (S : ShortIdHashers) (overfull : List (UInt64 × UInt16) → UInt64 → Bool)
    (vTxHashes : List (uint256 × CTransaction)) (cmpctblock : CBlockHeaderAndShortTxIDs)
    (extra_txn : List (uint256 × CTransaction)) (pdb : PartiallyDownloadedBlock) :
    ReadStatus × PartiallyDownloadedBlock :=
  match mapShortIds overfull pdb.txn_available 0 0 [] cmpctblock.shorttxids with
  | none => (.READ_STATUS_FAILED, pdb)
  | some m =>
      if m.length ≠ cmpctblock.shorttxids.length then (.READ_STATUS_FAILED, pdb)
      else
        let st := matchCandidates H (cmpctblock.getShortID S) m false vTxHashes
          (List.replicate pdb.txn_available.length false, pdb)
        let st := matchCandidates H (cmpctblock.getShortID S) m true extra_txn st
        (.READ_STATUS_OK, st.2)

/-- `InitData(cmpctblock, extra_txn)` on a fresh object whose mempool has
the entries `vTxHashes`: the status, and the object as the call leaves it. -/
def initData (H : Hashers) (S : ShortIdHashers) (overfull : List (UInt64 × UInt16) → UInt64 → Bool)
    (vTxHashes : List (uint256 × CTransaction)) (cmpctblock : CBlockHeaderAndShortTxIDs)
    (extra_txn : List (uint256 × CTransaction)) : ReadStatus × PartiallyDownloadedBlock :=
  if cmpctblock.header.isNull || (cmpctblock.shorttxids.isEmpty && cmpctblock.prefilledtxn.isEmpty) then
    (.READ_STATUS_INVALID, fresh)
  else if cmpctblock.shorttxids.length + cmpctblock.prefilledtxn.length >
      MAX_BLOCK_WEIGHT / MIN_SERIALIZABLE_TRANSACTION_WEIGHT then
    (.READ_STATUS_INVALID, fresh)
  else
    let pdb : PartiallyDownloadedBlock :=
      ⟨List.replicate cmpctblock.blockTxCount none, 0, cmpctblock.header, cmpctblock.vchBlockSig⟩
    match placePrefilled cmpctblock.shorttxids.length 0 (-1) pdb.txn_available cmpctblock.prefilledtxn with
    | (.READ_STATUS_OK, slots) =>
        initShortIds H S overfull vTxHashes cmpctblock extra_txn { pdb with txn_available := slots }
    | (status, slots) => (status, { pdb with txn_available := slots })

section Lemmas

variable (H : Hashers) (S : ShortIdHashers) (overfull : List (UInt64 × UInt16) → UInt64 → Bool)

/-- After the prefilled loop `InitData` fails only with
`READ_STATUS_FAILED`. -/
theorem initShortIds_ne_invalid (vTxHashes : List (uint256 × CTransaction)) (c : CBlockHeaderAndShortTxIDs)
    (extra_txn : List (uint256 × CTransaction)) (pdb : PartiallyDownloadedBlock) :
    (initShortIds H S overfull vTxHashes c extra_txn pdb).1 ≠ .READ_STATUS_INVALID := by
  unfold initShortIds
  split
  · simp
  · split_ifs <;> simp

/-- With no candidates the loops leave the object as the prefilled loop
left it. -/
theorem initShortIds_nil {c : CBlockHeaderAndShortTxIDs} {pdb pdb' : PartiallyDownloadedBlock}
    (h : initShortIds H S overfull [] c [] pdb = (.READ_STATUS_OK, pdb')) : pdb' = pdb := by
  unfold initShortIds at h
  split at h
  · cases h
  · split_ifs at h
    · cases h
    · exact (Prod.mk.inj h).2.symm

theorem assignShortId_of_not_mem {m : List (UInt64 × UInt16)} {id : UInt64} (h : id ∉ m.map Prod.fst)
    (index : UInt16) : assignShortId m id index = m ++ [(id, index)] := by
  have hany : m.any (·.1 == id) = false := by
    rw [List.any_eq_false]
    intro e he heq
    exact h (List.mem_map.mpr ⟨e, he, by simpa using heq⟩)
  simp only [assignShortId, hany, Bool.false_eq_true, if_false]

/-- Distinct short ids, and buckets that never overflow: the loop maps every
short id, one entry each. -/
theorem mapShortIds_of_nodup (hover : ∀ m id, overfull m id = false) (slots : List (Option CTransaction)) :
    ∀ (ids : List UInt64) (i index_offset : Nat) (m : List (UInt64 × UInt16)),
      (m.map Prod.fst ++ ids).Nodup →
        ∃ m', mapShortIds overfull slots i index_offset m ids = some m' ∧ m'.length = m.length + ids.length
  | [], _, _, m, _ => ⟨m, rfl, rfl⟩
  | id :: ids, i, index_offset, m, hnd => by
    -- the short id is not a key yet, so its entry is added
    have hnot : id ∉ m.map Prod.fst := by
      intro hmem
      exact (List.nodup_append.mp hnd).2.2 id hmem id List.mem_cons_self rfl
    let index_offset' := index_offset + heldRun (slots.drop (i + index_offset))
    have hnd' : ((m ++ [(id, UInt16.ofNat (i + index_offset'))]).map Prod.fst ++ ids).Nodup := by
      simpa using hnd
    obtain ⟨m', hrun, hlen⟩ := mapShortIds_of_nodup hover slots ids (i + 1) index_offset' _ hnd'
    refine ⟨m', ?_, ?_⟩
    · rw [mapShortIds]
      simp only [assignShortId_of_not_mem hnot, hover, Bool.false_eq_true, if_false]
      exact hrun
    · simp only [hlen, List.length_append, List.length_cons, List.length_nil]
      omega

/-- Distinct short ids, and buckets that never overflow: after the prefilled
loop `InitData` succeeds. -/
theorem initShortIds_ok {c : CBlockHeaderAndShortTxIDs} (hnd : c.shorttxids.Nodup)
    (hover : ∀ m id, overfull m id = false) (vTxHashes extra_txn : List (uint256 × CTransaction))
    (pdb : PartiallyDownloadedBlock) :
    (initShortIds H S overfull vTxHashes c extra_txn pdb).1 = .READ_STATUS_OK := by
  obtain ⟨m, hrun, hlen⟩ :=
    mapShortIds_of_nodup overfull hover pdb.txn_available c.shorttxids 0 0 [] (by simpa using hnd)
  rw [List.length_nil, Nat.zero_add] at hlen
  rw [initShortIds, hrun]
  simp [hlen]

/-- A message that passes the count checks and whose prefilled transactions
all find a slot goes on to the short ids, with the header and signature
set. -/
theorem initData_of_placed {c : CBlockHeaderAndShortTxIDs} {slots : List (Option CTransaction)}
    (hnull : c.header.isNull = false) (hpre : c.prefilledtxn ≠ [])
    (hcount : c.blockTxCount ≤ MAX_BLOCK_WEIGHT / MIN_SERIALIZABLE_TRANSACTION_WEIGHT)
    (hplaced : placePrefilled c.shorttxids.length 0 (-1) (List.replicate c.blockTxCount none) c.prefilledtxn =
      (.READ_STATUS_OK, slots))
    (vTxHashes extra_txn : List (uint256 × CTransaction)) :
    initData H S overfull vTxHashes c extra_txn =
      initShortIds H S overfull vTxHashes c extra_txn ⟨slots, 0, c.header, c.vchBlockSig⟩ := by
  have hcheck : (c.header.isNull || (c.shorttxids.isEmpty && c.prefilledtxn.isEmpty)) = false := by
    simp [hnull, hpre]
  have hcount' : ¬ c.shorttxids.length + c.prefilledtxn.length >
      MAX_BLOCK_WEIGHT / MIN_SERIALIZABLE_TRANSACTION_WEIGHT := by
    unfold CBlockHeaderAndShortTxIDs.blockTxCount at hcount
    omega
  rw [initData, hcheck, if_neg Bool.false_ne_true, if_neg hcount']
  simp only [hplaced]

/-- The prefilled loop on a message of `ofBlock`: the coinbase lands in
slot `0`, and the slots of the short ids stay free. -/
theorem placePrefilled_coinbase {coinbase : CTransaction} (hnull : coinbase.isNull = false) (n : Nat) :
    placePrefilled n 0 (-1) (List.replicate (n + 1) none) [⟨0, coinbase⟩] =
      (.READ_STATUS_OK, some coinbase :: List.replicate n none) := by
  simp [placePrefilled, hnull, List.replicate_succ]

end Lemmas

end PartiallyDownloadedBlock

/-! ## `FillBlock` after `InitData` -/

/-- Missing transactions fill free slots one each, in order. -/
theorem fillSlots_replicate_none :
    ∀ (vtx_missing : List CTransaction),
      fillSlots (List.replicate vtx_missing.length none) vtx_missing = some (vtx_missing, [])
  | [] => rfl
  | tx :: vtx_missing => by
    rw [List.length_cons, List.replicate_succ, fillSlots, fillSlots_replicate_none vtx_missing]
    rfl

/-- What `FillBlock` writes: when the missing transactions complete the
slots, the object after the call has the header, the signature and the
transactions it was given, whatever `CheckBlock` then says. -/
theorem fillBlock_fields (env : CheckBlockEnv) (H : Hashers) (IsVericoin : Bool) (consensusParams : Params)
    {header : CBlockHeader} {sig : List UInt8} {txn_available : List (Option CTransaction)}
    {vtx_missing vtx : List CTransaction} (hslots : fillSlots txn_available vtx_missing = some (vtx, []))
    {status : ReadStatus} {block : CBlock}
    (h : fillBlock env H IsVericoin consensusParams header sig txn_available vtx_missing = .ok (status, block)) :
    block.toCBlockHeader = header ∧ block.vchBlockSig = sig ∧ block.vtx = vtx := by
  obtain ⟨f, hf⟩ :=
    checkBlock_snd_eq env H IsVericoin consensusParams (reconstructed header sig vtx) true true true
  have hblock :
      block = (checkBlock env H IsVericoin consensusParams (reconstructed header sig vtx) true true true).2 := by
    unfold fillBlock at h
    rw [hslots] at h
    dsimp only at h
    split at h
    all_goals cases h
    -- every branch that returns hands back the object `CheckBlock` left
    all_goals (rename_i heq; rw [heq])
  rw [hblock, hf]
  exact ⟨rfl, rfl, rfl⟩

/-! ## The message of a block -/

namespace CBlockHeaderAndShortTxIDs

variable (S : ShortIdHashers)

/-- The message of a block: its header and signature, the coinbase
prefilled at offset `0`, and one short id below `2^48` for each other
transaction. -/
theorem ofBlock_spec (H : Hashers) (nonce : UInt64) (fUseWTXID : Bool) {block : CBlock}
    {coinbase : CTransaction} {vtx : List CTransaction} (hvtx : block.vtx = coinbase :: vtx) :
    ∃ c, ofBlock S H nonce fUseWTXID block = .ok c ∧ c.header = block.toCBlockHeader ∧
      c.vchBlockSig = block.vchBlockSig ∧ c.prefilledtxn = [⟨0, coinbase⟩] ∧
      c.shorttxids.length = vtx.length ∧ ∀ v ∈ c.shorttxids, v.toNat < 2 ^ 48 := by
  unfold ofBlock
  rw [hvtx]
  refine ⟨_, rfl, rfl, rfl, rfl, by simp, ?_⟩
  intro v hv
  obtain ⟨tx, -, rfl⟩ := List.mem_map.mp hv
  exact getShortID_lt S _ _

theorem carriesSig_of_writesFlags {nType : Nat} (hflags : writesFlags nType = true) (IsVericoin : Bool) :
    carriesSig IsVericoin nType = true := by
  simp only [writesFlags, Bool.and_eq_true] at hflags
  simp [carriesSig, hflags.2]

/-- A stream that carries the flags carries the whole message. -/
theorem carried_of_writesFlags {nType : Nat} (hflags : writesFlags nType = true) (IsVericoin : Bool)
    (c : CBlockHeaderAndShortTxIDs) : c.carried IsVericoin nType = c := by
  simp [carried, CBlockHeader.carried, hflags, carriesSig_of_writesFlags hflags]

end CBlockHeaderAndShortTxIDs

open CBlockHeaderAndShortTxIDs PartiallyDownloadedBlock in
/-- **Compact block relay rebuilds the block.**  Take a block with a
coinbase that is not null and reads back, a set target, at most `2^16 - 1`
transactions and a signature of at most `MAX_SIZE` bytes, and a stream that
carries the flags.  Its compact block is written and read back as itself;
`InitData` from an empty mempool never answers `READ_STATUS_INVALID`, and
answers `READ_STATUS_OK` when the short ids are distinct and no bucket
overflows; after `READ_STATUS_OK`, `FillBlock` with the other transactions
in order fills every slot, and the object it returns has the block's header,
flags included, its signature and its transactions. -/
theorem cmpctBlock_reconstructs (H : Hashers) (S : ShortIdHashers)
    (overfull : List (UInt64 × UInt16) → UInt64 → Bool) (env : CheckBlockEnv) (IsVericoin : Bool)
    (consensusParams : Params) (nType : Nat) (nonce : UInt64) (fUseWTXID : Bool) {block : CBlock}
    {coinbase : CTransaction} {vtx : List CTransaction} (hvtx : block.vtx = coinbase :: vtx)
    (hbits : block.nBits ≠ 0) (hflags : writesFlags nType = true) (hcount : block.vtx.length ≤ 0xffff)
    (hnull : coinbase.isNull = false) (hcoinbase : coinbase.ReadsBack H)
    (hsig : block.vchBlockSig.length ≤ MAX_SIZE) :
    ∃ c bytes, ofBlock S H nonce fUseWTXID block = .ok c ∧ c.serialize IsVericoin nType = .ok bytes ∧
      (unserialize H IsVericoin nType).run bytes = .ok (c, []) ∧
      (initData H S overfull [] c []).1 ≠ .READ_STATUS_INVALID ∧
      (c.shorttxids.Nodup → (∀ m id, overfull m id = false) →
        (initData H S overfull [] c []).1 = .READ_STATUS_OK) ∧
      ∀ pdb, initData H S overfull [] c [] = (.READ_STATUS_OK, pdb) →
        fillSlots pdb.txn_available vtx = some (block.vtx, []) ∧
        ∀ status blk, fillBlock env H IsVericoin consensusParams pdb.header pdb.vchBlockSig
            pdb.txn_available vtx = .ok (status, blk) →
          blk.toCBlockHeader = block.toCBlockHeader ∧ blk.vchBlockSig = block.vchBlockSig ∧
            blk.vtx = block.vtx := by
  obtain ⟨c, hc, hheader, hsig', hpre, hlen, hids⟩ := ofBlock_spec S H nonce fUseWTXID hvtx
  have hlen' : vtx.length + 1 ≤ 0xffff := by
    rw [hvtx, List.length_cons] at hcount
    exact hcount
  have htotal : c.blockTxCount = c.shorttxids.length + 1 := by
    simp [blockTxCount, hpre]
  -- the message reads back whole on a stream that carries the flags
  have hreads : c.ReadsBack H :=
    ⟨hids, by omega, by simp [hpre, hcoinbase], by rw [hsig']; exact hsig⟩
  obtain ⟨bytes, hser, hread⟩ := unserialize_serialize hreads IsVericoin nType
  rw [carried_of_writesFlags hflags] at hread
  have hread' := hread []
  rw [List.append_nil] at hread'
  -- the coinbase takes slot `0`, and `InitData` goes on to the short ids
  have hplaced : placePrefilled c.shorttxids.length 0 (-1) (List.replicate c.blockTxCount none)
      c.prefilledtxn = (.READ_STATUS_OK, some coinbase :: List.replicate c.shorttxids.length none) := by
    rw [htotal, hpre]
    exact placePrefilled_coinbase hnull _
  have hheaderNull : c.header.isNull = false := by
    simpa [hheader, CBlockHeader.isNull] using hbits
  have hbound : c.blockTxCount ≤ MAX_BLOCK_WEIGHT / MIN_SERIALIZABLE_TRANSACTION_WEIGHT := by
    have : MAX_BLOCK_WEIGHT / MIN_SERIALIZABLE_TRANSACTION_WEIGHT = 100000 := by decide
    omega
  have hinit := initData_of_placed H S overfull hheaderNull (by simp [hpre]) hbound hplaced [] []
  refine ⟨c, bytes, hc, hser, hread', ?_, ?_, ?_⟩
  · rw [hinit]
    exact initShortIds_ne_invalid H S overfull [] c [] _
  · intro hnd hover
    rw [hinit]
    exact initShortIds_ok H S overfull hnd hover [] [] _
  · intro pdb hok
    rw [hinit] at hok
    obtain rfl := initShortIds_nil H S overfull hok
    -- the short-id slots are free, and the missing transactions fill them in order
    have hslots : fillSlots (some coinbase :: List.replicate c.shorttxids.length none) vtx =
        some (block.vtx, []) := by
      rw [hlen, fillSlots, fillSlots_replicate_none, hvtx]
      rfl
    refine ⟨hslots, fun status blk hfill => ?_⟩
    obtain ⟨hh, hs, hv⟩ := fillBlock_fields env H IsVericoin consensusParams hslots hfill
    exact ⟨hh.trans hheader, hs.trans hsig', hv⟩

/-! ## A block relayed on two streams -/

/-- Short-id hashes that are all zero. -/
def zeroShortIdHashers : ShortIdHashers := ⟨fun _ => uint256.zero, fun _ _ _ => 0⟩

theorem stakeCoinbase_readsBack : stakeCoinbase.ReadsBack zeroHashers where
  hash := rfl
  wit := by simp [stakeCoinbase]
  vin := by decide
  vout := by decide
  sig := by simp [stakeCoinbase, MAX_SIZE]
  pk := by simp [stakeCoinbase, MAX_SIZE]
  value := by simp [stakeCoinbase, int64Range]

/-- A stake block of a coinbase and a coinstake. -/
def relayBlock : CBlock := { CBlock.ofHeader stakeHeader with vtx := [stakeCoinbase, coinstake] }

theorem cmpctBlock_reconstructs_relayBlock :
    relayBlock.vtx = [stakeCoinbase, coinstake] ∧ relayBlock.nBits ≠ 0 ∧
      writesFlags (SER_NETWORK ||| SER_POSMARKER) = true ∧ stakeCoinbase.isNull = false ∧
      stakeCoinbase.ReadsBack zeroHashers ∧
      ∃ c bytes pdb, CBlockHeaderAndShortTxIDs.ofBlock zeroShortIdHashers zeroHashers 0 false relayBlock = .ok c ∧
        c.serialize true (SER_NETWORK ||| SER_POSMARKER) = .ok bytes ∧
        (CBlockHeaderAndShortTxIDs.unserialize zeroHashers true (SER_NETWORK ||| SER_POSMARKER)).run bytes =
          .ok (c, []) ∧
        PartiallyDownloadedBlock.initData zeroHashers zeroShortIdHashers (fun _ _ => false) [] c [] =
          (.READ_STATUS_OK, pdb) ∧
        fillSlots pdb.txn_available [coinstake] = some (relayBlock.vtx, []) := by
  obtain ⟨c, bytes, hc, hser, hread, -, hok, hfill⟩ :=
    cmpctBlock_reconstructs zeroHashers zeroShortIdHashers (fun _ _ => false) noKeyEnv true stakeParams
      (SER_NETWORK ||| SER_POSMARKER) 0 false (show relayBlock.vtx = stakeCoinbase :: [coinstake] from rfl)
      (by decide) (by decide) (by decide) rfl stakeCoinbase_readsBack (by decide)
  -- one short id, so they are distinct
  have hids : c.shorttxids.length = 1 := by
    have hrun : CBlockHeaderAndShortTxIDs.ofBlock zeroShortIdHashers zeroHashers 0 false relayBlock =
        .ok ⟨0, [0], [⟨0, stakeCoinbase⟩], stakeHeader, []⟩ := rfl
    rw [hrun] at hc
    cases hc
    rfl
  obtain ⟨id, hid⟩ := List.length_eq_one_iff.mp hids
  have hstatus := hok (by rw [hid]; exact List.nodup_singleton id) (fun _ _ => rfl)
  refine ⟨rfl, by decide, by decide, rfl, stakeCoinbase_readsBack, c, bytes, _, hc, hser, hread,
    Prod.ext hstatus rfl, (hfill _ (Prod.ext hstatus rfl)).1⟩

/-- A block of a coinbase alone, whose header has `nFlags = 1`. -/
def flaggedBlock : CBlock := { CBlock.ofHeader { stakeHeader with nFlags := 1 } with vtx := [stakeCoinbase] }

/-- A transaction with no input and no output. -/
def nullTransaction : CTransaction := ⟨1, 0, [], [], 0, uint256.zero⟩

/-- A block whose coinbase is null. -/
def nullCoinbaseBlock : CBlock := { CBlock.ofHeader stakeHeader with vtx := [nullTransaction] }

/-- Two blocks with a coinbase and a set target that compact block relay
does not rebuild.  On Vericoin with a `SER_NETWORK` stream the signature is
written but the flags are not: the message is read back into a header with
`nFlags = 0`, `InitData` succeeds, and the object `FillBlock` returns has
`nFlags = 0` where the block had `1`.  A block whose coinbase has no input
and no output is read back whole on a stream that carries everything, and
`InitData` answers `READ_STATUS_INVALID`. -/
theorem flaggedBlock_not_rebuilt (S : ShortIdHashers) (overfull : List (UInt64 × UInt16) → UInt64 → Bool) :
    (∃ c bytes c' pdb, CBlockHeaderAndShortTxIDs.ofBlock S zeroHashers 0 false flaggedBlock = .ok c ∧
      c.serialize true SER_NETWORK = .ok bytes ∧
      (CBlockHeaderAndShortTxIDs.unserialize zeroHashers true SER_NETWORK).run bytes = .ok (c', []) ∧
      PartiallyDownloadedBlock.initData zeroHashers S overfull [] c' [] = (.READ_STATUS_OK, pdb) ∧
      fillSlots pdb.txn_available [] = some (flaggedBlock.vtx, []) ∧
      (∀ env consensusParams status blk, fillBlock env zeroHashers true consensusParams pdb.header
        pdb.vchBlockSig pdb.txn_available [] = .ok (status, blk) → blk.nFlags = 0) ∧
      flaggedBlock.nFlags = 1) ∧
    (∃ c bytes, CBlockHeaderAndShortTxIDs.ofBlock S zeroHashers 0 false nullCoinbaseBlock = .ok c ∧
      c.serialize true (SER_NETWORK ||| SER_POSMARKER) = .ok bytes ∧
      (CBlockHeaderAndShortTxIDs.unserialize zeroHashers true (SER_NETWORK ||| SER_POSMARKER)).run bytes =
        .ok (c, []) ∧
      (PartiallyDownloadedBlock.initData zeroHashers S overfull [] c []).1 = .READ_STATUS_INVALID) := by
  constructor
  · let c : CBlockHeaderAndShortTxIDs := ⟨0, [], [⟨0, stakeCoinbase⟩], { stakeHeader with nFlags := 1 }, []⟩
    have hreads : c.ReadsBack zeroHashers :=
      ⟨by simp [c], by decide, by simp [c, stakeCoinbase_readsBack], by decide⟩
    obtain ⟨bytes, hser, hread⟩ := CBlockHeaderAndShortTxIDs.unserialize_serialize hreads true SER_NETWORK
    -- `SER_NETWORK` does not carry the flags: the header comes back with those of a null header
    have hcarried : c.carried true SER_NETWORK = ⟨0, [], [⟨0, stakeCoinbase⟩], stakeHeader, []⟩ := by
      decide
    refine ⟨c, bytes, _, ⟨[some stakeCoinbase], 0, stakeHeader, []⟩, rfl, hser,
      by simpa [hcarried] using hread [], rfl, rfl, ?_, rfl⟩
    intro env consensusParams status blk hfill
    have hfields := fillBlock_fields env zeroHashers true consensusParams
      (show fillSlots [some stakeCoinbase] [] = some ([stakeCoinbase], []) from rfl) hfill
    show blk.toCBlockHeader.nFlags = 0
    rw [hfields.1]
    rfl
  · let c : CBlockHeaderAndShortTxIDs := ⟨0, [], [⟨0, nullTransaction⟩], stakeHeader, []⟩
    have hnull : nullTransaction.ReadsBack zeroHashers :=
      ⟨rfl, by simp [nullTransaction], by decide, by decide, by simp [nullTransaction],
        by simp [nullTransaction], by simp [nullTransaction]⟩
    have hreads : c.ReadsBack zeroHashers := ⟨by simp [c], by decide, by simp [c, hnull], by decide⟩
    obtain ⟨bytes, hser, hread⟩ :=
      CBlockHeaderAndShortTxIDs.unserialize_serialize hreads true (SER_NETWORK ||| SER_POSMARKER)
    rw [CBlockHeaderAndShortTxIDs.carried_of_writesFlags (by decide)] at hread
    exact ⟨c, bytes, rfl, hser, by simpa using hread [], rfl⟩

theorem cmpctBlock_flags_lost :
    (∃ c bytes c' pdb,
      CBlockHeaderAndShortTxIDs.ofBlock zeroShortIdHashers zeroHashers 0 false flaggedBlock = .ok c ∧
      c.serialize true SER_NETWORK = .ok bytes ∧
      (CBlockHeaderAndShortTxIDs.unserialize zeroHashers true SER_NETWORK).run bytes = .ok (c', []) ∧
      PartiallyDownloadedBlock.initData zeroHashers zeroShortIdHashers (fun _ _ => false) [] c' [] =
        (.READ_STATUS_OK, pdb) ∧
      fillSlots pdb.txn_available [] = some (flaggedBlock.vtx, []) ∧
      (∀ env consensusParams status blk, fillBlock env zeroHashers true consensusParams pdb.header
        pdb.vchBlockSig pdb.txn_available [] = .ok (status, blk) → blk.nFlags = 0) ∧
      flaggedBlock.nFlags = 1) ∧
    (∃ c bytes,
      CBlockHeaderAndShortTxIDs.ofBlock zeroShortIdHashers zeroHashers 0 false nullCoinbaseBlock = .ok c ∧
      c.serialize true (SER_NETWORK ||| SER_POSMARKER) = .ok bytes ∧
      (CBlockHeaderAndShortTxIDs.unserialize zeroHashers true (SER_NETWORK ||| SER_POSMARKER)).run bytes =
        .ok (c, []) ∧
      (PartiallyDownloadedBlock.initData zeroHashers zeroShortIdHashers (fun _ _ => false) [] c []).1 =
        .READ_STATUS_INVALID) :=
  flaggedBlock_not_rebuilt zeroShortIdHashers (fun _ _ => false)

end Veribase
