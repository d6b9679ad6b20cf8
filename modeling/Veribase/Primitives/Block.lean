import Veribase.Primitives.Transaction
import Veribase.Serialize.CompactSize

/-!
# Block headers and blocks

`primitives/block.h`.  A header carries the six fields of the 80-byte
Bitcoin header and the ppcoin `nFlags`, a copy of the sender's block-index
flags for headers-first synchronisation.  `nFlags` is serialized only on a
`SER_POSMARKER` stream that is not computing a hash, so it is outside the
block hash on both chains: Vericoin hashes the 80 bytes from `nVersion` with
scrypt, Verium double-SHA-256es the `SER_GETHASH` serialization, and the two
are the same 80 bytes.

A `CBlock` adds the transactions, the ppcoin block signature and the
memory-only `fChecked` cache.  Which chain the binary is built for is the
compile-time constant `IsVericoin` of `clientversion.h`; it decides whether a
block can be proof-of-stake and whether the block signature is serialized.

The hash functions live in `src/crypto` and are parameters (`Hashers`).
Transaction serialization is a parameter of block serialization.
-/

namespace Veribase

open ByteStream

/-- The hash functions of `src/crypto`: `Hash` is double SHA-256 of a byte
string, `scryptHash` the scrypt hash of an 80-byte header. -/
structure Hashers where
  /-- `Hash(begin, end)`. -/
  Hash : List UInt8 → uint256
  /-- `scryptHash(input, output)` on the 80 bytes at `input`. -/
  scryptHash : List UInt8 → uint256

/-! ## Stream types -/

/-- `SER_NETWORK`. -/
def SER_NETWORK : Nat := 1 <<< 0

/-- `SER_DISK`. -/
def SER_DISK : Nat := 1 <<< 1

/-- `SER_GETHASH`. -/
def SER_GETHASH : Nat := 1 <<< 2

/-- `SER_POSMARKER`: headers are sent with their PoS flags. -/
def SER_POSMARKER : Nat := 1 <<< 18

/-- The test `!(s.GetType() & SER_GETHASH) && s.GetType() & SER_POSMARKER`. -/
def writesFlags (nType : Nat) : Bool :=
  nType &&& SER_GETHASH == 0 && nType &&& SER_POSMARKER != 0

/-- Reading a `uint256`: its 32 bytes. -/
def uint256.unserialize : StreamReader uint256 := do
  let bs ← readBytes EOD 32
  if h : bs.length = 32 then pure ⟨bs, h⟩ else throw EOD

theorem uint256.unserialize_data (a : uint256) (rest : List UInt8) :
    uint256.unserialize.run (a.data ++ rest) = .ok (a, rest) := by
  rw [uint256.unserialize, StateT.run_bind, readBytes_append EOD rest a.length_data,
    except_ok_bind, dif_pos a.length_data]
  rfl

/-- A 32-bit field read back from its four bytes. -/
theorem readLE_four_toNat (x : UInt32) (rest : List UInt8) :
    (readLE 4).run (leBytes 4 x.toNat ++ rest) = .ok (x.toNat, rest) := by
  rw [readLE_leBytes, Nat.mod_eq_of_lt (show x.toNat < 256 ^ 4 from x.toNat_lt)]

/-- An `int32_t` field read back from its four bytes. -/
theorem int32_ofNat_toNat (x : Int32) : Int32.ofNat x.toUInt32.toNat = x := by
  apply Int32.toBitVec_inj.mp
  simp

/-! ## Headers -/

/-- `CBlockHeader`. -/
structure CBlockHeader where
  nVersion : Int32
  hashPrevBlock : uint256
  hashMerkleRoot : uint256
  nTime : UInt32
  nBits : UInt32
  nNonce : UInt32
  /-- `nFlags` (ppcoin). -/
  nFlags : UInt32
deriving DecidableEq

namespace CBlockHeader

/-- `CBlockHeader::CURRENT_VERSION`. -/
def CURRENT_VERSION : Int32 := 7

/-- `CBlockHeader::NORMAL_SERIALIZE_SIZE`. -/
def NORMAL_SERIALIZE_SIZE : Nat := 80

/-- A header after `SetNull()`. -/
def null : CBlockHeader :=
  { nVersion := CURRENT_VERSION, hashPrevBlock := uint256.zero, hashMerkleRoot := uint256.zero,
    nTime := 0, nBits := 0, nNonce := 0, nFlags := 0 }

/-- `IsNull()`. -/
def isNull (h : CBlockHeader) : Bool := h.nBits == 0

/-- `GetBlockTime()`. -/
def getBlockTime (h : CBlockHeader) : Int := h.nTime.toNat

/-- `SerializationOp` writing to a stream of type `nType`. -/
def serialize (nType : Nat) (h : CBlockHeader) : List UInt8 :=
  leBytes 4 h.nVersion.toUInt32.toNat ++ h.hashPrevBlock.data ++ h.hashMerkleRoot.data ++
    leBytes 4 h.nTime.toNat ++ leBytes 4 h.nBits.toNat ++ leBytes 4 h.nNonce.toNat ++
    (if writesFlags nType then leBytes 4 h.nFlags.toNat else [])

/-- `GetWorkHash()`: scrypt of the 80 bytes from `nVersion`, which are the
`SER_GETHASH` serialization. -/
def getWorkHash (H : Hashers) (h : CBlockHeader) : uint256 := H.scryptHash (h.serialize SER_GETHASH)

/-- `GetVeriumHash()`: `SerializeHash(*this)`. -/
def getVeriumHash (H : Hashers) (h : CBlockHeader) : uint256 := H.Hash (h.serialize SER_GETHASH)

/-- `GetHash()`. -/
def getHash (H : Hashers) (IsVericoin : Bool) (h : CBlockHeader) : uint256 :=
  if IsVericoin then h.getWorkHash H else h.getVeriumHash H

/-- The read of `nFlags`, made only on a stream that carries it. -/
def unserializeFlags (nType : Nat) (into : CBlockHeader) : StreamReader Nat :=
  if writesFlags nType then readLE 4 else pure into.nFlags.toNat

/-- `SerializationOp` reading from a stream of type `nType` into `into`: the
fields the stream carries are read, the others keep the value they had. -/
def unserialize (nType : Nat) (into : CBlockHeader) : StreamReader CBlockHeader := do
  let nVersion ← readLE 4
  let hashPrevBlock ← uint256.unserialize
  let hashMerkleRoot ← uint256.unserialize
  let nTime ← readLE 4
  let nBits ← readLE 4
  let nNonce ← readLE 4
  let nFlags ← unserializeFlags nType into
  pure
    { nVersion := (UInt32.ofNat nVersion).toInt32
      hashPrevBlock := hashPrevBlock
      hashMerkleRoot := hashMerkleRoot
      nTime := UInt32.ofNat nTime
      nBits := UInt32.ofNat nBits
      nNonce := UInt32.ofNat nNonce
      nFlags := UInt32.ofNat nFlags }

/-- The header a stream of type `nType` carries from `h` into `into`: all of
`h`, with the flags of `into` when the stream does not carry `nFlags`. -/
def carried (nType : Nat) (into h : CBlockHeader) : CBlockHeader :=
  if writesFlags nType then h else { h with nFlags := into.nFlags }

/-- **Header round trip.**  Reading a header written to a stream of the same
type gives back what the stream carries, and stops where the header ends. -/
theorem unserialize_serialize (nType : Nat) (into h : CBlockHeader) (rest : List UInt8) :
    (unserialize nType into).run (h.serialize nType ++ rest) = .ok (carried nType into h, rest) := by
  have hv := readLE_four_toNat h.nVersion.toUInt32
  cases hw : writesFlags nType <;>
    simp [unserialize, unserializeFlags, serialize, carried, hw, StateT.run_bind, hv, readLE_four_toNat,
      uint256.unserialize_data, int32_ofNat_toNat]

end CBlockHeader

/-! ## Blocks -/

/-- `CBlock`. -/
structure CBlock extends CBlockHeader where
  vtx : List CTransaction
  /-- `vchBlockSig` (ppcoin). -/
  vchBlockSig : List UInt8
  /-- `fChecked`, the memory-only cache of `CheckBlock`. -/
  fChecked : Bool
deriving DecidableEq

namespace CBlock

/-- `CBlock(const CBlockHeader&)`: the header with no transactions. -/
def ofHeader (h : CBlockHeader) : CBlock :=
  { toCBlockHeader := h, vtx := [], vchBlockSig := [], fChecked := false }

/-- `IsProofOfStake()`: on Vericoin, a second transaction that is a coinstake. -/
def isProofOfStake (IsVericoin : Bool) (b : CBlock) : Bool :=
  if !IsVericoin then false
  else
    match b.vtx with
    | _ :: tx1 :: _ => tx1.isCoinStake
    | _ => false

/-- `IsProofOfWork()`. -/
def isProofOfWork (IsVericoin : Bool) (b : CBlock) : Bool := !b.isProofOfStake IsVericoin

/-- `GetBlockHeader()`. -/
def getBlockHeader (b : CBlock) : CBlockHeader := b.toCBlockHeader

/-- `GetHash()`, inherited from the header. -/
def getHash (H : Hashers) (IsVericoin : Bool) (b : CBlock) : uint256 :=
  b.toCBlockHeader.getHash H IsVericoin

/-- A byte vector: its length as a CompactSize, then the bytes. -/
def serializeBytes (v : List UInt8) : List UInt8 := writeCompactSize v.length ++ v

/-- `SerializationOp`: the header, `vtx`, and the signature on Vericoin;
`serTx` is the transaction encoding of the stream. -/
def serialize (IsVericoin : Bool) (serTx : CTransaction → List UInt8) (nType : Nat)
    (b : CBlock) : List UInt8 :=
  b.toCBlockHeader.serialize nType ++ (writeCompactSize b.vtx.length ++ b.vtx.flatMap serTx) ++
    (if IsVericoin then serializeBytes b.vchBlockSig else [])

end CBlock

/-! ## Transactions on the wire -/

/-- A `CTxIn` on the wire: the outpoint, `scriptSig` and `nSequence`. -/
def CTxIn.serialize (txin : CTxIn) : List UInt8 :=
  txin.prevout.hash.data ++ leBytes 4 txin.prevout.n.toNat ++ CBlock.serializeBytes txin.scriptSig ++
    leBytes 4 txin.nSequence.toNat

/-- A `CTxOut` on the wire: `nValue` as eight bytes, then `scriptPubKey`. -/
def CTxOut.serialize (txout : CTxOut) : List UInt8 :=
  leBytes 8 (txout.nValue % 2 ^ 64).toNat ++ CBlock.serializeBytes txout.scriptPubKey

/-- `SerializeTransaction(tx, s)` for a transaction without witness data:
version, time, inputs, outputs and lock time. -/
def CTransaction.serialize (tx : CTransaction) : List UInt8 :=
  leBytes 4 tx.nVersion.toUInt32.toNat ++ leBytes 4 tx.nTime.toNat ++
    (writeCompactSize tx.vin.length ++ tx.vin.flatMap CTxIn.serialize) ++
    (writeCompactSize tx.vout.length ++ tx.vout.flatMap CTxOut.serialize) ++
    leBytes 4 tx.nLockTime.toNat

end Veribase
