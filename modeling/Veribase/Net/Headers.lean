import Veribase.Chain.BlockIndex

/-!
# HEADERS messages

Headers-first synchronisation sends block headers in `HEADERS` messages.  The
`GETHEADERS` handler (`net_processing.cpp`) walks the active chain with
`Next` from the fork point, at most `MAX_HEADERS_RESULTS` blocks, and sends
them as a `std::vector<CBlock>`, each block holding one header and nothing
else: the comment there says a `CBlockHeader` would miss the `0x00` of the
empty transaction vector.  The bytes are those of `CBlock::SerializationOp`:
the header, with `nFlags` when the stream has `SER_POSMARKER`, the
transaction count `0`, and on a Vericoin build the empty block signature,
one more `0`.

The `HEADERS` handler does not deserialize `CBlock`s.  It reads each header
into a null `CBlockHeader` and then calls `ReadCompactSize` twice, for the
transaction count and for the signature, on both builds.

On Vericoin the two agree: every reply of the `GETHEADERS` loop reads back
as the headers it carries, and the reader stops where the message ends
(`readHeadersMessage_vericoin`).  On Verium (`IsVericoin = false`) the
sender writes one byte per header fewer than the receiver reads.  Every read
of an entry takes at least `headerSize + 2` bytes (`consumes_readHeaderEntry`)
and each entry on the wire has `headerSize + 1`, so a message with a header
in it always throws (`readHeadersMessage_verium`), and so does every reply of
the `GETHEADERS` loop (`headersMessage_verium_throws`).

The branch that ignores `HEADERS` while importing or reindexing reads
nothing and is left out.
-/

namespace Veribase

open ByteStream

/-- `POS_INFO_HEADERS_VERSION` (`version.h`). -/
def POS_INFO_HEADERS_VERSION : Int := 90000

/-- `MAX_HEADERS_RESULTS`. -/
def MAX_HEADERS_RESULTS : Nat := 2000

/-- The stream type `CNetMsgMaker::Make` writes with for the send version
`nVersion`; the receive stream of a peer of that version gets the same. -/
def serModes (nVersion : Int) : Nat :=
  if nVersion ≤ POS_INFO_HEADERS_VERSION then SER_NETWORK else SER_NETWORK ||| SER_POSMARKER

/-! ## Sending -/

/-- The loop of the `GETHEADERS` handler from `pindex`: push the header, and
stop when `--nLimit <= 0` or at `hashStop`, else go on with `Next`. -/
def getHeadersLoop (c : CChain) (m : BlockMap) (hashStop : uint256) :
    Nat → Option CBlockIndex → List CBlockHeader
  | _, none => []
  | nLimit + 2, some pindex =>
      pindex.getBlockHeader ::
        (if pindex.getBlockHash == hashStop then []
        else getHeadersLoop c m hashStop (nLimit + 1) (c.next m pindex))
  | _, some pindex => [pindex.getBlockHeader]

theorem length_getHeadersLoop_le (c : CChain) (m : BlockMap) (hashStop : uint256) :
    ∀ (nLimit : Nat) (pindex : Option CBlockIndex),
      (getHeadersLoop c m hashStop (nLimit + 1) pindex).length ≤ nLimit + 1
  | _, none => by simp [getHeadersLoop]
  | 0, some pindex => by simp [getHeadersLoop]
  | nLimit + 1, some pindex => by
      have ih := length_getHeadersLoop_le c m hashStop nLimit (c.next m pindex)
      rw [getHeadersLoop, List.length_cons]
      split
      · simp
      · omega

theorem getHeadersLoop_ne_nil (c : CChain) (m : BlockMap) (hashStop : uint256) (nLimit : Nat)
    (pindex : CBlockIndex) : getHeadersLoop c m hashStop nLimit (some pindex) ≠ [] := by
  unfold getHeadersLoop
  split <;> simp_all

/-- The payload of `msgMaker.Make(NetMsgType::HEADERS, vHeaders)`: the count,
then each header as a `CBlock` built from it. -/
def headersMessage (IsVericoin : Bool) (serTx : CTransaction → List UInt8) (nType : Nat)
    (vHeaders : List CBlockHeader) : List UInt8 :=
  writeCompactSize vHeaders.length ++
    vHeaders.flatMap fun h => (CBlock.ofHeader h).serialize IsVericoin serTx nType

/-! ## Receiving -/

/-- One pass of the `HEADERS` loop: `vRecv >> headers[n]` into a null header,
then `ReadCompactSize` for the transaction count and for `vchBlockSig`. -/
def readHeaderEntry (nType : Nat) : StreamReader CBlockHeader := do
  let header ← CBlockHeader.unserialize nType CBlockHeader.null
  let _ ← readCompactSize
  let _ ← readCompactSize
  pure header

/-- The `HEADERS` handler up to `ProcessHeadersMessage`: `none` for a count
over `MAX_HEADERS_RESULTS` (`Misbehaving`, return false), otherwise the
headers it passes on. -/
def readHeadersMessage (nType : Nat) : StreamReader (Option (List CBlockHeader)) := do
  let nCount ← readCompactSize
  if nCount > MAX_HEADERS_RESULTS then pure none
  else some <$> readN (readHeaderEntry nType) nCount

/-! ## Vericoin: the round trip -/

/-- A header as a `CBlock` on a Vericoin stream: the header, the empty
transaction vector and the empty signature. -/
theorem serialize_ofHeader_vericoin (serTx : CTransaction → List UInt8) (nType : Nat)
    (h : CBlockHeader) :
    (CBlock.ofHeader h).serialize true serTx nType = h.serialize nType ++ [0] ++ [0] := by
  simp [CBlock.serialize, CBlock.ofHeader, CBlock.serializeBytes, writeCompactSize]

theorem readCompactSize_zero (rest : List UInt8) :
    readCompactSize.run (0 :: rest) = .ok (0, rest) := by
  simpa [writeCompactSize] using
    readCompactSize_writeCompactSize (show 0 ≤ MAX_SIZE by simp [MAX_SIZE]) rest

theorem readHeaderEntry_vericoin (serTx : CTransaction → List UInt8) (nType : Nat)
    (h : CBlockHeader) (rest : List UInt8) :
    (readHeaderEntry nType).run ((CBlock.ofHeader h).serialize true serTx nType ++ rest) =
      .ok (CBlockHeader.carried nType CBlockHeader.null h, rest) := by
  rw [serialize_ofHeader_vericoin, List.append_assoc, List.append_assoc]
  simp [readHeaderEntry, StateT.run_bind, CBlockHeader.unserialize_serialize, readCompactSize_zero]

/-- **HEADERS round trip on Vericoin.**  A message of at most
`MAX_HEADERS_RESULTS` headers reads back as those headers, `nFlags` included
when the stream carries it, and the read ends where the message ends. -/
theorem readHeadersMessage_vericoin (serTx : CTransaction → List UInt8) (nType : Nat)
    (L : List CBlockHeader) (hL : L.length ≤ MAX_HEADERS_RESULTS) (rest : List UInt8) :
    (readHeadersMessage nType).run (headersMessage true serTx nType L ++ rest) =
      .ok (some (L.map (CBlockHeader.carried nType CBlockHeader.null)), rest) := by
  have hsize : L.length ≤ MAX_SIZE := by
    unfold MAX_HEADERS_RESULTS at hL
    unfold MAX_SIZE
    omega
  have hcount : ¬ L.length > MAX_HEADERS_RESULTS := by omega
  rw [headersMessage, List.append_assoc, readHeadersMessage, StateT.run_bind,
    readCompactSize_writeCompactSize hsize, except_ok_bind, if_neg hcount, StateT.run_map,
    readN_flatMap (readHeaderEntry_vericoin serTx nType) L rest]
  rfl

/-- Every reply of the `GETHEADERS` loop reads back on Vericoin. -/
theorem readHeadersMessage_getHeadersLoop (serTx : CTransaction → List UInt8) (nType : Nat)
    (c : CChain) (m : BlockMap) (hashStop : uint256) (pindex : Option CBlockIndex) :
    let L := getHeadersLoop c m hashStop MAX_HEADERS_RESULTS pindex
    (readHeadersMessage nType).run (headersMessage true serTx nType L) =
      .ok (some (L.map (CBlockHeader.carried nType CBlockHeader.null)), []) := by
  intro L
  simpa using readHeadersMessage_vericoin serTx nType L
    (length_getHeadersLoop_le c m hashStop 1999 pindex) []

/-! ## Verium: one byte short per header -/

/-- The bytes of a header on a stream of type `nType`. -/
def headerSize (nType : Nat) : Nat := 80 + if writesFlags nType then 4 else 0

theorem length_serialize_header (nType : Nat) (h : CBlockHeader) :
    (h.serialize nType).length = headerSize nType := by
  unfold CBlockHeader.serialize headerSize
  split <;> simp [uint256.length_data]

theorem consumes_uint256_unserialize : Consumes uint256.unserialize 32 :=
  ((consumes_readBytes EOD 32).bind fun _ =>
    Consumes.dite (fun _ => consumes_pure _) (fun _ => consumes_throw _)).mono (by omega)

theorem consumes_unserialize (nType : Nat) (into : CBlockHeader) :
    Consumes (CBlockHeader.unserialize nType into) (headerSize nType) := by
  have hflags : Consumes (CBlockHeader.unserializeFlags nType into)
      (if writesFlags nType then 4 else 0) := by
    unfold CBlockHeader.unserializeFlags
    split
    · exact consumes_readLE 4
    · exact consumes_pure _
  have h : Consumes (CBlockHeader.unserialize nType into)
      (4 + (32 + (32 + (4 + (4 + (4 + ((if writesFlags nType then 4 else 0) + 0))))))) :=
    (consumes_readLE 4).bind fun _ => consumes_uint256_unserialize.bind fun _ =>
      consumes_uint256_unserialize.bind fun _ => (consumes_readLE 4).bind fun _ =>
      (consumes_readLE 4).bind fun _ => (consumes_readLE 4).bind fun _ =>
      hflags.bind fun _ => consumes_pure _
  exact h.mono (by unfold headerSize; split <;> omega)

/-- Every read of an entry takes the header and two CompactSizes. -/
theorem consumes_readHeaderEntry (nType : Nat) :
    Consumes (readHeaderEntry nType) (headerSize nType + 2) :=
  ((consumes_unserialize nType _).bind fun _ => consumes_readCompactSize.bind fun _ =>
    consumes_readCompactSize.bind fun _ => consumes_pure _).mono (by omega)

/-- A header as a `CBlock` on a Verium stream: the header and the empty
transaction vector, with no signature. -/
theorem length_serialize_ofHeader_verium (serTx : CTransaction → List UInt8) (nType : Nat)
    (h : CBlockHeader) :
    ((CBlock.ofHeader h).serialize false serTx nType).length = headerSize nType + 1 := by
  simp [CBlock.serialize, CBlock.ofHeader, writeCompactSize, length_serialize_header]

/-- **HEADERS on Verium.**  The `HEADERS` handler throws on every message
with at least one header that a Verium node sends. -/
theorem readHeadersMessage_verium (serTx : CTransaction → List UInt8) (nType : Nat)
    (L : List CBlockHeader) (hne : L ≠ []) (hL : L.length ≤ MAX_HEADERS_RESULTS) :
    ∃ e, (readHeadersMessage nType).run (headersMessage false serTx nType L) = .error e := by
  have hsize : L.length ≤ MAX_SIZE := by
    unfold MAX_HEADERS_RESULTS at hL
    unfold MAX_SIZE
    omega
  have hcount : ¬ L.length > MAX_HEADERS_RESULTS := by omega
  -- the entries hold `headerSize + 1` bytes each, the reads need `headerSize + 2`
  have hbody : (L.flatMap fun h => (CBlock.ofHeader h).serialize false serTx nType).length =
      L.length * (headerSize nType + 1) := by
    exact length_flatMap_const (length_serialize_ofHeader_verium serTx nType) L
  have hshort : (L.flatMap fun h => (CBlock.ofHeader h).serialize false serTx nType).length <
      L.length * (headerSize nType + 2) := by
    have hpos : 0 < L.length := List.length_pos_iff.mpr hne
    rw [hbody]
    exact Nat.mul_lt_mul_of_pos_left (by omega) hpos
  obtain ⟨e, he⟩ := ((consumes_readHeaderEntry nType).readN L.length).throws_of_short hshort
  refine ⟨e, ?_⟩
  rw [headersMessage, readHeadersMessage, StateT.run_bind,
    readCompactSize_writeCompactSize hsize, except_ok_bind, if_neg hcount, StateT.run_map, he]
  rfl

/-- **No GETHEADERS reply of a Verium node parses.**  Whatever the chain and
the starting block, the reply of the `GETHEADERS` loop carries a header, and
the `HEADERS` handler of a Verium peer throws on it. -/
theorem headersMessage_verium_throws (serTx : CTransaction → List UInt8) (nType : Nat)
    (c : CChain) (m : BlockMap) (hashStop : uint256) (pindex : CBlockIndex) :
    ∃ e, (readHeadersMessage nType).run (headersMessage false serTx nType
      (getHeadersLoop c m hashStop MAX_HEADERS_RESULTS (some pindex))) = .error e :=
  readHeadersMessage_verium serTx nType _ (getHeadersLoop_ne_nil c m hashStop _ pindex)
    (length_getHeadersLoop_le c m hashStop 1999 (some pindex))

end Veribase
