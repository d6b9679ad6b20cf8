import Veribase.Primitives.Block

/-!
# Transactions on the wire, read back

`UnserializeTransaction` (`primitives/transaction.h`) reads what
`SerializeTransaction` writes.  The fork put `nTime` after `nVersion` and
turned the witness extension off: both functions fix `fAllowWitness` to
`false`, so the writer never emits the marker, the flags or the witness
stacks, and the reader takes a vector of inputs and a vector of outputs
whatever the first one holds, an empty `vin` included.

Vectors are a CompactSize count and the elements.  A byte vector (a script)
is read in blocks of at most five million bytes, which only bounds what a
bogus length can make the node allocate (`readByteBlocks_append`); a vector
of inputs or outputs is read element by element.

`unserializeTransaction_serialize` is the round trip: for every transaction
whose inputs carry no witness, whose vectors and scripts have at most
`MAX_SIZE` elements and whose amounts are `int64_t` values, the reader gives
back every field and stops where the transaction ends.
-/

namespace Veribase

open ByteStream

/-! ## Mutable transactions -/

/-- `CMutableTransaction`: the fields of a transaction, without the cached
hash. -/
structure CMutableTransaction where
  nVersion : Int32
  /-- `nTime` (ppcoin). -/
  nTime : UInt32
  vin : List CTxIn
  vout : List CTxOut
  nLockTime : UInt32
deriving DecidableEq

/-- The fields of a transaction. -/
def CTransaction.toMutable (tx : CTransaction) : CMutableTransaction :=
  ⟨tx.nVersion, tx.nTime, tx.vin, tx.vout, tx.nLockTime⟩

/-- `SerializeTransaction(tx, s)` on a `CMutableTransaction`, as on a
`CTransaction`: `fAllowWitness` is `false`, so no witness is written. -/
def CMutableTransaction.serialize (tx : CMutableTransaction) : List UInt8 :=
  leBytes 4 tx.nVersion.toUInt32.toNat ++ leBytes 4 tx.nTime.toNat ++
    (writeCompactSize tx.vin.length ++ tx.vin.flatMap CTxIn.serialize) ++
    (writeCompactSize tx.vout.length ++ tx.vout.flatMap CTxOut.serialize) ++
    leBytes 4 tx.nLockTime.toNat

/-! ## Vectors -/

/-- `Unserialize_impl` of a byte vector, from the `remaining` bytes on: the
loop reads `min(nSize - i, 1 + 4999999)` bytes at a time. -/
def readByteBlocks (remaining : Nat) : StreamReader (List UInt8) :=
  if remaining = 0 then pure []
  else do
    let blk := min remaining (1 + 4999999)
    let bs ← readBytes EOD blk
    let more ← readByteBlocks (remaining - blk)
    pure (bs ++ more)
termination_by remaining
decreasing_by omega

/-- A byte vector (`CScript`, a `prevector` of bytes): its CompactSize
length, then the bytes. -/
def readByteVector : StreamReader (List UInt8) := do
  let nSize ← readCompactSize
  readByteBlocks nSize

/-- `VectorFormatter::Unser`: a CompactSize count, then that many elements.
The batches of `MAX_VECTOR_ALLOCATE` only bound the allocation. -/
def readVector {α : Type} (r : StreamReader α) : StreamReader (List α) := do
  let size ← readCompactSize
  readN r size

/-- Reading in blocks takes exactly the bytes the vector holds. -/
theorem readByteBlocks_append (l rest : List UInt8) :
    (readByteBlocks l.length).run (l ++ rest) = .ok (l, rest) := by
  by_cases h0 : l.length = 0
  · rw [readByteBlocks, if_pos h0, List.length_eq_zero_iff.mp h0]
    rfl
  · -- one block, then the rest of the vector by the same loop
    rw [readByteBlocks, if_neg h0]
    have hsplit := List.take_append_drop (min l.length (1 + 4999999)) l
    have htake : (l.take (min l.length (1 + 4999999))).length = min l.length (1 + 4999999) := by
      rw [List.length_take]
      omega
    have hdrop : (l.drop (min l.length (1 + 4999999))).length = l.length - min l.length (1 + 4999999) := by
      rw [List.length_drop]
    have hmore := readByteBlocks_append (l.drop (min l.length (1 + 4999999))) rest
    rw [hdrop] at hmore
    have hstream : l ++ rest =
        l.take (min l.length (1 + 4999999)) ++ (l.drop (min l.length (1 + 4999999)) ++ rest) := by
      rw [← List.append_assoc, hsplit]
    rw [hstream, StateT.run_bind, readBytes_append EOD _ htake, except_ok_bind, StateT.run_bind, hmore,
      except_ok_bind, hsplit]
    rfl
termination_by l.length
decreasing_by
  rw [List.length_drop]
  omega

/-- **Byte vector round trip**, up to `MAX_SIZE` bytes. -/
theorem readByteVector_serializeBytes {v : List UInt8} (h : v.length ≤ MAX_SIZE) (rest : List UInt8) :
    readByteVector.run (CBlock.serializeBytes v ++ rest) = .ok (v, rest) := by
  rw [readByteVector, CBlock.serializeBytes, List.append_assoc, StateT.run_bind,
    readCompactSize_writeCompactSize h, except_ok_bind, readByteBlocks_append]

/-- **Vector round trip**: a count up to `MAX_SIZE` and elements that each
read back. -/
theorem readVector_flatMap {α β : Type} {r : StreamReader α} {enc : β → List UInt8} {f : β → α}
    {L : List β} (hlen : L.length ≤ MAX_SIZE)
    (hr : ∀ b ∈ L, ∀ rest, r.run (enc b ++ rest) = .ok (f b, rest)) (rest : List UInt8) :
    (readVector r).run ((writeCompactSize L.length ++ L.flatMap enc) ++ rest) = .ok (L.map f, rest) := by
  rw [readVector, List.append_assoc, StateT.run_bind, readCompactSize_writeCompactSize hlen,
    except_ok_bind, readN_flatMap_of_mem L hr rest]

/-! ## Inputs and outputs -/

/-- `CTxIn::SerializationOp` reading: `prevout`, `scriptSig`, `nSequence`;
the witness stays empty, as only the transaction reads it. -/
def CTxIn.unserialize : StreamReader CTxIn := do
  let hash ← uint256.unserialize
  let n ← readLE 4
  let scriptSig ← readByteVector
  let nSequence ← readLE 4
  pure ⟨⟨hash, UInt32.ofNat n⟩, scriptSig, UInt32.ofNat nSequence, []⟩

/-- An `int64_t` from its eight little-endian bytes, in two's complement. -/
def int64OfLE (u : Nat) : Int := if u < 2 ^ 63 then u else (u : Int) - 2 ^ 64

/-- `CTxOut::SerializationOp` reading: `nValue`, then `scriptPubKey`. -/
def CTxOut.unserialize : StreamReader CTxOut := do
  let nValue ← readLE 8
  let scriptPubKey ← readByteVector
  pure ⟨int64OfLE nValue, scriptPubKey⟩

/-- An `int64_t` read back from the eight bytes it is written as. -/
theorem int64OfLE_toNat {x : Int} (hx : int64Range x) : int64OfLE ((x % 2 ^ 64).toNat % 256 ^ 8) = x := by
  obtain ⟨hlo, hhi⟩ := hx
  unfold int64OfLE
  by_cases hneg : x < 0
  · have hmod : x % 2 ^ 64 = x + 2 ^ 64 := by omega
    have hlt : ¬ (x % 2 ^ 64).toNat % 256 ^ 8 < 2 ^ 63 := by omega
    rw [if_neg hlt]
    omega
  · have hlt : (x % 2 ^ 64).toNat % 256 ^ 8 < 2 ^ 63 := by omega
    rw [if_pos hlt]
    omega

theorem CTxIn.unserialize_serialize {txin : CTxIn} (hwit : txin.scriptWitness = [])
    (hsig : txin.scriptSig.length ≤ MAX_SIZE) (rest : List UInt8) :
    CTxIn.unserialize.run (txin.serialize ++ rest) = .ok (txin, rest) := by
  obtain ⟨⟨hash, n⟩, scriptSig, nSequence, witness⟩ := txin
  subst hwit
  simp only [CTxIn.serialize, List.append_assoc]
  simp [CTxIn.unserialize, StateT.run_bind, uint256.unserialize_data, readLE_four_toNat,
    readByteVector_serializeBytes hsig]

theorem CTxOut.unserialize_serialize {txout : CTxOut} (hvalue : int64Range txout.nValue)
    (hpk : txout.scriptPubKey.length ≤ MAX_SIZE) (rest : List UInt8) :
    CTxOut.unserialize.run (txout.serialize ++ rest) = .ok (txout, rest) := by
  obtain ⟨nValue, scriptPubKey⟩ := txout
  simp only [CTxOut.serialize, List.append_assoc]
  rw [CTxOut.unserialize, StateT.run_bind, readLE_leBytes, except_ok_bind, StateT.run_bind,
    readByteVector_serializeBytes hpk, except_ok_bind, int64OfLE_toNat hvalue]
  rfl

/-! ## Transactions -/

/-- `fAllowWitness`: the fork reads and writes no witness extension. -/
def fAllowWitness : Bool := false

/-- `CTxIn::scriptWitness.stack`, read for each input when the flags ask. -/
def readWitnesses : List CTxIn → StreamReader (List CTxIn)
  | [] => pure []
  | txin :: rest => do
      let stack ← readVector readByteVector
      let rest ← readWitnesses rest
      pure ({ txin with scriptWitness := stack } :: rest)

/-- The part of `UnserializeTransaction` after `vin`: with the extension, an
empty `vin` is the dummy and is followed by the flags; without it, `vout`
follows. -/
def readAfterVin (vin : List CTxIn) : StreamReader (UInt8 × List CTxIn × List CTxOut) :=
  if vin.isEmpty && fAllowWitness then do
    let flags ← readLE 1
    if flags != 0 then do
      let vin ← readVector CTxIn.unserialize
      let vout ← readVector CTxOut.unserialize
      pure (UInt8.ofNat flags, vin, vout)
    else pure (UInt8.ofNat flags, vin, [])
  else do
    let vout ← readVector CTxOut.unserialize
    pure (0, vin, vout)

/-- The witness part: read the stacks when flag `1` is set and the extension
is allowed, and refuse witnesses that are all empty. -/
def readWitnessFlag (flags : UInt8) (vin : List CTxIn) : StreamReader (UInt8 × List CTxIn) :=
  if flags &&& 1 != 0 && fAllowWitness then do
    let vin ← readWitnesses vin
    if vin.all (·.scriptWitness.isEmpty) then throw "Superfluous witness record"
    else pure (flags ^^^ 1, vin)
  else pure (flags, vin)

/-- `UnserializeTransaction(tx, s)`. -/
def unserializeTransaction : StreamReader CMutableTransaction := do
  let nVersion ← readLE 4
  let nTime ← readLE 4
  let vin ← readVector CTxIn.unserialize
  let (flags, vin, vout) ← readAfterVin vin
  let (flags, vin) ← readWitnessFlag flags vin
  if flags != 0 then throw "Unknown transaction optional data"
  let nLockTime ← readLE 4
  pure ⟨(UInt32.ofNat nVersion).toInt32, UInt32.ofNat nTime, vin, vout, UInt32.ofNat nLockTime⟩

/-- Without the extension the reader takes `vout` right after `vin`. -/
theorem readAfterVin_eq (vin : List CTxIn) :
    readAfterVin vin = (fun vout => ((0 : UInt8), vin, vout)) <$> readVector CTxOut.unserialize := by
  simp [readAfterVin, fAllowWitness]

theorem readWitnessFlag_eq (flags : UInt8) (vin : List CTxIn) :
    readWitnessFlag flags vin = pure (flags, vin) := by
  simp [readWitnessFlag, fAllowWitness]

theorem CMutableTransaction.unserialize_serialize (tx : CMutableTransaction)
    (hwit : ∀ txin ∈ tx.vin, txin.scriptWitness = [])
    (hvin : tx.vin.length ≤ MAX_SIZE) (hvout : tx.vout.length ≤ MAX_SIZE)
    (hsig : ∀ txin ∈ tx.vin, txin.scriptSig.length ≤ MAX_SIZE)
    (hpk : ∀ txout ∈ tx.vout, txout.scriptPubKey.length ≤ MAX_SIZE)
    (hvalue : ∀ txout ∈ tx.vout, int64Range txout.nValue) (rest : List UInt8) :
    unserializeTransaction.run (tx.serialize ++ rest) = .ok (tx, rest) := by
  obtain ⟨nVersion, nTime, vin, vout, nLockTime⟩ := tx
  have hins := readVector_flatMap (r := CTxIn.unserialize) (f := id) hvin
    (fun txin h rest => CTxIn.unserialize_serialize (hwit txin h) (hsig txin h) rest)
  have houts := readVector_flatMap (r := CTxOut.unserialize) (f := id) hvout
    (fun txout h rest => CTxOut.unserialize_serialize (hvalue txout h) (hpk txout h) rest)
  simp only [List.map_id] at hins houts
  simp only [CMutableTransaction.serialize, List.append_assoc] at hins houts ⊢
  simp [unserializeTransaction, StateT.run_bind, readLE_four_toNat, int32_ofNat_toNat, hins,
    readAfterVin_eq, StateT.run_map, houts, readWitnessFlag_eq]

/-- **Transaction round trip.**  A transaction whose inputs carry no witness,
whose vectors and scripts have at most `MAX_SIZE` elements and whose amounts
are `int64_t` values is read back whole from its serialization, and the read
stops where it ends.  An empty `vin` is read as empty, with its outputs. -/
theorem unserializeTransaction_serialize (tx : CMutableTransaction)
    (hwit : ∀ txin ∈ tx.vin, txin.scriptWitness = [])
    (hvin : tx.vin.length ≤ MAX_SIZE) (hvout : tx.vout.length ≤ MAX_SIZE)
    (hsig : ∀ txin ∈ tx.vin, txin.scriptSig.length ≤ MAX_SIZE)
    (hpk : ∀ txout ∈ tx.vout, txout.scriptPubKey.length ≤ MAX_SIZE)
    (hvalue : ∀ txout ∈ tx.vout, int64Range txout.nValue) (rest : List UInt8) :
    unserializeTransaction.run (tx.serialize ++ rest) = .ok (tx, rest) :=
  tx.unserialize_serialize hwit hvin hvout hsig hpk hvalue rest

/-- A transaction with no input and one output reads back with its output. -/
theorem unserializeTransaction_empty_vin :
    unserializeTransaction.run ((⟨1, 0, [], [⟨5, [0x51]⟩], 0⟩ : CMutableTransaction).serialize ++ []) =
      .ok (⟨1, 0, [], [⟨5, [0x51]⟩], 0⟩, []) :=
  unserializeTransaction_serialize _ (by simp) (by decide) (by decide) (by simp)
    (by simp [MAX_SIZE]) (by simp [int64Range]) []

end Veribase
