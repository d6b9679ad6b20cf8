import Veribase.Consensus.Merkle
import Veribase.Lib.Fault
import Veribase.Serialize.Transaction
import Veribase.Validation.CheckBlock

/-!
# Partial merkle trees

`CPartialMerkleTree` (`merkleblock.cpp`) proves that some transactions are
in a block without sending the others.  The builder walks the merkle tree of
the block's txids depth first.  At each node it records one flag bit, set
when a matched txid is below, and it stops at a leaf or at a node with no
match, recording that node's hash.  The extractor walks the same tree,
reading the bits and hashes back.  It recomputes the root and collects the
matched txids with their positions.  On the wire the bits are packed into
bytes, low bit first, so the reader gets them back padded to a multiple of
eight.

The node at height `h` and position `pos` is `merkleNode`, the hash
`CalcHash` computes.  It is the `pos`-th digest of the `h`-th level of
`ComputeMerkleRoot`, and the single node at the top is that function's root.
The builder's output is described by `pmtBits` and `pmtHashes`, which
follow the recursion without its accumulators and faults.  The extractor
reads back what the builder wrote, node by node: one lemma per subtree,
proved by induction on the height.

The extractor sets `fBad` when the two children of a node have the same
hash.  The txids are pairwise distinct, so with an injective compression
two nodes of one level never have the same hash.  That is where injectivity
enters, as in `Consensus.Merkle`.  The digests are a type `δ`, with its own
serialization, for no function from pairs of `uint256` to `uint256` is
injective.

`vnIndex` is not cleared by `ExtractMatches`; the round trip starts it
empty.
-/

namespace Veribase

open ByteStream

/-- `MIN_TRANSACTION_WEIGHT` (`consensus/consensus.h`). -/
def MIN_TRANSACTION_WEIGHT : Nat := WITNESS_SCALE_FACTOR * 60

/-- `CPartialMerkleTree`, over digests `δ`. -/
structure CPartialMerkleTree (δ : Type) where
  nTransactions : Nat
  /-- `vBits`: one flag per node visited. -/
  vBits : List Bool
  /-- `vHash`: the txids and inner hashes where the walk stopped. -/
  vHash : List δ
  fBad : Bool

namespace CPartialMerkleTree

/-! ## The shape of the tree -/

/-- `CalcTreeWidth(height)`: the number of nodes at a height. -/
def calcTreeWidth (nTransactions height : Nat) : Nat :=
  (nTransactions + (1 <<< height) - 1) >>> height

theorem calcTreeWidth_eq (nTransactions height : Nat) :
    calcTreeWidth nTransactions height = (nTransactions + 2 ^ height - 1) / 2 ^ height := by
  rw [calcTreeWidth, Nat.shiftLeft_eq, Nat.one_mul, Nat.shiftRight_eq_div_pow]

/-- A node exists at `pos` exactly when its first leaf does. -/
theorem lt_calcTreeWidth_iff {nTransactions height pos : Nat} :
    pos < calcTreeWidth nTransactions height ↔ pos * 2 ^ height < nTransactions := by
  rw [calcTreeWidth_eq, Nat.lt_iff_add_one_le, Nat.le_div_iff_mul_le (Nat.two_pow_pos height),
    Nat.succ_mul]
  have := Nat.two_pow_pos height
  omega

theorem calcTreeWidth_zero (nTransactions : Nat) : calcTreeWidth nTransactions 0 = nTransactions := by
  simp [calcTreeWidth]

/-- One level up, the width is halved and rounded up. -/
theorem calcTreeWidth_succ (nTransactions height : Nat) :
    calcTreeWidth nTransactions (height + 1) = (calcTreeWidth nTransactions height + 1) / 2 := by
  rw [calcTreeWidth_eq, calcTreeWidth_eq]
  have hpos := Nat.two_pow_pos height
  have hsum : nTransactions + 2 ^ height - 1 + 2 ^ height = nTransactions + 2 ^ (height + 1) - 1 := by
    rw [Nat.pow_succ]
    omega
  rw [← Nat.add_div_right _ hpos, hsum, Nat.div_div_eq_div_mul, ← Nat.pow_succ]

/-- A width above one needs a height below the number of transactions. -/
theorem lt_of_one_lt_calcTreeWidth {nTransactions height : Nat}
    (h : 1 < calcTreeWidth nTransactions height) : height < nTransactions := by
  have h2 : 1 * 2 ^ height < nTransactions := lt_calcTreeWidth_iff.mp h
  have hpow : height < 2 ^ height := Nat.lt_two_pow_self
  omega

theorem calcTreeWidth_le_one_iff {nTransactions height : Nat} :
    calcTreeWidth nTransactions height ≤ 1 ↔ nTransactions ≤ 2 ^ height := by
  have h : ¬1 < calcTreeWidth nTransactions height ↔ ¬1 * 2 ^ height < nTransactions :=
    lt_calcTreeWidth_iff.not
  rw [Nat.one_mul] at h
  omega

/-- The `while (CalcTreeWidth(nHeight) > 1) nHeight++` loop, from `height`,
for at most `fuel` rounds. -/
def treeHeightFrom (nTransactions : Nat) : Nat → Nat → Nat
  | 0, height => height
  | fuel + 1, height =>
      if calcTreeWidth nTransactions height > 1 then treeHeightFrom nTransactions fuel (height + 1)
      else height

/-- The height of the tree: the loop from height zero, which stops within
`nTransactions` rounds (`lt_of_one_lt_calcTreeWidth`). -/
def treeHeight (nTransactions : Nat) : Nat := treeHeightFrom nTransactions nTransactions 0

/-- With enough fuel the loop ends at a width of at most one. -/
theorem calcTreeWidth_treeHeightFrom_le_one {nTransactions : Nat} :
    ∀ fuel height, nTransactions ≤ fuel + height →
      calcTreeWidth nTransactions (treeHeightFrom nTransactions fuel height) ≤ 1
  | 0, height, hfuel => by
      rw [treeHeightFrom]
      by_contra hw
      have := lt_of_one_lt_calcTreeWidth (Nat.lt_of_not_le hw)
      omega
  | fuel + 1, height, hfuel => by
      rw [treeHeightFrom]
      split
      · exact calcTreeWidth_treeHeightFrom_le_one fuel (height + 1) (by omega)
      · omega

/-- The loop stops at the first height of width at most one. -/
theorem treeHeightFrom_le {nTransactions k : Nat} (hk : calcTreeWidth nTransactions k ≤ 1) :
    ∀ fuel height, height ≤ k → treeHeightFrom nTransactions fuel height ≤ k
  | 0, height, hle => hle
  | fuel + 1, height, hle => by
      rw [treeHeightFrom]
      split
      · -- the loop goes on, so `height` is not yet `k`
        have hne : height ≠ k := by
          rintro rfl
          omega
        exact treeHeightFrom_le hk fuel (height + 1) (by omega)
      · exact hle

theorem calcTreeWidth_treeHeight_le_one (nTransactions : Nat) :
    calcTreeWidth nTransactions (treeHeight nTransactions) ≤ 1 :=
  calcTreeWidth_treeHeightFrom_le_one nTransactions 0 (by omega)

/-- The tree of at most `2 ^ k` transactions is at most `k` high. -/
theorem treeHeight_le {nTransactions k : Nat} (h : nTransactions ≤ 2 ^ k) : treeHeight nTransactions ≤ k :=
  treeHeightFrom_le (calcTreeWidth_le_one_iff.mpr h) nTransactions 0 (Nat.zero_le k)

section Build

variable {δ : Type} (hash64 : δ → δ → δ)

/-- `CalcHash(height, pos, vTxid)`, with the `nTransactions` of the object
under construction. -/
def calcHash (nTransactions : Nat) (vTxid : List δ) : Nat → Nat → Faulty δ
  | 0, pos => do
      Fault.check (vTxid.length != 0)
      -- the hash at height 0 is the txid itself
      Fault.index vTxid pos
  | height + 1, pos => do
      Fault.check (vTxid.length != 0)
      let left ← calcHash nTransactions vTxid height (pos * 2)
      -- a missing right child is a copy of the left
      let right ← if pos * 2 + 1 < calcTreeWidth nTransactions height then
          calcHash nTransactions vTxid height (pos * 2 + 1)
        else pure left
      pure (hash64 left right)

/-- The loop of `TraverseAndBuild` that ORs the match flags of the
transactions below a node. -/
def parentOfMatch (nTransactions : Nat) (vMatch : List Bool) (height pos : Nat) : Faulty Bool :=
  (List.range' (pos <<< height) (min ((pos + 1) <<< height) nTransactions - (pos <<< height))).foldlM
    (fun fParentOfMatch p => do
      let m ← Fault.index vMatch p
      pure (fParentOfMatch || m))
    false

/-- `TraverseAndBuild(height, pos, vTxid, vMatch)`, appending to `vBits` and
`vHash`: a flag for the node, then the node's hash at a leaf or above no
match, else both subtrees. -/
def traverseAndBuild (nTransactions : Nat) (vTxid : List δ) (vMatch : List Bool) :
    Nat → Nat → List Bool × List δ → Faulty (List Bool × List δ)
  | 0, pos, (vBits, vHash) => do
      let fParentOfMatch ← parentOfMatch nTransactions vMatch 0 pos
      let hash ← calcHash hash64 nTransactions vTxid 0 pos
      pure (vBits ++ [fParentOfMatch], vHash ++ [hash])
  | height + 1, pos, (vBits, vHash) => do
      let fParentOfMatch ← parentOfMatch nTransactions vMatch (height + 1) pos
      if fParentOfMatch then
        let st ← traverseAndBuild nTransactions vTxid vMatch height (pos * 2)
          (vBits ++ [fParentOfMatch], vHash)
        if pos * 2 + 1 < calcTreeWidth nTransactions height then
          traverseAndBuild nTransactions vTxid vMatch height (pos * 2 + 1) st
        else pure st
      else do
        -- nothing interesting below: store the hash and stop
        let hash ← calcHash hash64 nTransactions vTxid (height + 1) pos
        pure (vBits ++ [fParentOfMatch], vHash ++ [hash])

/-- `CPartialMerkleTree(vTxid, vMatch)`. -/
def ofTxids (vTxid : List δ) (vMatch : List Bool) : Faulty (CPartialMerkleTree δ) := do
  let nTransactions := vTxid.length
  let (vBits, vHash) ← traverseAndBuild hash64 nTransactions vTxid vMatch (treeHeight nTransactions) 0
    ([], [])
  pure ⟨nTransactions, vBits, vHash, false⟩

end Build

/-! ## Extraction -/

/-- The cursors and outputs of `TraverseAndExtract`, with the object's
`fBad`. -/
structure ExtractState (δ : Type) where
  nBitsUsed : Nat
  nHashUsed : Nat
  vMatch : List δ
  vnIndex : List Nat
  fBad : Bool

section Extract

variable {δ : Type} [DecidableEq δ] (null : δ) (hash64 : δ → δ → δ)

/-- `TraverseAndExtract(height, pos, nBitsUsed, nHashUsed, vMatch, vnIndex)`:
the node's hash, and the cursors and outputs after its subtree.  A read past
either array sets `fBad` and returns `uint256()`, and the walk goes on. -/
def traverseAndExtract (t : CPartialMerkleTree δ) : Nat → Nat → ExtractState δ → δ × ExtractState δ
  | height, pos, s =>
      if s.nBitsUsed ≥ t.vBits.length then (null, { s with fBad := true })
      else
        let fParentOfMatch := t.vBits.getD s.nBitsUsed false
        let s := { s with nBitsUsed := s.nBitsUsed + 1 }
        match height, fParentOfMatch with
        | h + 1, true =>
            let (left, s) := traverseAndExtract t h (pos * 2) s
            if pos * 2 + 1 < calcTreeWidth t.nTransactions h then
              let (right, s) := traverseAndExtract t h (pos * 2 + 1) s
              -- the two branches cover different transactions, so their hashes differ
              (hash64 left right, if right == left then { s with fBad := true } else s)
            else (hash64 left left, s)
        | _, _ =>
            -- at a leaf, or nothing interesting below: use the stored hash
            if s.nHashUsed ≥ t.vHash.length then (null, { s with fBad := true })
            else
              let hash := t.vHash.getD s.nHashUsed null
              let s := { s with nHashUsed := s.nHashUsed + 1 }
              (hash, if height == 0 && fParentOfMatch then
                  { s with vMatch := s.vMatch ++ [hash], vnIndex := s.vnIndex ++ [pos] }
                else s)

/-- `ExtractMatches(vMatch, vnIndex)`: the root, or `uint256()` when a check
fails, with the matched txids and their positions appended to `vnIndex`. -/
def extractMatches (t : CPartialMerkleTree δ) (vnIndex : List Nat) : δ × List δ × List Nat :=
  if t.nTransactions = 0 then (null, [], vnIndex)
  -- check for excessively high numbers of transactions
  else if t.nTransactions > MAX_BLOCK_WEIGHT / MIN_TRANSACTION_WEIGHT then (null, [], vnIndex)
  -- there can never be more hashes provided than one for every txid
  else if t.vHash.length > t.nTransactions then (null, [], vnIndex)
  -- there must be at least one bit per node in the partial tree
  else if t.vBits.length < t.vHash.length then (null, [], vnIndex)
  else
    let (hashMerkleRoot, s) := traverseAndExtract null hash64 t (treeHeight t.nTransactions) 0
      ⟨0, 0, [], vnIndex, t.fBad⟩
    if s.fBad then (null, s.vMatch, s.vnIndex)
    -- all bits consumed, up to the padding of the byte encoding
    else if (s.nBitsUsed + 7) / 8 ≠ (t.vBits.length + 7) / 8 then (null, s.vMatch, s.vnIndex)
    else if s.nHashUsed ≠ t.vHash.length then (null, s.vMatch, s.vnIndex)
    else (hashMerkleRoot, s.vMatch, s.vnIndex)

end Extract

/-! ## Serialization -/

/-- The flag bytes of `SerializationOp` when writing: `vBytes[p / 8] |=
vBits[p] << (p % 8)` over zeroed bytes. -/
def packBits (vBits : List Bool) : List UInt8 :=
  (List.range vBits.length).foldl
    (fun vBytes p =>
      vBytes.modify (p / 8) (· ||| ((if vBits.getD p false then 1 else 0) <<< (p % 8).toUInt8)))
    (List.replicate ((vBits.length + 7) / 8) 0)

/-- The flags of `SerializationOp` when reading: eight per byte, `vBits[p] =
(vBytes[p / 8] & (1 << (p % 8))) != 0`. -/
def unpackBits (vBytes : List UInt8) : List Bool :=
  (List.range (vBytes.length * 8)).map fun p =>
    (vBytes.getD (p / 8) 0 &&& ((1 : UInt8) <<< (p % 8).toUInt8)) != 0

/-- `SerializationOp` writing: `nTransactions` in four bytes, `vHash`, and
the flag bytes. -/
def serialize {δ : Type} (serDigest : δ → List UInt8) (t : CPartialMerkleTree δ) : List UInt8 :=
  leBytes 4 t.nTransactions ++ (writeCompactSize t.vHash.length ++ t.vHash.flatMap serDigest) ++
    CBlock.serializeBytes (packBits t.vBits)

/-- `SerializationOp` reading into an object: every field is overwritten and
`fBad` cleared. -/
def unserialize {δ : Type} (readDigest : StreamReader δ) : StreamReader (CPartialMerkleTree δ) := do
  let nTransactions ← readLE 4
  let vHash ← readVector readDigest
  let vBytes ← readByteVector
  pure ⟨nTransactions, unpackBits vBytes, vHash, false⟩

/-! ## The flag bytes

Bit `p` of the flags is bit `p % 8` of byte `p / 8`: the writer sets it, the
reader tests it, and the bits past the flags read back as zero. -/

/-- The single-bit mask `1 << r` of a byte. -/
theorem toNat_one_shiftLeft {r : Nat} (hr : r < 8) : ((1 : UInt8) <<< r.toUInt8).toNat = 2 ^ r := by
  interval_cases r <;> rfl

/-- The byte the writer ORs in sets bit `p % 8` alone, and only for a set
flag. -/
theorem testBit_flag (b : Bool) (p j : Nat) :
    ((if b then (1 : UInt8) else 0) <<< (p % 8).toUInt8).toNat.testBit j = (b && decide (p % 8 = j)) := by
  cases b
  · simp
  · rw [if_pos rfl, toNat_one_shiftLeft (Nat.mod_lt p (by omega)), Nat.testBit_two_pow, Bool.true_and]

/-- The reader's test of bit `r` of a byte. -/
theorem and_one_shiftLeft_ne_zero (x : UInt8) {r : Nat} (hr : r < 8) :
    (x &&& ((1 : UInt8) <<< r.toUInt8) != 0) = x.toNat.testBit r := by
  have hval : (x &&& ((1 : UInt8) <<< r.toUInt8)).toNat = (x.toNat.testBit r).toNat * 2 ^ r := by
    rw [UInt8.toNat_and, toNat_one_shiftLeft hr, Nat.and_two_pow]
  cases hb : x.toNat.testBit r
  · rw [hb, Bool.toNat_false, Nat.zero_mul] at hval
    have : x &&& ((1 : UInt8) <<< r.toUInt8) = 0 := UInt8.toNat_inj.mp hval
    simp [this]
  · rw [hb, Bool.toNat_true, Nat.one_mul] at hval
    simp only [bne_iff_ne, ne_eq]
    intro hzero
    rw [hzero] at hval
    exact absurd hval.symm (Nat.two_pow_pos r).ne'

theorem getD_modify_of_lt {l : List UInt8} {n i : Nat} (f : UInt8 → UInt8) (hi : i < l.length) :
    (l.modify n f).getD i 0 = if n = i then f (l.getD i 0) else l.getD i 0 := by
  simp only [List.getD_eq_getElem?_getD, List.getElem?_modify, List.getElem?_eq_getElem hi]
  split <;> rfl

/-- The writer's loop after its first `k` flags, over `nBytes` zeroed bytes:
bit `j` of byte `i` is flag `i * 8 + j` when that flag has been written. -/
theorem packBits_loop (vBits : List Bool) (nBytes : Nat) :
    ∀ k, k ≤ nBytes * 8 →
      let vBytes := (List.range k).foldl
        (fun vBytes p =>
          vBytes.modify (p / 8) (· ||| ((if vBits.getD p false then 1 else 0) <<< (p % 8).toUInt8)))
        (List.replicate nBytes 0)
      vBytes.length = nBytes ∧ ∀ i < nBytes, ∀ j,
        (vBytes.getD i 0).toNat.testBit j = (decide (j < 8) && decide (i * 8 + j < k) && vBits.getD (i * 8 + j) false)
  | 0, _ => by simp
  | k + 1, hk => by
      obtain ⟨hlen, hbits⟩ := packBits_loop vBits nBytes k (by omega)
      intro vBytes
      have hstep : vBytes = ((List.range k).foldl
          (fun vBytes p =>
            vBytes.modify (p / 8) (· ||| ((if vBits.getD p false then 1 else 0) <<< (p % 8).toUInt8)))
          (List.replicate nBytes 0)).modify (k / 8)
          (· ||| ((if vBits.getD k false then 1 else 0) <<< (k % 8).toUInt8)) := by
        simp only [vBytes, List.range_succ, List.foldl_append, List.foldl_cons, List.foldl_nil]
      rw [hstep, List.length_modify]
      refine ⟨hlen, fun i hi j => ?_⟩
      rw [getD_modify_of_lt _ (by omega)]
      split
      · -- the byte of flag `k`: its bit `k % 8` is set now
        rename_i hbyte
        rw [UInt8.toNat_or, Nat.testBit_or, hbits i hi j, testBit_flag]
        by_cases hj : k % 8 = j
        · have hk' : i * 8 + j = k := by omega
          simp [hj, hk', show j < 8 by omega]
        · have hlt : i * 8 + j < k + 1 ↔ i * 8 + j < k := by omega
          simp [hj, hlt]
      · -- another byte: flag `k` is not in it
        rename_i hbyte
        rw [hbits i hi j]
        by_cases hj : j < 8
        · have hlt : i * 8 + j < k + 1 ↔ i * 8 + j < k := by omega
          simp [hlt]
        · simp [hj]

theorem length_packBits (vBits : List Bool) : (packBits vBits).length = (vBits.length + 7) / 8 :=
  (packBits_loop vBits ((vBits.length + 7) / 8) vBits.length (by omega)).1

/-- Bit `j` of byte `i` of the flag bytes is flag `i * 8 + j`. -/
theorem testBit_getD_packBits (vBits : List Bool) {i : Nat} (hi : i < (vBits.length + 7) / 8) (j : Nat) :
    ((packBits vBits).getD i 0).toNat.testBit j = (decide (j < 8) && vBits.getD (i * 8 + j) false) := by
  rw [packBits, (packBits_loop vBits ((vBits.length + 7) / 8) vBits.length (by omega)).2 i hi j]
  by_cases hlt : i * 8 + j < vBits.length
  · simp [hlt]
  · simp [hlt]

/-- **The flags read back**, padded with clear flags to a whole byte. -/
theorem unpackBits_packBits (vBits : List Bool) :
    unpackBits (packBits vBits) = vBits ++ List.replicate ((vBits.length + 7) / 8 * 8 - vBits.length) false := by
  apply List.ext_getElem
  · simp only [unpackBits, List.length_map, List.length_range, length_packBits, List.length_append,
      List.length_replicate]
    omega
  · intro p h1 h2
    have hp : p / 8 < (vBits.length + 7) / 8 := by
      simp only [unpackBits, List.length_map, List.length_range, length_packBits] at h1
      omega
    simp only [unpackBits, List.getElem_map, List.getElem_range]
    rw [and_one_shiftLeft_ne_zero _ (Nat.mod_lt p (by omega)), testBit_getD_packBits vBits hp,
      Nat.div_add_mod', decide_eq_true (Nat.mod_lt p (by omega)), Bool.true_and, List.getElem_append]
    split
    · rw [List.getD_eq_getElem]
    · rw [List.getElem_replicate, List.getD_eq_default _ _ (by omega)]

/-- **Serialization round trip**: a written tree reads back with its count
and hashes, its flags padded to whole bytes, and `fBad` clear. -/
theorem unserialize_serialize {δ : Type} {readDigest : StreamReader δ} {serDigest : δ → List UInt8}
    (hread : ∀ d rest, readDigest.run (serDigest d ++ rest) = .ok (d, rest))
    (t : CPartialMerkleTree δ) (hn : t.nTransactions < 256 ^ 4) (hHash : t.vHash.length ≤ MAX_SIZE)
    (hBits : (t.vBits.length + 7) / 8 ≤ MAX_SIZE) (rest : List UInt8) :
    (unserialize readDigest).run (t.serialize serDigest ++ rest) =
      .ok (⟨t.nTransactions, unpackBits (packBits t.vBits), t.vHash, false⟩, rest) := by
  obtain ⟨nTransactions, vBits, vHash, fBad⟩ := t
  have hhashes := @readVector_flatMap δ δ readDigest serDigest id vHash hHash (fun d _ rest => hread d rest)
  rw [List.map_id] at hhashes
  simp only [serialize, List.append_assoc] at hn hHash hBits ⊢
  rw [unserialize, StateT.run_bind, readLE_leBytes, Nat.mod_eq_of_lt hn, except_ok_bind, StateT.run_bind,
    ← List.append_assoc, hhashes, except_ok_bind, StateT.run_bind,
    readByteVector_serializeBytes (by rw [length_packBits]; exact hBits), except_ok_bind]
  rfl

/-! ## The honest tree

What the builder computes, without its accumulators and faults: the leaves
below a node, the hash of a node, and the flags and hashes written for a
subtree. -/

/-- The positions of the transactions below the node at `height` and `pos`:
the range of the loop in `TraverseAndBuild`. -/
def leafRange (nTransactions height pos : Nat) : List Nat :=
  List.range' (pos <<< height) (min ((pos + 1) <<< height) nTransactions - (pos <<< height))

/-- `fParentOfMatch`: whether a matched transaction is below the node. -/
def matchBelow (nTransactions : Nat) (vMatch : List Bool) (height pos : Nat) : Bool :=
  (leafRange nTransactions height pos).any (vMatch.getD · false)

theorem leafRange_zero {nTransactions pos : Nat} (hpos : pos < nTransactions) :
    leafRange nTransactions 0 pos = [pos] := by
  rw [leafRange, Nat.shiftLeft_zero, Nat.shiftLeft_zero, show min (pos + 1) nTransactions - pos = 1 by omega]
  rfl

/-- The leaves of a node are those of its left child, then those of its
right child (none when the right child is missing). -/
theorem leafRange_succ (nTransactions height pos : Nat) :
    leafRange nTransactions (height + 1) pos =
      leafRange nTransactions height (pos * 2) ++ leafRange nTransactions height (pos * 2 + 1) := by
  simp only [leafRange, Nat.shiftLeft_eq]
  -- every bound in terms of the first leaf `a` and the width `w` of a child
  obtain ⟨a, ha⟩ : ∃ a, a = pos * 2 * 2 ^ height := ⟨_, rfl⟩
  have h1 : pos * 2 ^ (height + 1) = a := by rw [ha, Nat.pow_succ]; ring
  have h2 : (pos + 1) * 2 ^ (height + 1) = a + 2 * 2 ^ height := by rw [ha, Nat.pow_succ]; ring
  have h3 : (pos * 2 + 1) * 2 ^ height = a + 2 ^ height := by rw [ha]; ring
  have h4 : (pos * 2 + 1 + 1) * 2 ^ height = a + 2 * 2 ^ height := by rw [ha]; ring
  rw [h1, h2, h3, h4, ← ha]
  generalize 2 ^ height = w
  have happ := @List.range'_append a w (min (a + 2 * w) nTransactions - (a + w)) 1
  rw [Nat.one_mul] at happ
  by_cases hfull : a + w ≤ nTransactions
  · -- the left child is full, and the right one starts where it ends
    rw [show min (a + w) nTransactions - a = w by omega, happ]
    congr 1
    omega
  · -- the right child has no leaves
    rw [show min (a + 2 * w) nTransactions - (a + w) = 0 by omega, List.range'_zero, List.append_nil]
    congr 1
    omega

theorem mem_leafRange {nTransactions height pos p : Nat} (hp : p ∈ leafRange nTransactions height pos) :
    p < nTransactions := by
  rw [leafRange, List.mem_range'_1] at hp
  omega

/-- A node beyond the width has no leaves. -/
theorem leafRange_eq_nil {nTransactions height pos : Nat}
    (hpos : ¬pos < calcTreeWidth nTransactions height) : leafRange nTransactions height pos = [] := by
  rw [lt_calcTreeWidth_iff] at hpos
  rw [leafRange, Nat.shiftLeft_eq, show min ((pos + 1) <<< height) nTransactions - pos * 2 ^ height = 0 by
    omega]
  rfl

/-- A node within the width has a leaf. -/
theorem leafRange_ne_nil {nTransactions height pos : Nat}
    (hpos : pos < calcTreeWidth nTransactions height) : leafRange nTransactions height pos ≠ [] := by
  rw [lt_calcTreeWidth_iff] at hpos
  rw [leafRange, Nat.shiftLeft_eq, Nat.shiftLeft_eq, Nat.succ_mul, Ne, List.range'_eq_nil_iff]
  have := Nat.two_pow_pos height
  omega

/-- The root covers every transaction. -/
theorem leafRange_root {nTransactions height : Nat} (h : nTransactions ≤ 2 ^ height) :
    leafRange nTransactions height 0 = List.range nTransactions := by
  rw [leafRange, Nat.zero_shiftLeft, Nat.shiftLeft_eq, Nat.zero_add, Nat.one_mul, Nat.min_eq_right h,
    Nat.sub_zero, List.range_eq_range']

section Honest

variable {δ : Type} (null : δ) (hash64 : δ → δ → δ)

/-- The hash of the node at `height` and `pos`: `CalcHash` without its
assert. -/
def merkleNode (vTxid : List δ) : Nat → Nat → δ
  | 0, pos => vTxid.getD pos null
  | height + 1, pos =>
      let left := merkleNode vTxid height (pos * 2)
      hash64 left
        (if pos * 2 + 1 < calcTreeWidth vTxid.length height then merkleNode vTxid height (pos * 2 + 1)
          else left)

/-- The flags `TraverseAndBuild` writes for the subtree at `height` and
`pos`. -/
def pmtBits (nTransactions : Nat) (vMatch : List Bool) : Nat → Nat → List Bool
  | 0, pos => [matchBelow nTransactions vMatch 0 pos]
  | height + 1, pos =>
      if matchBelow nTransactions vMatch (height + 1) pos then
        true :: (pmtBits nTransactions vMatch height (pos * 2) ++
          if pos * 2 + 1 < calcTreeWidth nTransactions height then
            pmtBits nTransactions vMatch height (pos * 2 + 1)
          else [])
      else [false]

/-- The hashes `TraverseAndBuild` writes for the subtree at `height` and
`pos`. -/
def pmtHashes (vTxid : List δ) (vMatch : List Bool) : Nat → Nat → List δ
  | 0, pos => [vTxid.getD pos null]
  | height + 1, pos =>
      if matchBelow vTxid.length vMatch (height + 1) pos then
        pmtHashes vTxid vMatch height (pos * 2) ++
          if pos * 2 + 1 < calcTreeWidth vTxid.length height then
            pmtHashes vTxid vMatch height (pos * 2 + 1)
          else []
      else [merkleNode null hash64 vTxid (height + 1) pos]

/-- The loop of `parentOfMatch` ORs the flags at its positions, each within
`vMatch`. -/
theorem foldlM_index_or (vMatch : List Bool) :
    ∀ (L : List Nat) (b : Bool), (∀ p ∈ L, p < vMatch.length) →
      L.foldlM (fun fParentOfMatch p => do
          let m ← Fault.index vMatch p
          pure (fParentOfMatch || m)) b = .ok (b || L.any (vMatch.getD · false))
  | [], b, _ => by simp
  | p :: L, b, hL => by
      have hp : p < vMatch.length := hL p List.mem_cons_self
      rw [List.foldlM_cons, Fault.index_of_lt hp, Fault.ok_bind, Fault.pure_eq, Fault.ok_bind,
        foldlM_index_or vMatch L _ (fun q hq => hL q (List.mem_cons_of_mem p hq))]
      simp [List.getElem?_eq_getElem hp, Bool.or_assoc]

theorem parentOfMatch_eq {nTransactions : Nat} {vMatch : List Bool} (hM : nTransactions ≤ vMatch.length)
    (height pos : Nat) :
    parentOfMatch nTransactions vMatch height pos = .ok (matchBelow nTransactions vMatch height pos) := by
  have hL : ∀ p ∈ leafRange nTransactions height pos, p < vMatch.length :=
    fun p hp => Nat.lt_of_lt_of_le (mem_leafRange hp) hM
  exact (foldlM_index_or vMatch _ false hL).trans (by rw [Bool.false_or]; rfl)

/-- `CalcHash` does not fault within the width, and computes the node. -/
theorem calcHash_eq {vTxid : List δ} (hne : vTxid ≠ []) :
    ∀ height pos, pos < calcTreeWidth vTxid.length height →
      calcHash hash64 vTxid.length vTxid height pos = .ok (merkleNode null hash64 vTxid height pos)
  | 0, pos, hpos => by
      rw [calcTreeWidth_zero] at hpos
      have hlen : (vTxid.length != 0) = true := by simpa using hne
      rw [calcHash, hlen, Fault.check_true, Fault.ok_bind, Fault.index_of_lt hpos, merkleNode,
        List.getD_eq_getElem _ _ hpos]
  | height + 1, pos, hpos => by
      have hleft : pos * 2 < calcTreeWidth vTxid.length height := by
        rw [calcTreeWidth_succ] at hpos
        omega
      have hlen : (vTxid.length != 0) = true := by simpa using hne
      rw [calcHash, hlen, Fault.check_true, Fault.ok_bind, calcHash_eq hne height (pos * 2) hleft,
        Fault.ok_bind, merkleNode]
      split
      · rw [calcHash_eq hne height (pos * 2 + 1) ‹_›]
        rfl
      · rfl

/-- `TraverseAndBuild` does not fault within the width, and appends the
subtree's flags and hashes. -/
theorem traverseAndBuild_eq {vTxid : List δ} {vMatch : List Bool} (hne : vTxid ≠ [])
    (hM : vTxid.length ≤ vMatch.length) :
    ∀ height pos (vBits : List Bool) (vHash : List δ), pos < calcTreeWidth vTxid.length height →
      traverseAndBuild hash64 vTxid.length vTxid vMatch height pos (vBits, vHash) =
        .ok (vBits ++ pmtBits vTxid.length vMatch height pos,
          vHash ++ pmtHashes null hash64 vTxid vMatch height pos)
  | 0, pos, vBits, vHash, hpos => by
      rw [traverseAndBuild, parentOfMatch_eq hM, Fault.ok_bind, calcHash_eq null hash64 hne 0 pos hpos]
      rfl
  | height + 1, pos, vBits, vHash, hpos => by
      have hleft : pos * 2 < calcTreeWidth vTxid.length height := by
        rw [calcTreeWidth_succ] at hpos
        omega
      rw [traverseAndBuild, parentOfMatch_eq hM, Fault.ok_bind, pmtBits, pmtHashes]
      cases matchBelow vTxid.length vMatch (height + 1) pos with
      | false =>
        -- nothing matched below: the node's hash
        simp [calcHash_eq null hash64 hne (height + 1) pos hpos]
      | true =>
        simp only [if_true, traverseAndBuild_eq hne hM height (pos * 2) _ _ hleft, Fault.ok_bind]
        split
        · rw [traverseAndBuild_eq hne hM height (pos * 2 + 1) _ _ ‹_›]
          simp
        · simp

/-- With an injective compression, distinct transactions give distinct nodes
at every height: the first children of two equal nodes are equal. -/
theorem merkleNode_injective (hinj : ∀ a b c d, hash64 a b = hash64 c d → a = c ∧ b = d)
    {vTxid : List δ} (hnodup : vTxid.Nodup) :
    ∀ height p q, p < calcTreeWidth vTxid.length height → q < calcTreeWidth vTxid.length height →
      merkleNode null hash64 vTxid height p = merkleNode null hash64 vTxid height q → p = q
  | 0, p, q, hp, hq, h => by
      rw [calcTreeWidth_zero] at hp hq
      rw [merkleNode, merkleNode, List.getD_eq_getElem _ _ hp, List.getD_eq_getElem _ _ hq] at h
      exact hnodup.getElem_inj_iff.mp h
  | height + 1, p, q, hp, hq, h => by
      rw [calcTreeWidth_succ] at hp hq
      rw [merkleNode, merkleNode] at h
      have hleft := merkleNode_injective hinj hnodup height (p * 2) (q * 2) (by omega) (by omega)
        (hinj _ _ _ _ h).1
      omega

/-- So the two children of a node never have the same hash. -/
theorem merkleNode_siblings_ne (hinj : ∀ a b c d, hash64 a b = hash64 c d → a = c ∧ b = d)
    {vTxid : List δ} (hnodup : vTxid.Nodup) (height pos : Nat)
    (hpos : pos * 2 + 1 < calcTreeWidth vTxid.length height) :
    merkleNode null hash64 vTxid height (pos * 2) ≠ merkleNode null hash64 vTxid height (pos * 2 + 1) := by
  intro h
  have := merkleNode_injective null hash64 hinj hnodup height _ _ (by omega) hpos h
  omega

end Honest

section Sizes

variable {δ : Type} (null : δ) (hash64 : δ → δ → δ) {vTxid : List δ} {vMatch : List Bool}

/-- At most one hash per transaction below the node. -/
theorem length_pmtHashes_le :
    ∀ height pos, pos < calcTreeWidth vTxid.length height →
      (pmtHashes null hash64 vTxid vMatch height pos).length ≤ (leafRange vTxid.length height pos).length
  | 0, pos, hpos => by
      rw [calcTreeWidth_zero] at hpos
      simp [pmtHashes, leafRange_zero hpos]
  | height + 1, pos, hpos => by
      have hleft : pos * 2 < calcTreeWidth vTxid.length height := by
        rw [calcTreeWidth_succ] at hpos
        omega
      have hL := length_pmtHashes_le height (pos * 2) hleft
      rw [pmtHashes, leafRange_succ, List.length_append]
      split
      · split
        · have hR := length_pmtHashes_le height (pos * 2 + 1) ‹_›
          rw [List.length_append]
          omega
        · simp only [List.append_nil]
          omega
      · -- one hash for the node, which has a leaf on the left
        have := List.length_pos_of_ne_nil (leafRange_ne_nil hleft)
        simp only [List.length_singleton]
        omega

/-- At most one hash per flag. -/
theorem length_pmtHashes_le_pmtBits :
    ∀ height pos, (pmtHashes null hash64 vTxid vMatch height pos).length ≤
      (pmtBits vTxid.length vMatch height pos).length
  | 0, pos => by simp [pmtHashes, pmtBits]
  | height + 1, pos => by
      have hL := length_pmtHashes_le_pmtBits height (pos * 2)
      have hR := length_pmtHashes_le_pmtBits height (pos * 2 + 1)
      rw [pmtHashes, pmtBits]
      split
      · split <;> simp only [List.length_cons, List.length_append, List.length_nil] <;> omega
      · simp

/-- A subtree of height `height` has fewer than `2 ^ (height + 1)` nodes. -/
theorem length_pmtBits_lt (nTransactions : Nat) (vMatch : List Bool) :
    ∀ height pos, (pmtBits nTransactions vMatch height pos).length < 2 ^ (height + 1)
  | 0, pos => by simp [pmtBits]
  | height + 1, pos => by
      have hL := length_pmtBits_lt nTransactions vMatch height (pos * 2)
      have hR := length_pmtBits_lt nTransactions vMatch height (pos * 2 + 1)
      have hpow : 2 ^ (height + 1 + 1) = 2 * 2 ^ (height + 1) := by rw [Nat.pow_succ]; ring
      rw [pmtBits]
      split
      · split <;> simp only [List.length_cons, List.length_append, List.length_nil] <;> omega
      · simp only [List.length_singleton]
        have := Nat.one_lt_two_pow_iff.mpr (Nat.succ_ne_zero (height + 1))
        omega

end Sizes

/-! ## The levels of `ComputeMerkleRoot` -/

section Levels

variable {δ : Type} (null : δ) (hash64 : δ → δ → δ)

/-- The nodes of one height, in order. -/
def merkleNodes (vTxid : List δ) (height : Nat) : List δ :=
  (List.range (calcTreeWidth vTxid.length height)).map (merkleNode null hash64 vTxid height)

theorem getD_merkleNodes {vTxid : List δ} {height pos : Nat} (hpos : pos < calcTreeWidth vTxid.length height) :
    (merkleNodes null hash64 vTxid height).getD pos null = merkleNode null hash64 vTxid height pos := by
  simp [merkleNodes, hpos]

/-- The leaves are the transactions. -/
theorem merkleNodes_zero (vTxid : List δ) : merkleNodes null hash64 vTxid 0 = vTxid := by
  apply List.ext_getElem
  · simp [merkleNodes, calcTreeWidth_zero]
  · intro p h1 h2
    simp [merkleNodes, merkleNode, List.getElem?_eq_getElem h2]

/-- `merkleLevel` goes one height up. -/
theorem merkleLevel_merkleNodes (vTxid : List δ) (height : Nat) :
    merkleLevel null hash64 (merkleNodes null hash64 vTxid height) = merkleNodes null hash64 vTxid (height + 1) := by
  have hlen : (merkleNodes null hash64 vTxid height).length = calcTreeWidth vTxid.length height := by
    simp [merkleNodes]
  apply List.ext_getElem
  · rw [length_merkleLevel, hlen]
    simp [merkleNodes, calcTreeWidth_succ]
  · intro p h1 h2
    have hp : p < calcTreeWidth vTxid.length (height + 1) := by simpa [merkleNodes] using h2
    have hleft : p * 2 < calcTreeWidth vTxid.length height := by
      rw [calcTreeWidth_succ] at hp
      omega
    rw [← List.getD_eq_getElem _ null h1, ← List.getD_eq_getElem _ null h2, getD_merkleNodes null hash64 hp,
      getD_merkleLevel null hash64 _ (by rw [hlen]; exact hleft), hlen, getD_merkleNodes null hash64 hleft,
      merkleNode]
    split
    · rw [getD_merkleNodes null hash64 ‹_›]
    · rfl

variable [DecidableEq δ]

/-- Once a height has at most one node, `ComputeMerkleRoot` stops there. -/
theorem merkleLoop_merkleNodes_of_le {vTxid : List δ} (hne : vTxid ≠ []) {height : Nat}
    (hw : calcTreeWidth vTxid.length height ≤ 1) (mutation : Bool) :
    (merkleLoop null hash64 (merkleNodes null hash64 vTxid height) mutation).1 =
      merkleNode null hash64 vTxid height 0 := by
  have hw0 : 0 < calcTreeWidth vTxid.length height := by
    rw [lt_calcTreeWidth_iff, Nat.zero_mul]
    exact List.length_pos_of_ne_nil hne
  rw [merkleLoop_of_le mutation (by simpa [merkleNodes] using hw), merkleNodes,
    show calcTreeWidth vTxid.length height = 1 by omega]
  rfl

/-- `ComputeMerkleRoot` from the nodes of `height` goes up to the height the
loop of `CPartialMerkleTree` finds. -/
theorem merkleLoop_merkleNodes {vTxid : List δ} (hne : vTxid ≠ []) :
    ∀ fuel height (mutation : Bool), vTxid.length ≤ fuel + height →
      (merkleLoop null hash64 (merkleNodes null hash64 vTxid height) mutation).1 =
        merkleNode null hash64 vTxid (treeHeightFrom vTxid.length fuel height) 0
  | 0, height, mutation, hfuel =>
      merkleLoop_merkleNodes_of_le null hash64 hne (calcTreeWidth_treeHeightFrom_le_one 0 height hfuel) mutation
  | fuel + 1, height, mutation, hfuel => by
      rw [treeHeightFrom]
      split
      · rename_i hw
        rw [merkleLoop_of_lt mutation (by simpa [merkleNodes] using hw), merkleLevel_merkleNodes,
          merkleLoop_merkleNodes hne fuel (height + 1) _ (by omega)]
      · exact merkleLoop_merkleNodes_of_le null hash64 hne (by omega) mutation

/-- **The root of the tree** is the root `ComputeMerkleRoot` computes. -/
theorem computeMerkleRoot_fst {vTxid : List δ} (hne : vTxid ≠ []) :
    (computeMerkleRoot null hash64 vTxid).1 = merkleNode null hash64 vTxid (treeHeight vTxid.length) 0 := by
  have h := merkleLoop_merkleNodes null hash64 hne vTxid.length 0 false (by omega)
  rw [merkleNodes_zero] at h
  exact h

end Levels

/-- The transactions below the node that the mask selects. -/
def matchIndices (nTransactions : Nat) (vMatch : List Bool) (height pos : Nat) : List Nat :=
  (leafRange nTransactions height pos).filter (vMatch.getD · false)

/-! ## Reading the honest tree back -/

/-- A cursor at a nonempty suffix reads its first element. -/
theorem drop_eq_cons {α : Type} {l rest : List α} {i : Nat} {a : α} (d : α) (h : l.drop i = a :: rest) :
    i < l.length ∧ l.getD i d = a ∧ l.drop (i + 1) = rest := by
  have hi : i < l.length := by
    by_contra hle
    rw [List.drop_eq_nil_of_le (Nat.le_of_not_lt hle)] at h
    cases h
  rw [List.drop_eq_getElem_cons hi, List.cons.injEq] at h
  exact ⟨hi, by rw [List.getD_eq_getElem _ _ hi, h.1], h.2⟩

section Read

variable {δ : Type} [DecidableEq δ] (null : δ) (hash64 : δ → δ → δ)

/-- `TraverseAndExtract` at a flag that stops the walk (a leaf, or nothing
matched below): the stored hash, and a match at a leaf. -/
theorem traverseAndExtract_of_stop (t : CPartialMerkleTree δ) (height pos : Nat) (s : ExtractState δ)
    {fParentOfMatch : Bool} {hash : δ} {restBits : List Bool} {restHash : List δ}
    (hbits : t.vBits.drop s.nBitsUsed = fParentOfMatch :: restBits)
    (hhash : t.vHash.drop s.nHashUsed = hash :: restHash) (hstop : height = 0 ∨ fParentOfMatch = false) :
    traverseAndExtract null hash64 t height pos s =
      (hash, { s with
        nBitsUsed := s.nBitsUsed + 1
        nHashUsed := s.nHashUsed + 1
        vMatch := s.vMatch ++ if height = 0 ∧ fParentOfMatch then [hash] else []
        vnIndex := s.vnIndex ++ if height = 0 ∧ fParentOfMatch then [pos] else [] }) := by
  obtain ⟨hb, hbget, -⟩ := drop_eq_cons false hbits
  obtain ⟨hh, hhget, -⟩ := drop_eq_cons null hhash
  rw [traverseAndExtract, if_neg (by omega), hbget]
  rcases hstop with rfl | rfl
  · -- a leaf
    dsimp only
    rw [if_neg (by omega), hhget]
    cases fParentOfMatch <;> simp
  · -- nothing matched below
    cases height <;>
    · dsimp only
      rw [if_neg (by omega), hhget]
      simp

/-- `TraverseAndExtract` at a set flag above the leaves: both subtrees, and
the check that their hashes differ. -/
theorem traverseAndExtract_of_descend (t : CPartialMerkleTree δ) (height pos : Nat) (s : ExtractState δ)
    {restBits : List Bool} (hbits : t.vBits.drop s.nBitsUsed = true :: restBits) :
    traverseAndExtract null hash64 t (height + 1) pos s =
      let (left, s) := traverseAndExtract null hash64 t height (pos * 2) { s with nBitsUsed := s.nBitsUsed + 1 }
      if pos * 2 + 1 < calcTreeWidth t.nTransactions height then
        let (right, s) := traverseAndExtract null hash64 t height (pos * 2 + 1) s
        (hash64 left right, if right == left then { s with fBad := true } else s)
      else (hash64 left left, s) := by
  obtain ⟨hb, hbget, -⟩ := drop_eq_cons false hbits
  rw [traverseAndExtract, if_neg (by omega), hbget]

/-- **Reading a subtree back.**  From cursors at the flags and hashes the
builder wrote for a subtree, `TraverseAndExtract` computes the node's hash,
moves each cursor past the subtree, and appends the matched transactions
below with their positions.  When the two children of every node have
different hashes, `fBad` is left as it was. -/
theorem traverseAndExtract_eq {vTxid : List δ} {vMatch : List Bool} (t : CPartialMerkleTree δ)
    (ht : t.nTransactions = vTxid.length)
    (hsiblings : ∀ height pos, pos * 2 + 1 < calcTreeWidth vTxid.length height →
      merkleNode null hash64 vTxid height (pos * 2) ≠ merkleNode null hash64 vTxid height (pos * 2 + 1)) :
    ∀ height pos (s : ExtractState δ) (restBits : List Bool) (restHash : List δ),
      pos < calcTreeWidth vTxid.length height →
      t.vBits.drop s.nBitsUsed = pmtBits vTxid.length vMatch height pos ++ restBits →
      t.vHash.drop s.nHashUsed = pmtHashes null hash64 vTxid vMatch height pos ++ restHash →
      traverseAndExtract null hash64 t height pos s =
        (merkleNode null hash64 vTxid height pos,
          { s with
            nBitsUsed := s.nBitsUsed + (pmtBits vTxid.length vMatch height pos).length
            nHashUsed := s.nHashUsed + (pmtHashes null hash64 vTxid vMatch height pos).length
            vMatch := s.vMatch ++ (matchIndices vTxid.length vMatch height pos).map (vTxid.getD · null)
            vnIndex := s.vnIndex ++ matchIndices vTxid.length vMatch height pos })
  | 0, pos, s, restBits, restHash, hpos, hbits, hhash => by
      rw [calcTreeWidth_zero] at hpos
      simp only [pmtBits, pmtHashes, List.singleton_append] at hbits hhash ⊢
      rw [traverseAndExtract_of_stop null hash64 t 0 pos s hbits hhash (.inl rfl), merkleNode, matchIndices,
        matchBelow, leafRange_zero hpos]
      simp only [List.any_cons, List.any_nil, Bool.or_false, List.filter_cons, List.filter_nil]
      cases vMatch.getD pos false <;> simp
  | height + 1, pos, s, restBits, restHash, hpos, hbits, hhash => by
      have hleft : pos * 2 < calcTreeWidth vTxid.length height := by
        rw [calcTreeWidth_succ] at hpos
        omega
      rw [pmtBits] at hbits ⊢
      rw [pmtHashes] at hhash ⊢
      cases hmatch : matchBelow vTxid.length vMatch (height + 1) pos with
      | false =>
        -- nothing matched below: the stored hash of the node
        simp only [hmatch, Bool.false_eq_true, if_false, List.singleton_append] at hbits hhash ⊢
        rw [traverseAndExtract_of_stop null hash64 t (height + 1) pos s hbits hhash (.inr rfl)]
        have hnone : matchIndices vTxid.length vMatch (height + 1) pos = [] := by
          simpa [matchIndices, matchBelow] using hmatch
        simp [hnone]
      | true =>
        simp only [hmatch, if_true, List.cons_append] at hbits hhash ⊢
        rw [traverseAndExtract_of_descend null hash64 t height pos s hbits, ht]
        have hL := (drop_eq_cons false hbits).2.2
        rw [List.append_assoc] at hL hhash
        rw [traverseAndExtract_eq t ht hsiblings height (pos * 2) { s with nBitsUsed := s.nBitsUsed + 1 } _ _
          hleft hL hhash]
        dsimp only
        split
        · -- both children: the right subtree starts where the left one ends
          rename_i hright
          simp only [if_pos hright] at hL hhash ⊢
          rw [traverseAndExtract_eq t ht hsiblings height (pos * 2 + 1) _ restBits restHash hright
            (by rw [← List.drop_drop, hL, List.drop_left]) (by rw [← List.drop_drop, hhash, List.drop_left])]
          have hne : merkleNode null hash64 vTxid height (pos * 2 + 1) ≠ merkleNode null hash64 vTxid height (pos * 2) :=
            (hsiblings height pos hright).symm
          simp [hne, merkleNode, hright, matchIndices, leafRange_succ, Nat.add_assoc]
          omega
        · -- no right child: the left hash twice, and no leaves on the right
          rename_i hright
          simp [hright, merkleNode, matchIndices, leafRange_succ, leafRange_eq_nil hright, Nat.add_assoc]
          omega

/-- **Extracting from the honest tree**: every check of `ExtractMatches`
passes, and it returns the root with the matched transactions and their
positions.  The flags may be followed by padding that does not reach another
byte. -/
theorem extractMatches_eq {vTxid : List δ} {vMatch : List Bool} (hne : vTxid ≠ [])
    (hmax : vTxid.length ≤ MAX_BLOCK_WEIGHT / MIN_TRANSACTION_WEIGHT)
    (hsiblings : ∀ height pos, pos * 2 + 1 < calcTreeWidth vTxid.length height →
      merkleNode null hash64 vTxid height (pos * 2) ≠ merkleNode null hash64 vTxid height (pos * 2 + 1))
    (t : CPartialMerkleTree δ) (ht : t.nTransactions = vTxid.length) {pad : List Bool}
    (hbits : t.vBits = pmtBits vTxid.length vMatch (treeHeight vTxid.length) 0 ++ pad)
    (hpad : (t.vBits.length + 7) / 8 = ((pmtBits vTxid.length vMatch (treeHeight vTxid.length) 0).length + 7) / 8)
    (hhash : t.vHash = pmtHashes null hash64 vTxid vMatch (treeHeight vTxid.length) 0) (hbad : t.fBad = false) :
    t.extractMatches null hash64 [] =
      (merkleNode null hash64 vTxid (treeHeight vTxid.length) 0,
        ((List.range vTxid.length).filter (vMatch.getD · false)).map (vTxid.getD · null),
        (List.range vTxid.length).filter (vMatch.getD · false)) := by
  have hlen := List.length_pos_of_ne_nil hne
  have hroot : 0 < calcTreeWidth vTxid.length (treeHeight vTxid.length) := by
    rw [lt_calcTreeWidth_iff, Nat.zero_mul]
    exact hlen
  have hcover : leafRange vTxid.length (treeHeight vTxid.length) 0 = List.range vTxid.length :=
    leafRange_root (calcTreeWidth_le_one_iff.mp (calcTreeWidth_treeHeight_le_one _))
  -- the two size checks
  have hfewer : t.vHash.length ≤ vTxid.length := by
    have h : (pmtHashes null hash64 vTxid vMatch (treeHeight vTxid.length) 0).length ≤ _ :=
      length_pmtHashes_le null hash64 (treeHeight vTxid.length) 0 hroot
    rwa [hcover, List.length_range, ← hhash] at h
  have hflags : t.vHash.length ≤ t.vBits.length := by
    have h : (pmtHashes null hash64 vTxid vMatch (treeHeight vTxid.length) 0).length ≤ _ :=
      length_pmtHashes_le_pmtBits null hash64 (treeHeight vTxid.length) 0
    rw [hhash, hbits, List.length_append]
    omega
  have hwalk := traverseAndExtract_eq null hash64 t ht hsiblings (treeHeight vTxid.length) 0
    ⟨0, 0, [], [], t.fBad⟩ pad [] hroot (by rw [List.drop_zero, hbits]) (by rw [List.drop_zero, hhash, List.append_nil])
  rw [extractMatches, ht, if_neg (by omega), if_neg (by omega), if_neg (by omega), if_neg (by omega), hwalk]
  simp [hbad, hpad, hhash, matchIndices, hcover]

end Read

/-! ## The round trip -/

section RoundTrip

variable {δ : Type} (null : δ) (hash64 : δ → δ → δ)

/-- The tree built from `vTxid` and `vMatch`, and the tree read back from
its bytes: the same, with the flags padded to whole bytes. -/
theorem ofTxids_unserialize {readDigest : StreamReader δ} {serDigest : δ → List UInt8}
    (hread : ∀ d rest, readDigest.run (serDigest d ++ rest) = .ok (d, rest))
    {vTxid : List δ} {vMatch : List Bool} (hne : vTxid ≠ [])
    (hmax : vTxid.length ≤ MAX_BLOCK_WEIGHT / MIN_TRANSACTION_WEIGHT) (hM : vMatch.length = vTxid.length) :
    let P : CPartialMerkleTree δ := ⟨vTxid.length, pmtBits vTxid.length vMatch (treeHeight vTxid.length) 0,
      pmtHashes null hash64 vTxid vMatch (treeHeight vTxid.length) 0, false⟩
    ofTxids hash64 vTxid vMatch = .ok P ∧
      (unserialize readDigest).run (P.serialize serDigest) =
        .ok ({ P with vBits := unpackBits (packBits P.vBits) }, []) := by
  intro P
  have hlimit : MAX_BLOCK_WEIGHT / MIN_TRANSACTION_WEIGHT = 16666 := rfl
  have hroot : 0 < calcTreeWidth vTxid.length (treeHeight vTxid.length) := by
    rw [lt_calcTreeWidth_iff, Nat.zero_mul]
    exact List.length_pos_of_ne_nil hne
  have hbuild := traverseAndBuild_eq null hash64 hne hM.ge (treeHeight vTxid.length) 0 [] [] hroot
  -- the sizes the reader accepts: at most 16666 hashes, and a tree at most 15 high
  have hHash : P.vHash.length ≤ vTxid.length := by
    have h : P.vHash.length ≤ _ := length_pmtHashes_le null hash64 (treeHeight vTxid.length) 0 hroot
    rwa [leafRange_root (calcTreeWidth_le_one_iff.mp (calcTreeWidth_treeHeight_le_one _)),
      List.length_range] at h
  have hheight : treeHeight vTxid.length ≤ 15 := treeHeight_le (by omega)
  have hBits : P.vBits.length < 2 ^ 16 :=
    Nat.lt_of_lt_of_le (length_pmtBits_lt _ _ _ 0) (Nat.pow_le_pow_right (by omega) (by omega))
  have hread' := unserialize_serialize hread P (by simp only [P]; omega) (by simp [MAX_SIZE]; omega)
    (by simp [MAX_SIZE]; omega) []
  rw [List.append_nil] at hread'
  refine ⟨by rw [ofTxids, hbuild]; rfl, hread'⟩

variable [DecidableEq δ]

/-- **Partial merkle trees round-trip.**  For a nonempty list of txids within
the transaction limit and a mask of the same length, the tree built from
them, written and read back, extracts the root `ComputeMerkleRoot` computes,
the matched txids in order and their positions, provided the two children
of every node have different hashes (`merkleNode_siblings_ne`: distinct txids
and an injective compression). -/
theorem ofTxids_extractMatches {readDigest : StreamReader δ} {serDigest : δ → List UInt8}
    (hread : ∀ d rest, readDigest.run (serDigest d ++ rest) = .ok (d, rest))
    (vTxid : List δ) (vMatch : List Bool) (hne : vTxid ≠ [])
    (hmax : vTxid.length ≤ MAX_BLOCK_WEIGHT / MIN_TRANSACTION_WEIGHT) (hM : vMatch.length = vTxid.length)
    (hsiblings : ∀ height pos, pos * 2 + 1 < calcTreeWidth vTxid.length height →
      merkleNode null hash64 vTxid height (pos * 2) ≠ merkleNode null hash64 vTxid height (pos * 2 + 1)) :
    ∃ P P', ofTxids hash64 vTxid vMatch = .ok P ∧
      (unserialize readDigest).run (P.serialize serDigest) = .ok (P', []) ∧
      P'.extractMatches null hash64 [] =
        ((computeMerkleRoot null hash64 vTxid).1,
          ((List.range vTxid.length).filter (vMatch.getD · false)).map (vTxid.getD · null),
          (List.range vTxid.length).filter (vMatch.getD · false)) := by
  obtain ⟨hofTxids, hread'⟩ := ofTxids_unserialize null hash64 hread hne hmax hM
  refine ⟨_, _, hofTxids, hread', ?_⟩
  -- the reader's flags: the builder's, padded to a whole byte
  have hpad : ∀ bits : List Bool,
      ((bits ++ List.replicate ((bits.length + 7) / 8 * 8 - bits.length) false).length + 7) / 8 =
        (bits.length + 7) / 8 := by
    intro bits
    rw [List.length_append, List.length_replicate]
    omega
  rw [computeMerkleRoot_fst null hash64 hne]
  exact extractMatches_eq null hash64 hne hmax hsiblings _ rfl (unpackBits_packBits _)
    (by rw [unpackBits_packBits]; exact hpad _) rfl rfl

/-- With an injective compression, pairwise distinct txids are enough. -/
theorem ofTxids_extractMatches_injective {readDigest : StreamReader δ} {serDigest : δ → List UInt8}
    (hread : ∀ d rest, readDigest.run (serDigest d ++ rest) = .ok (d, rest))
    (hinj : ∀ a b c d, hash64 a b = hash64 c d → a = c ∧ b = d)
    (vTxid : List δ) (vMatch : List Bool) (hne : vTxid ≠ []) (hnodup : vTxid.Nodup)
    (hmax : vTxid.length ≤ MAX_BLOCK_WEIGHT / MIN_TRANSACTION_WEIGHT) (hM : vMatch.length = vTxid.length) :
    ∃ P P', ofTxids hash64 vTxid vMatch = .ok P ∧
      (unserialize readDigest).run (P.serialize serDigest) = .ok (P', []) ∧
      P'.extractMatches null hash64 [] =
        ((computeMerkleRoot null hash64 vTxid).1,
          ((List.range vTxid.length).filter (vMatch.getD · false)).map (vTxid.getD · null),
          (List.range vTxid.length).filter (vMatch.getD · false)) :=
  ofTxids_extractMatches null hash64 hread vTxid vMatch hne hmax hM
    (merkleNode_siblings_ne null hash64 hinj hnodup)

end RoundTrip

/-- Digests with an injective compression: numbers, compressed by `Nat.pair`
and written as that many nonzero bytes and a zero. -/
def readUnary : List UInt8 → Except String (Nat × List UInt8)
  | [] => .error "end of data"
  | b :: rest => if b = 0 then .ok (0, rest) else (readUnary rest).map fun r => (r.1 + 1, r.2)

def writeUnary (n : Nat) : List UInt8 := List.replicate n 1 ++ [0]

theorem readUnary_writeUnary (n : Nat) (rest : List UInt8) :
    StateT.run (readUnary : StreamReader Nat) (writeUnary n ++ rest) = .ok (n, rest) := by
  induction n with
  | zero => rfl
  | succ n ih =>
    simp only [StateT.run, writeUnary, List.replicate_succ, List.cons_append] at ih ⊢
    rw [readUnary, if_neg (by decide), ih]
    rfl

theorem ofTxids_extractMatches_pairing :
    ∃ P P', ofTxids Nat.pair [1, 2, 3] [false, true, true] = .ok P ∧
      (unserialize readUnary).run (P.serialize writeUnary) = .ok (P', []) ∧
      P'.extractMatches 0 Nat.pair [] =
        ((computeMerkleRoot 0 Nat.pair [1, 2, 3]).1,
          ((List.range [1, 2, 3].length).filter ([false, true, true].getD · false)).map ([1, 2, 3].getD · 0),
          (List.range [1, 2, 3].length).filter ([false, true, true].getD · false)) :=
  ofTxids_extractMatches_injective 0 Nat.pair readUnary_writeUnary (fun _ _ _ _ h => Nat.pair_eq_pair.mp h)
    [1, 2, 3] [false, true, true] (by decide) (by decide) (by decide) rfl

end CPartialMerkleTree

end Veribase
