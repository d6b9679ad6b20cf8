import Mathlib
import Veribase.Primitives.Block
import Veribase.Primitives.Compact

/-!
# The block index and the active chain

`chain.h`.  The node keeps one `CBlockIndex` per known header in the map
`m_block_index`, keyed by block hash, and `phashBlock` points at the key of
its own entry.  A `CBlockIndex*` is modelled by that key: `pprev` is the hash
of the previous block's entry, and following a pointer is a lookup in the
`BlockMap`.  The one index outside the map, the dummy that
`TestBlockValidity` builds, is handled where it is built.

`nFlags` holds the three ppcoin bits.  The setters only ever set bits
(`SetProofOfStake`, `SetStakeEntropyBit`, `SetStakeModifier`), so a bit
present in an entry stays there (`nFlags_or_*`).

`CChain` is the active chain, the vector of pointers by height; `Contains`
compares the pointer at the entry's height and `Next` reads one height
further.
-/

namespace Veribase

/-! ## Block status -/

/-- `BLOCK_VALID_TREE`. -/
def BLOCK_VALID_TREE : UInt32 := 2

/-- `BLOCK_VALID_TRANSACTIONS`. -/
def BLOCK_VALID_TRANSACTIONS : UInt32 := 3

/-- `BLOCK_VALID_CHAIN`. -/
def BLOCK_VALID_CHAIN : UInt32 := 4

/-- `BLOCK_VALID_SCRIPTS`. -/
def BLOCK_VALID_SCRIPTS : UInt32 := 5

/-- `BLOCK_VALID_MASK`. -/
def BLOCK_VALID_MASK : UInt32 := 1 ||| 2 ||| 3 ||| 4 ||| 5

/-- `BLOCK_HAVE_DATA`. -/
def BLOCK_HAVE_DATA : UInt32 := 8

/-- `BLOCK_HAVE_UNDO`. -/
def BLOCK_HAVE_UNDO : UInt32 := 16

/-- `BLOCK_FAILED_VALID`. -/
def BLOCK_FAILED_VALID : UInt32 := 32

/-- `BLOCK_FAILED_CHILD`. -/
def BLOCK_FAILED_CHILD : UInt32 := 64

/-- `BLOCK_FAILED_MASK`. -/
def BLOCK_FAILED_MASK : UInt32 := BLOCK_FAILED_VALID ||| BLOCK_FAILED_CHILD

/-! ## Entries -/

/-- `CBlockIndex`, the fields consensus code reads.  `pprev` is the key of
the previous block's entry. -/
structure CBlockIndex where
  /-- `phashBlock`: the key of this entry, or null. -/
  phashBlock : Option uint256
  pprev : Option uint256
  nHeight : Int
  nTx : Nat
  nStatus : UInt32
  nVersion : Int32
  hashMerkleRoot : uint256
  nTime : UInt32
  nBits : UInt32
  nNonce : UInt32
  nChainWork : Nat
  /-- `nMint` (ppcoin). -/
  nMint : Int
  /-- `nMoneySupply` (ppcoin). -/
  nMoneySupply : Int
  /-- `nFlags` (ppcoin). -/
  nFlags : UInt32
  nStakeModifier : UInt64
  nStakeModifierChecksum : UInt32
  prevoutStake : COutPoint
  nStakeTime : UInt32
  hashProofOfStake : uint256
deriving DecidableEq

namespace CBlockIndex

/-- `BLOCK_PROOF_OF_STAKE = (1 << 0)`. -/
def BLOCK_PROOF_OF_STAKE : UInt32 := 1

/-- `BLOCK_STAKE_ENTROPY = (1 << 1)`. -/
def BLOCK_STAKE_ENTROPY : UInt32 := 2

/-- `BLOCK_STAKE_MODIFIER = (1 << 2)`. -/
def BLOCK_STAKE_MODIFIER : UInt32 := 4

/-- `explicit CBlockIndex(const CBlockHeader& block)`: the header's fields,
`nFlags` included; everything else at its default. -/
def ofHeader (block : CBlockHeader) : CBlockIndex where
  phashBlock := none
  pprev := none
  nHeight := 0
  nTx := 0
  nStatus := 0
  nVersion := block.nVersion
  hashMerkleRoot := block.hashMerkleRoot
  nTime := block.nTime
  nBits := block.nBits
  nNonce := block.nNonce
  nChainWork := 0
  nMint := 0
  nMoneySupply := 0
  nFlags := block.nFlags
  nStakeModifier := 0
  nStakeModifierChecksum := 0
  prevoutStake := ⟨uint256.zero, COutPoint.NULL_INDEX⟩
  nStakeTime := 0
  hashProofOfStake := uint256.zero

/-- `GetBlockHash()`: `*phashBlock`.  Every entry of the map has it set. -/
def getBlockHash (e : CBlockIndex) : uint256 := e.phashBlock.getD uint256.zero

/-- `GetBlockHeader()`: the stored header fields; `pprev->GetBlockHash()` is
the key `pprev` holds. -/
def getBlockHeader (e : CBlockIndex) : CBlockHeader where
  nVersion := e.nVersion
  hashPrevBlock := e.pprev.getD uint256.zero
  hashMerkleRoot := e.hashMerkleRoot
  nTime := e.nTime
  nBits := e.nBits
  nNonce := e.nNonce
  nFlags := e.nFlags

/-- `GetBlockTime()`. -/
def getBlockTime (e : CBlockIndex) : Int := e.nTime.toNat

/-- `IsProofOfWork()`. -/
def isProofOfWork (e : CBlockIndex) : Bool := e.nFlags &&& BLOCK_PROOF_OF_STAKE == 0

/-- `IsProofOfStake()`. -/
def isProofOfStake (e : CBlockIndex) : Bool := e.nFlags &&& BLOCK_PROOF_OF_STAKE != 0

/-- `SetProofOfStake()`. -/
def setProofOfStake (e : CBlockIndex) : CBlockIndex :=
  { e with nFlags := e.nFlags ||| BLOCK_PROOF_OF_STAKE }

/-- `GetStakeEntropyBit()`. -/
def getStakeEntropyBit (e : CBlockIndex) : UInt32 := (e.nFlags &&& BLOCK_STAKE_ENTROPY) >>> 1

/-- `SetStakeEntropyBit(nEntropyBit)`: refuses a bit above one. -/
def setStakeEntropyBit (e : CBlockIndex) (nEntropyBit : UInt32) : Option CBlockIndex :=
  if nEntropyBit > 1 then none
  else some { e with nFlags := e.nFlags ||| (if nEntropyBit != 0 then BLOCK_STAKE_ENTROPY else 0) }

/-- `GeneratedStakeModifier()`. -/
def generatedStakeModifier (e : CBlockIndex) : Bool := e.nFlags &&& BLOCK_STAKE_MODIFIER != 0

/-- `SetStakeModifier(nModifier, fGeneratedStakeModifier)`. -/
def setStakeModifier (e : CBlockIndex) (nModifier : UInt64) (fGeneratedStakeModifier : Bool) :
    CBlockIndex :=
  { e with
    nStakeModifier := nModifier
    nFlags := if fGeneratedStakeModifier then e.nFlags ||| BLOCK_STAKE_MODIFIER else e.nFlags }

/-- `IsValid(nUpTo)`. -/
def isValid (e : CBlockIndex) (nUpTo : UInt32) : Bool :=
  if e.nStatus &&& BLOCK_FAILED_MASK != 0 then false
  else e.nStatus &&& BLOCK_VALID_MASK ≥ nUpTo

/-- `RaiseValidity(nUpTo)`, returning the entry. -/
def raiseValidity (e : CBlockIndex) (nUpTo : UInt32) : CBlockIndex :=
  if e.nStatus &&& BLOCK_FAILED_MASK != 0 then e
  else if e.nStatus &&& BLOCK_VALID_MASK < nUpTo then
    { e with nStatus := (e.nStatus &&& ~~~BLOCK_VALID_MASK) ||| nUpTo }
  else e

@[simp] theorem raiseValidity_nFlags (e : CBlockIndex) (nUpTo : UInt32) :
    (e.raiseValidity nUpTo).nFlags = e.nFlags := by
  unfold raiseValidity
  split_ifs <;> rfl

@[simp] theorem raiseValidity_nHeight (e : CBlockIndex) (nUpTo : UInt32) :
    (e.raiseValidity nUpTo).nHeight = e.nHeight := by
  unfold raiseValidity
  split_ifs <;> rfl

/-- Raising the validity touches `nStatus` alone. -/
theorem raiseValidity_eq_nStatus (e : CBlockIndex) (nUpTo : UInt32) :
    ∃ nStatus, e.raiseValidity nUpTo = { e with nStatus := nStatus } := by
  unfold raiseValidity
  split_ifs
  · exact ⟨e.nStatus, rfl⟩
  · exact ⟨_, rfl⟩
  · exact ⟨e.nStatus, rfl⟩

/-! ### The setters only set bits -/

theorem nFlags_or_setProofOfStake (e : CBlockIndex) :
    e.setProofOfStake.nFlags = e.nFlags ||| BLOCK_PROOF_OF_STAKE := rfl

theorem nFlags_or_setStakeEntropyBit {e e' : CBlockIndex} {b : UInt32}
    (h : e.setStakeEntropyBit b = some e') :
    e'.nFlags = e.nFlags ||| (if b != 0 then BLOCK_STAKE_ENTROPY else 0) := by
  unfold setStakeEntropyBit at h
  split at h
  · cases h
  · cases h
    rfl

theorem nFlags_or_setStakeModifier (e : CBlockIndex) (m : UInt64) (g : Bool) :
    (e.setStakeModifier m g).nFlags = e.nFlags ||| (if g then BLOCK_STAKE_MODIFIER else 0) := by
  cases g <;> simp [setStakeModifier]

@[simp] theorem nStakeModifier_setStakeModifier (e : CBlockIndex) (m : UInt64) (g : Bool) :
    (e.setStakeModifier m g).nStakeModifier = m := rfl

end CBlockIndex

/-! ## The block map -/

/-- `m_block_index`: block hash to entry. -/
def BlockMap := uint256 → Option CBlockIndex

namespace BlockMap

/-- `pindex->pprev`, followed. -/
def prev (m : BlockMap) (e : CBlockIndex) : Option CBlockIndex := e.pprev.bind m

/-- Store an entry under its own key. -/
def update (m : BlockMap) (e : CBlockIndex) : BlockMap :=
  fun h => if e.phashBlock = some h then some e else m h

/-- A map holding the given entries, each under its own key. -/
def ofList (es : List CBlockIndex) : BlockMap :=
  fun h => es.find? (fun e => e.phashBlock == some h)

/-- `GetAncestor(height)`: null above the entry's own height or below zero,
otherwise the entry reached by following `pprev`.  `pskip` only shortens the
walk and is left out. -/
def getAncestor (m : BlockMap) (pindex : CBlockIndex) (height : Int) : Option CBlockIndex :=
  if height > pindex.nHeight || height < 0 then none
  else go (pindex.nHeight.toNat + 1) pindex
where
  /-- Step back to `height`, with `fuel` bounding the steps. -/
  go : Nat → CBlockIndex → Option CBlockIndex
    | 0, _ => none
    | fuel + 1, p => if p.nHeight == height then some p else (m.prev p).bind (go fuel)

/-- `nMedianTimeSpan`. -/
def nMedianTimeSpan : Nat := 11

/-- The times of `pindex` and the entries before it, at most `k` of them,
latest first. -/
def recentTimes (m : BlockMap) : Nat → Option CBlockIndex → List Int
  | 0, _ => []
  | _ + 1, none => []
  | k + 1, some p => p.getBlockTime :: recentTimes m k (m.prev p)

/-- `GetMedianTimePast()`: the median of the last eleven block times. -/
def getMedianTimePast (m : BlockMap) (pindex : CBlockIndex) : Int :=
  let sorted := (recentTimes m nMedianTimeSpan (some pindex)).insertionSort (· ≤ ·)
  sorted.getD (sorted.length / 2) 0

/-- `GetLastBlockIndex(pindex, fProofOfStake)`: step back while the entry has
a predecessor and is not of the wanted kind. -/
def getLastBlockIndex (m : BlockMap) (fProofOfStake : Bool) : Nat → CBlockIndex → CBlockIndex
  | 0, p => p
  | fuel + 1, p =>
      match m.prev p with
      | some pprev =>
          if p.isProofOfStake != fProofOfStake then getLastBlockIndex m fProofOfStake fuel pprev
          else p
      | none => p

end BlockMap

/-! ## The active chain -/

/-- `CChain`: `vChain`, the pointer at each height. -/
structure CChain where
  vChain : List uint256

namespace CChain

/-- `operator[](nHeight)`: null outside `0 .. Height()`. -/
def get (c : CChain) (nHeight : Int) : Option uint256 :=
  if nHeight < 0 then none else c.vChain[nHeight.toNat]?

/-- `Tip()`. -/
def tip (c : CChain) : Option uint256 := c.vChain.getLast?

/-- `Height()`. -/
def height (c : CChain) : Int := (c.vChain.length : Int) - 1

/-- `Contains(pindex)`: the pointer at the entry's height is the entry. -/
def contains (c : CChain) (pindex : CBlockIndex) : Bool :=
  match c.get pindex.nHeight with
  | some p => some p == pindex.phashBlock
  | none => false

/-- `Next(pindex)`: the entry one height above, if `pindex` is on the chain. -/
def next (c : CChain) (m : BlockMap) (pindex : CBlockIndex) : Option CBlockIndex :=
  if c.contains pindex then (c.get (pindex.nHeight + 1)).bind m else none

end CChain

end Veribase
