import Veribase.Net.BlockDownload
import Veribase.Chain.Fork
import Veribase.Validation.ScriptFlags

/-!
# The blocks to ask a peer for

`SendMessages` (`net_processing.cpp`) asks each peer for blocks through
`FindNextBlocksToDownload`.  The peer's state says how far its chain is known:
`pindexBestKnownBlock` is the best block it announced, and
`pindexLastCommonBlock` a block both chains hold.  The search first brings the
last common block back onto the branch of the best known one
(`LastCommonAncestor`).  It then walks that branch upwards in batches of at
least 128 blocks, each batch found with `GetAncestor` from the best known
block and filled back down through `pprev`.  It takes the blocks that are
neither stored, nor on the active chain, nor in flight, until it has `count`
of them or leaves the window of `BLOCK_DOWNLOAD_WINDOW` blocks above the last
common block.  On the way it moves the last common block up over blocks
already downloaded, and remembers the first peer a block is in flight from:
when the window is full and nothing was found, that peer is the staller.

On a block index that is a tree (`BlockTree.Wf`) with one genesis block, and
an active chain that holds the branch of its tip, the search returns without
a fault (`findNextBlocksToDownload_spec`).  It returns at most `count`
blocks, in order of height.  Each is on the branch of the peer's best known
block, valid as far as its tree, neither stored nor on the active chain nor
in flight, and within the window of the last common block.  The staller is
`-1`, or another peer with a block in flight.  The proof follows the loops:
one lemma for the batch fill (`fillToFetch_spec`), one for the scan of a
batch (`scanToFetch_spec`), built on the invariant `GatheredOk` and one
lemma for each way the scan changes what it has gathered, then the `while`
loop by induction on its fuel (`walkWindows_spec`).

That result is the contract the bookkeeping of `Net.BlockDownload` takes as
given for its `GETDATA` event.  `requestBlocks` is the block request of
`SendMessages` with the search in it, and `requestBlocks_bookkeeping` says
that the bookkeeping holds after it and that no block in flight is taken
from the peer it was asked of.  A run that mixes it with the other events
keeps the bookkeeping too (`nodeEvents_run_bookkeeping`).

The index is `ChainView`: a pointer is an entry of a type `ι`, and `entry`
gives the `CBlockIndex` it points at.  The two loops of the search run on
fuel, as in `Chain.Fork`, and the theorems give the fuel that is enough.
-/

namespace Veribase

open Ancestry

/-- `BLOCK_DOWNLOAD_WINDOW` (`validation.h`). -/
def BLOCK_DOWNLOAD_WINDOW : Nat := 1024

/-- What the download logic reads of the validation state under `cs_main`:
the block index, in which a pointer is an entry `ι`, `::ChainActive()`,
`nMinimumChainWork` and the consensus parameters.  `entry` gives the
`CBlockIndex` fields a pointer leads to, `pprev` and `pskip` the pointers it
holds, and `nChainTx` the field the record of `Chain.BlockIndex` leaves out. -/
structure ChainView (ι : Type) where
  entry : ι → CBlockIndex
  pprev : ι → Option ι
  pskip : ι → Option ι
  nChainTx : ι → Nat
  /-- `LookupBlockIndex(hash)`. -/
  lookupBlockIndex : uint256 → Option ι
  chainActive : BlockTree.CChain ι
  nMinimumChainWork : Nat
  consensusParams : Params

/-- The fields of `CNodeState` that say which blocks a peer has. -/
structure PeerBlocks (ι : Type) where
  /-- The best block the peer is known to have. -/
  pindexBestKnownBlock : Option ι
  /-- The last block the peer announced while it was unknown. -/
  hashLastUnknownBlock : uint256
  /-- A block the peer's chain and the active chain both hold. -/
  pindexLastCommonBlock : Option ι
  /-- Whether the peer can give witnesses. -/
  fHaveWitness : Bool

/-- What the search carries from one block to the next:
`state->pindexLastCommonBlock`, `vBlocks`, `waitingfor` and `nodeStaller`. -/
structure Gathered (ι : Type) where
  pindexLastCommonBlock : ι
  vBlocks : List ι
  waitingfor : NodeId
  nodeStaller : NodeId

/-- `peer` has a block in flight. -/
def HasInFlight (mapBlocksInFlight : AList fun _ : uint256 => NodeId × QueuedBlock)
    (peer : NodeId) : Prop :=
  ∃ hash queued, mapBlocksInFlight.lookup hash = some (peer, queued)

namespace BlockTree.CChain

variable {ι : Type} {t : BlockTree ι} {c : CChain ι}

/-- In a chain holding the branch of `T`, the entry at a height from `0` to
`T`'s is `T`'s ancestor there. -/
theorem get_of_holds {T : ι} (hc : c.Holds t (some T)) {k : Int} (h0 : 0 ≤ k)
    (hk : k ≤ t.nHeight T) : c.get k = walk t.pprev (t.nHeight T - k).toNat T := by
  simp only [Holds] at hc
  unfold get
  rw [hc, length_branch, if_neg (by omega), List.getD_eq_getElem?_getD, getElem?_branch,
    if_pos (by omega), Option.getD_some]
  congr 2
  omega

end BlockTree.CChain

namespace ChainView

variable {ι : Type} (v : ChainView ι)

/-- The pointers of the index and the heights of its entries. -/
def tree : BlockTree ι := ⟨v.pprev, v.pskip, fun i => (v.entry i).nHeight⟩

/-! ## Block availability -/

/-- `if (pindexBestKnownBlock == nullptr || pindex->nChainWork >=
pindexBestKnownBlock->nChainWork) pindexBestKnownBlock = pindex;` -/
def betterKnown (pindex : ι) : Option ι → Option ι
  | none => some pindex
  | some best =>
    if (v.entry pindex).nChainWork ≥ (v.entry best).nChainWork then some pindex else some best

/-- `ProcessBlockAvailability(nodeid)`: once the block last announced while
unknown is in the index with some work, it is weighed against the best known
block, and forgotten. -/
def processBlockAvailability (state : PeerBlocks ι) : PeerBlocks ι :=
  if state.hashLastUnknownBlock.isNull then state
  else
    match v.lookupBlockIndex state.hashLastUnknownBlock with
    | some pindex =>
      if (v.entry pindex).nChainWork > 0 then
        { state with
          pindexBestKnownBlock := v.betterKnown pindex state.pindexBestKnownBlock
          hashLastUnknownBlock := uint256.zero }
      else state
    | none => state

/-- `UpdateBlockAvailability(nodeid, hash)`, at the announcement of `hash`: a
known block with work is weighed against the best known block, an unknown
one is kept as the last unknown block. -/
def updateBlockAvailability (hash : uint256) (state : PeerBlocks ι) : PeerBlocks ι :=
  let state := v.processBlockAvailability state
  match v.lookupBlockIndex hash with
  | some pindex =>
    if (v.entry pindex).nChainWork > 0 then
      { state with pindexBestKnownBlock := v.betterKnown pindex state.pindexBestKnownBlock }
    else { state with hashLastUnknownBlock := hash }
  | none => { state with hashLastUnknownBlock := hash }

/-! ## The search -/

section Search

variable [DecidableEq ι] (mapBlocksInFlight : AList fun _ : uint256 => NodeId × QueuedBlock)
  (nodeid : NodeId) (count : Nat) (fHaveWitness : Bool) (nWindowEnd : Int)

/-- The `for` loop over `vToFetch`: `true` with what it gathered when it
returns from the search, `false` when it runs to the end of the batch.  A
block is stored or on the active chain, and then moves the last common block
up if its transactions are all downloaded; or it is neither and not in
flight, and is taken within the window; or it is in flight, and the first
such names the peer waited for. -/
def scanToFetch : List (Option ι) → Gathered ι → Faulty (Bool × Gathered ι)
  | [], g => .ok (false, g)
  | p :: vToFetch, g =>
    Fault.deref p >>= fun pindex =>
    let e := v.entry pindex
    if !e.isValid BLOCK_VALID_TREE then
      -- the peer's chain is invalid
      .ok (true, g)
    else if !fHaveWitness &&
        isWitnessEnabled ((v.tree.pprev pindex).map fun q => (v.entry q).getBlockHash)
          v.consensusParams then
      .ok (true, g)
    else if e.nStatus &&& BLOCK_HAVE_DATA != 0 || v.chainActive.contains v.tree pindex then
      scanToFetch vToFetch
        (if v.nChainTx pindex != 0 then { g with pindexLastCommonBlock := pindex } else g)
    else
      match mapBlocksInFlight.lookup e.getBlockHash with
      | none =>
        if v.tree.nHeight pindex > nWindowEnd then
          -- nothing fetched, and something would be with a window one larger
          .ok (true, if g.vBlocks.length = 0 ∧ g.waitingfor ≠ nodeid then
            { g with nodeStaller := g.waitingfor } else g)
        else
          let g := { g with vBlocks := g.vBlocks ++ [pindex] }
          if g.vBlocks.length = count then .ok (true, g) else scanToFetch vToFetch g
      | some (peer, _) =>
        scanToFetch vToFetch (if g.waitingfor = -1 then { g with waitingfor := peer } else g)

/-- The batch `vToFetch` of `n` entries ending at `pindexWalk`, filled back
through `vToFetch[i - 1] = vToFetch[i]->pprev`.  An empty batch indexes
`vToFetch[-1]`. -/
def fillToFetch : Nat → Option ι → Faulty (List (Option ι))
  | 0, _ => .error .outOfBounds
  | 1, p => .ok [p]
  | n + 2, p => Fault.deref p >>= fun q => (· ++ [p]) <$> fillToFetch (n + 1) (v.tree.pprev q)

/-- One turn of the `while` loop from `pindexWalk` at `walk`: the next
`nToFetch` blocks towards `best`, at least 128 unless the end is nearer,
scanned; with the new `pindexWalk`.  `count - vBlocks.size()` is a `size_t`
taken in `Nat`, for the search never holds more than `count` blocks;
`std::max<int>` converts it to `int`, modulo `2^32`. -/
def fetchWindow (best : ι) (nMaxHeight : Int) (walk : ι) (g : Gathered ι) :
    Faulty (Option ι × Bool × Gathered ι) :=
  let nToFetch :=
    min (nMaxHeight - v.tree.nHeight walk) (max (((count - g.vBlocks.length : Nat) : Int).bmod (2 ^ 32)) 128)
  v.tree.getAncestor best (v.tree.nHeight walk + nToFetch) >>= fun pindexWalk =>
  fillToFetch v nToFetch.toNat pindexWalk >>= fun vToFetch =>
  (pindexWalk, ·) <$>
    scanToFetch v mapBlocksInFlight nodeid count fHaveWitness nWindowEnd vToFetch g

/-- The `while (pindexWalk->nHeight < nMaxHeight)` loop towards `best`;
`none` once the fuel is spent. -/
def walkWindows (best : ι) (nMaxHeight : Int) : Nat → Option ι → Gathered ι →
    Option (Faulty (Gathered ι))
  | 0, _, _ => none
  | fuel + 1, pindexWalk, g =>
    match Fault.deref pindexWalk with
    | .error e => some (.error e)
    | .ok walk =>
      if v.tree.nHeight walk < nMaxHeight then
        match fetchWindow v mapBlocksInFlight nodeid count fHaveWitness nWindowEnd best nMaxHeight
            walk g with
        | .error e => some (.error e)
        | .ok (_, true, g) => some (.ok g)
        | .ok (pindexWalk, false, g) => walkWindows best nMaxHeight fuel pindexWalk g
      else some (.ok g)

/-- `FindNextBlocksToDownload(nodeid, count, vBlocks, nodeStaller)` for the
peer whose state is `state`: the state it leaves, `vBlocks` and
`nodeStaller`; `none` once the fuel of a loop is spent.  The last common block
starts, when unset, as the active chain's entry at the height of the best
known block, and is brought back to the fork of the two by
`LastCommonAncestor`; the window ends `BLOCK_DOWNLOAD_WINDOW` above it. -/
def findNextBlocksToDownload (fuel : Nat) (vBlocks : List ι) (nodeStaller : NodeId)
    (state : PeerBlocks ι) : Option (Faulty (PeerBlocks ι × List ι × NodeId)) :=
  if count = 0 then some (.ok (state, vBlocks, nodeStaller))
  else
    let state := v.processBlockAvailability state
    match state.pindexBestKnownBlock with
    | none => some (.ok (state, vBlocks, nodeStaller))
    | some best =>
      match Fault.deref (v.chainActive.get v.chainActive.height) with
      | .error e => some (.error e)
      | .ok tip =>
        if (v.entry best).nChainWork < (v.entry tip).nChainWork ∨
            (v.entry best).nChainWork < v.nMinimumChainWork then
          -- the peer has nothing interesting
          some (.ok (state, vBlocks, nodeStaller))
        else
          let guess := state.pindexLastCommonBlock.orElse fun _ =>
            v.chainActive.get (min (v.tree.nHeight best) v.chainActive.height)
          match Fault.deref guess with
          | .error e => some (.error e)
          | .ok pa =>
            match v.tree.lastCommonAncestor fuel pa best with
            | none => none
            | some (.error e) => some (.error e)
            | some (.ok common) =>
              let state := { state with pindexLastCommonBlock := common }
              if common = some best then some (.ok (state, vBlocks, nodeStaller))
              else
                match Fault.deref common with
                | .error e => some (.error e)
                | .ok c =>
                  let nWindowEnd := v.tree.nHeight c + BLOCK_DOWNLOAD_WINDOW
                  let nMaxHeight := min (v.tree.nHeight best) (nWindowEnd + 1)
                  (walkWindows v mapBlocksInFlight nodeid count state.fHaveWitness nWindowEnd best
                      nMaxHeight fuel (some c) ⟨c, vBlocks, -1, nodeStaller⟩).map
                    (Except.map fun g =>
                      ({ state with pindexLastCommonBlock := some g.pindexLastCommonBlock },
                        g.vBlocks, g.nodeStaller))

end Search

/-- The block requests of `SendMessages` for the peer `nodeid` whose block
availability is `peer`: when the peer has room, `FindNextBlocksToDownload`
for that room, then `getDataBlocks` with what it found.  `none` when an
`assert` fails or the fuel of the search is spent. -/
def requestBlocks [DecidableEq ι] (fuel : Nat) (nNow : Int) (nodeid : NodeId)
    (peer : PeerBlocks ι) (s : DownloadState) : Option (Faulty (PeerBlocks ι × DownloadState)) :=
  match s.mapNodeState.lookup nodeid with
  | none => none
  | some state =>
    if state.nBlocksInFlight < MAX_BLOCKS_IN_TRANSIT_PER_PEER then
      match v.findNextBlocksToDownload s.mapBlocksInFlight nodeid
          (MAX_BLOCKS_IN_TRANSIT_PER_PEER - state.nBlocksInFlight).toNat fuel [] (-1) peer with
      | none => none
      | some (.error e) => some (.error e)
      | some (.ok (peer, vToDownload, staller)) =>
        (getDataBlocks nNow nodeid (vToDownload.map fun p => (v.entry p).getBlockHash) staller
          s).map fun s => .ok (peer, s)
    else some (.ok (peer, s))

/-! ## What the search gathers -/

section Invariant

variable (mapBlocksInFlight : AList fun _ : uint256 => NodeId × QueuedBlock) (nodeid : NodeId)
  (best : ι) (nWindowEnd : Int) [DecidableEq ι]

/-- A block the search may ask for: on the branch of `best`, valid as far as
its tree, neither stored nor on the active chain, and not in flight. -/
structure Wanted (p : ι) : Prop where
  below : Below v.tree.pprev p best
  valid : (v.entry p).isValid BLOCK_VALID_TREE = true
  not_stored : (v.entry p).nStatus &&& BLOCK_HAVE_DATA = 0
  not_active : v.chainActive.contains v.tree p = false
  not_inFlight : mapBlocksInFlight.lookup (v.entry p).getBlockHash = none

/-- The invariant of the search on its way up the branch of `best`, with `lo`
the height it has scanned to: the last common block is on the branch and
keeps the window; the blocks gathered are wanted, within the window, no
higher than `lo`, and rise in height; the peer waited for and the staller
each have a block in flight, and the staller is another peer. -/
structure GatheredOk (g : Gathered ι) (lo : Int) : Prop where
  common : Below v.tree.pprev g.pindexLastCommonBlock best
  window : nWindowEnd ≤ v.tree.nHeight g.pindexLastCommonBlock + BLOCK_DOWNLOAD_WINDOW
  wanted : ∀ p ∈ g.vBlocks, v.Wanted mapBlocksInFlight best p
  le_window : ∀ p ∈ g.vBlocks, v.tree.nHeight p ≤ nWindowEnd
  le : ∀ p ∈ g.vBlocks, v.tree.nHeight p ≤ lo
  sorted : g.vBlocks.Pairwise fun p q => v.tree.nHeight p < v.tree.nHeight q
  waitingfor : g.waitingfor = -1 ∨ HasInFlight mapBlocksInFlight g.waitingfor
  nodeStaller :
    g.nodeStaller = -1 ∨ g.nodeStaller ≠ nodeid ∧ HasInFlight mapBlocksInFlight g.nodeStaller

namespace GatheredOk

variable {v mapBlocksInFlight nodeid best nWindowEnd} {g : Gathered ι} {lo : Int}
  (h : v.GatheredOk mapBlocksInFlight nodeid best nWindowEnd g lo)
include h

theorem mono {hi : Int} (hle : lo ≤ hi) :
    v.GatheredOk mapBlocksInFlight nodeid best nWindowEnd g hi :=
  { h with le := fun p hp => (h.le p hp).trans hle }

/-- The last common block moves up to a block of the branch at least as high. -/
theorem setCommon {x : ι} (hx : Below v.tree.pprev x best)
    (hwin : nWindowEnd ≤ v.tree.nHeight x + BLOCK_DOWNLOAD_WINDOW) :
    v.GatheredOk mapBlocksInFlight nodeid best nWindowEnd
      { g with pindexLastCommonBlock := x } lo :=
  { h with common := hx, window := hwin }

/-- A wanted block within the window and above every block gathered is taken. -/
theorem push {x : ι} (hx : v.Wanted mapBlocksInFlight best x)
    (hwin : v.tree.nHeight x ≤ nWindowEnd) (hlt : lo < v.tree.nHeight x) :
    v.GatheredOk mapBlocksInFlight nodeid best nWindowEnd { g with vBlocks := g.vBlocks ++ [x] }
      (v.tree.nHeight x) where
  common := h.common
  window := h.window
  wanted := by
    intro p hp
    rcases List.mem_append.mp hp with hp | hp
    · exact h.wanted p hp
    · rw [List.mem_singleton.mp hp]
      exact hx
  le_window := by
    intro p hp
    rcases List.mem_append.mp hp with hp | hp
    · exact h.le_window p hp
    · rw [List.mem_singleton.mp hp]
      exact hwin
  le := by
    intro p hp
    rcases List.mem_append.mp hp with hp | hp
    · exact (h.le p hp).trans hlt.le
    · rw [List.mem_singleton.mp hp]
  sorted := by
    refine List.pairwise_append.mpr ⟨h.sorted, List.pairwise_singleton _ _, ?_⟩
    intro p hp q hq
    rw [List.mem_singleton.mp hq]
    exact lt_of_le_of_lt (h.le p hp) hlt
  waitingfor := h.waitingfor
  nodeStaller := h.nodeStaller

/-- The first block in flight names the peer it is in flight from. -/
theorem setWaiting {peer : NodeId} (hpeer : HasInFlight mapBlocksInFlight peer) :
    v.GatheredOk mapBlocksInFlight nodeid best nWindowEnd { g with waitingfor := peer } lo :=
  { h with waitingfor := .inr hpeer }

/-- The peer waited for, when it is another one, becomes the staller. -/
theorem setStaller (hne : g.waitingfor ≠ nodeid) :
    v.GatheredOk mapBlocksInFlight nodeid best nWindowEnd
      { g with nodeStaller := g.waitingfor } lo :=
  { h with
    nodeStaller := by
      rcases h.waitingfor with hw | hw
      · exact .inl hw
      · exact .inr ⟨hne, hw⟩ }

end GatheredOk

end Invariant

/-! ## The loops -/

section Loops

variable {v} [DecidableEq ι] {mapBlocksInFlight : AList fun _ : uint256 => NodeId × QueuedBlock}
  {nodeid : NodeId} {count : Nat} (fHaveWitness : Bool) {nWindowEnd : Int} {best : ι}

/-- **The scan of a batch keeps the invariant.**  The batch lies on the branch
of `best` above the height `lo` scanned to, no higher than `hi`, and rises in
height; by induction on it, each block is one of the four cases of the loop
body, each kept by one lemma of `GatheredOk`. -/
theorem scanToFetch_spec {hi : Int} :
    ∀ (xs : List ι) (g : Gathered ι) (lo : Int),
      v.GatheredOk mapBlocksInFlight nodeid best nWindowEnd g lo → lo ≤ hi →
      nWindowEnd ≤ lo + BLOCK_DOWNLOAD_WINDOW →
      (∀ x ∈ xs, Below v.tree.pprev x best ∧ lo < v.tree.nHeight x ∧ v.tree.nHeight x ≤ hi) →
      xs.Pairwise (fun x y => v.tree.nHeight x < v.tree.nHeight y) → g.vBlocks.length < count →
      ∃ stop g', v.scanToFetch mapBlocksInFlight nodeid count fHaveWitness nWindowEnd
          (xs.map some) g = .ok (stop, g') ∧
        v.GatheredOk mapBlocksInFlight nodeid best nWindowEnd g' hi ∧ g'.vBlocks.length ≤ count ∧
        (stop = false → g'.vBlocks.length < count)
  | [], g, _, h, hle, _, _, _, hlen => ⟨false, g, rfl, h.mono hle, hlen.le, fun _ => hlen⟩
  | x :: xs, g, lo, h, hle, hwin, hxs, hsorted, hlen => by
    obtain ⟨hxbelow, hlox, hxhi⟩ := hxs x List.mem_cons_self
    obtain ⟨hxlt, hsorted'⟩ := List.pairwise_cons.mp hsorted
    have hrest : ∀ y ∈ xs, Below v.tree.pprev y best ∧ v.tree.nHeight x < v.tree.nHeight y ∧
        v.tree.nHeight y ≤ hi :=
      fun y hy => ⟨(hxs y (List.mem_cons_of_mem x hy)).1, hxlt y hy,
        (hxs y (List.mem_cons_of_mem x hy)).2.2⟩
    simp only [List.map_cons, scanToFetch, Fault.deref_some, Fault.ok_bind, isWitnessEnabled,
      Bool.and_false, Bool.false_eq_true, if_false]
    by_cases hvalid : (v.entry x).isValid BLOCK_VALID_TREE = true
    swap
    · -- a block off a valid tree ends the search
      exact ⟨true, g, by simp [hvalid], h.mono hle, hlen.le, by simp⟩
    rw [if_neg (by simp [hvalid])]
    by_cases hstored : ((v.entry x).nStatus &&& BLOCK_HAVE_DATA != 0 ||
        v.chainActive.contains v.tree x) = true
    · -- stored or on the active chain: the last common block may move up to it
      rw [if_pos hstored]
      have hok : v.GatheredOk mapBlocksInFlight nodeid best nWindowEnd
          (if v.nChainTx x != 0 then { g with pindexLastCommonBlock := x } else g)
          (v.tree.nHeight x) := by
        split
        · exact (h.setCommon hxbelow (by omega)).mono hlox.le
        · exact h.mono hlox.le
      exact scanToFetch_spec xs _ _ hok hxhi (by omega) hrest hsorted' (by split <;> exact hlen)
    rw [if_neg hstored]
    simp only [Bool.or_eq_true, bne_iff_ne, ne_eq, not_or, not_not, Bool.not_eq_true] at hstored
    cases hlook : mapBlocksInFlight.lookup (v.entry x).getBlockHash with
    | none =>
      simp only
      by_cases hend : v.tree.nHeight x > nWindowEnd
      · -- the end of the window
        rw [if_pos hend]
        refine ⟨true, _, rfl, ?_, ?_, by simp⟩
        · split
          · rename_i hstall
            exact (h.setStaller hstall.2).mono hle
          · exact h.mono hle
        · split <;> exact hlen.le
      · rw [if_neg hend]
        have hpush := h.push ⟨hxbelow, hvalid, hstored.1, hstored.2, hlook⟩ (by omega) hlox
        by_cases hfull : (g.vBlocks ++ [x]).length = count
        · exact ⟨true, _, by simp only [hfull, if_true], hpush.mono hxhi, hfull.le, by simp⟩
        · rw [if_neg hfull]
          exact scanToFetch_spec xs _ _ hpush hxhi (by omega) hrest hsorted'
            (by simp only [List.length_append, List.length_singleton] at hfull ⊢; omega)
    | some entry =>
      obtain ⟨peer, queued⟩ := entry
      simp only
      have hok : v.GatheredOk mapBlocksInFlight nodeid best nWindowEnd
          (if g.waitingfor = -1 then { g with waitingfor := peer } else g) (v.tree.nHeight x) := by
        split
        · exact (h.setWaiting ⟨_, queued, hlook⟩).mono hlox.le
        · exact h.mono hlox.le
      exact scanToFetch_spec xs _ _ hok hxhi (by omega) hrest hsorted' (by split <;> exact hlen)

variable (hwf : v.tree.Wf)
include hwf

omit [DecidableEq ι] in
/-- **The batch is the branch below `pindexWalk`.**  Filling `n` entries back
from an entry at least `n - 1` high gives its ancestors, rising in height to
it, without a null `pprev`; by induction on `n`, since above height zero
every entry has a parent. -/
theorem fillToFetch_spec :
    ∀ (n : ℕ) (a : ι), 0 < n → (n : Int) ≤ v.tree.nHeight a + 1 →
      ∃ xs : List ι, v.fillToFetch n (some a) = .ok (xs.map some) ∧
        (∀ x ∈ xs, Below v.tree.pprev x a ∧ v.tree.nHeight a - n < v.tree.nHeight x) ∧
        xs.Pairwise (fun x y => v.tree.nHeight x < v.tree.nHeight y)
  | 0, _, hn, _ => absurd hn (lt_irrefl 0)
  | 1, a, _, _ => ⟨[a], rfl, by simp [Below.refl], List.pairwise_singleton _ _⟩
  | n + 2, a, _, hn => by
    -- above height zero the entry has a parent
    obtain ⟨a', ha'⟩ : ∃ a', v.tree.pprev a = some a' := by
      cases hp : v.tree.pprev a with
      | none =>
        have := hwf.nHeight_root a hp
        omega
      | some a' => exact ⟨a', rfl⟩
    have hh := hwf.nHeight_pprev a a' ha'
    obtain ⟨xs, hfill, hmem, hsorted⟩ := fillToFetch_spec (n + 1) a' (by omega) (by omega)
    refine ⟨xs ++ [a], ?_, ?_, ?_⟩
    · simp [fillToFetch, ha', hfill]
    · intro x hx
      rcases List.mem_append.mp hx with hx | hx
      · obtain ⟨hb, hlt⟩ := hmem x hx
        exact ⟨hb.trans (Below.of_up ha'), by omega⟩
      · rw [List.mem_singleton.mp hx]
        exact ⟨Below.refl a, by omega⟩
    · refine List.pairwise_append.mpr ⟨hsorted, List.pairwise_singleton _ _, ?_⟩
      intro x hx y hy
      rw [List.mem_singleton.mp hy]
      have := (hmem x hx).1.height_le hwf.nHeight_pprev
      omega

variable {root : ι} (hgen : ∀ i, Below v.tree.pprev root i)
include hgen

/-- **One turn of the `while` loop.**  From a `pindexWalk` below `nMaxHeight`,
the batch is the next blocks of the branch of `best`, at least one, and the
scan keeps the invariant up to the new `pindexWalk`. -/
theorem fetchWindow_spec {nMaxHeight : Int} (hmax : nMaxHeight ≤ v.tree.nHeight best) {w : ι}
    {g : Gathered ι} (hlt : v.tree.nHeight w < nMaxHeight)
    (h : v.GatheredOk mapBlocksInFlight nodeid best nWindowEnd g (v.tree.nHeight w))
    (hwin : nWindowEnd ≤ v.tree.nHeight w + BLOCK_DOWNLOAD_WINDOW)
    (hlen : g.vBlocks.length < count) :
    ∃ a stop g', v.fetchWindow mapBlocksInFlight nodeid count fHaveWitness nWindowEnd best
        nMaxHeight w g = .ok (some a, stop, g') ∧ v.tree.nHeight w < v.tree.nHeight a ∧
      v.GatheredOk mapBlocksInFlight nodeid best nWindowEnd g' (v.tree.nHeight a) ∧
      g'.vBlocks.length ≤ count ∧ (stop = false → g'.vBlocks.length < count) := by
  have hw0 := BlockTree.nHeight_nonneg hwf hgen w
  -- the batch has at least one block and ends no higher than `nMaxHeight`
  obtain ⟨n, hn⟩ : ∃ n, min (nMaxHeight - v.tree.nHeight w)
      (max (((count - g.vBlocks.length : Nat) : Int).bmod (2 ^ 32)) 128) = n := ⟨_, rfl⟩
  have hn1 : 1 ≤ n := hn ▸ le_min (by omega) (le_max_of_le_right (by norm_num))
  have hnle : n ≤ nMaxHeight - v.tree.nHeight w := hn ▸ min_le_left _ _
  -- out of the context while `omega` runs: it would unfold the `bmod` of the conversion
  revert hn
  obtain ⟨a, hwalk, hanc⟩ := BlockTree.getAncestor_of_wf hwf
    (show 0 ≤ v.tree.nHeight w + n by omega) (show _ ≤ v.tree.nHeight best by omega)
  have ha := height_walk hwf.nHeight_pprev hwalk
  have habest : Below v.tree.pprev a best := ⟨_, hwalk⟩
  obtain ⟨xs, hfill, hmem, hsorted⟩ := fillToFetch_spec hwf n.toNat a (by omega) (by omega)
  have hxs : ∀ x ∈ xs, Below v.tree.pprev x best ∧ v.tree.nHeight w < v.tree.nHeight x ∧
      v.tree.nHeight x ≤ v.tree.nHeight a := by
    intro x hx
    obtain ⟨hxa, hxlt⟩ := hmem x hx
    exact ⟨hxa.trans habest, by omega, hxa.height_le hwf.nHeight_pprev⟩
  obtain ⟨stop, g', hscan, hok, hlen'⟩ :=
    scanToFetch_spec fHaveWitness xs g _ h (by omega) hwin hxs hsorted hlen
  have hwa : v.tree.nHeight w < v.tree.nHeight a := by omega
  intro hn
  refine ⟨a, stop, g', ?_, hwa, hok, hlen'⟩
  simp only [fetchWindow, hn, hanc, Fault.ok_bind, hfill, hscan]
  rfl

/-- **The `while` loop keeps the invariant**, by induction on its fuel: each
turn moves `pindexWalk` up the branch, so fuel above the distance to
`nMaxHeight` is enough. -/
theorem walkWindows_spec {nMaxHeight : Int} (hmax : nMaxHeight ≤ v.tree.nHeight best) :
    ∀ (fuel : ℕ) (w : ι) (g : Gathered ι),
      v.GatheredOk mapBlocksInFlight nodeid best nWindowEnd g (v.tree.nHeight w) →
      nWindowEnd ≤ v.tree.nHeight w + BLOCK_DOWNLOAD_WINDOW → g.vBlocks.length < count →
      (nMaxHeight - v.tree.nHeight w).toNat < fuel →
      ∃ g' lo, v.walkWindows mapBlocksInFlight nodeid count fHaveWitness nWindowEnd best nMaxHeight
          fuel (some w) g = some (.ok g') ∧
        v.GatheredOk mapBlocksInFlight nodeid best nWindowEnd g' lo ∧ g'.vBlocks.length ≤ count
  | 0, _, _, _, _, _, hfuel => absurd hfuel (Nat.not_lt_zero _)
  | fuel + 1, w, g, h, hwin, hlen, hfuel => by
    simp only [walkWindows, Fault.deref_some]
    by_cases hlt : v.tree.nHeight w < nMaxHeight
    · rw [if_pos hlt]
      obtain ⟨a, stop, g', hfetch, hwa, hok, hlen', hcont⟩ :=
        fetchWindow_spec fHaveWitness hwf hgen hmax hlt h hwin hlen
      rw [hfetch]
      cases stop with
      | true => exact ⟨g', _, rfl, hok, hlen'⟩
      | false =>
        exact walkWindows_spec hmax fuel a g' hok (by omega) (hcont rfl) (by omega)
    · rw [if_neg hlt]
      exact ⟨g, _, rfl, h, hlen.le⟩

end Loops

/-! ## The search -/

section Spec

variable {v} [DecidableEq ι] {root : ι} (hwf : v.tree.Wf) (hgen : ∀ i, Below v.tree.pprev root i)
  {T : ι} (hchain : v.chainActive.Holds v.tree (some T)) {fuel : ℕ}
  (hfuel : ∀ i, (v.tree.nHeight i).toNat < fuel)
include hwf hgen hchain hfuel

/-- What the search ends with, from an empty `vBlocks` and no staller: no
block and no staller when it returns early, or else the blocks and staller
of a walk that kept `GatheredOk` for the best known block, with the last
common block the walk leaves. -/
theorem findNextBlocksToDownload_gathered
    (mapBlocksInFlight : AList fun _ : uint256 => NodeId × QueuedBlock) (nodeid : NodeId)
    (count : ℕ) (state : PeerBlocks ι) :
    ∃ state' blocks staller,
      v.findNextBlocksToDownload mapBlocksInFlight nodeid count fuel [] (-1) state =
        some (.ok (state', blocks, staller)) ∧
      blocks.length ≤ count ∧
      (blocks = [] ∧ staller = -1 ∨
        ∃ (best : ι) (nWindowEnd lo : Int) (g : Gathered ι),
          state'.pindexBestKnownBlock = some best ∧
          state'.pindexLastCommonBlock = some g.pindexLastCommonBlock ∧ g.vBlocks = blocks ∧
          g.nodeStaller = staller ∧
          v.GatheredOk mapBlocksInFlight nodeid best nWindowEnd g lo) := by
  unfold findNextBlocksToDownload
  by_cases hcount : count = 0
  · exact ⟨state, [], -1, by simp [hcount], by simp, .inl ⟨rfl, rfl⟩⟩
  rw [if_neg hcount]
  dsimp only
  cases hbest : (v.processBlockAvailability state).pindexBestKnownBlock with
  | none => exact ⟨_, [], -1, rfl, by simp, .inl ⟨rfl, rfl⟩⟩
  | some best =>
    have hT := BlockTree.nHeight_nonneg hwf hgen T
    have hb0 := BlockTree.nHeight_nonneg hwf hgen best
    have hheight := BlockTree.CChain.height_of_holds hwf hgen hchain
    -- `Tip()` is the chain's tip
    have htip : v.chainActive.get v.chainActive.height = some T := by
      rw [hheight, BlockTree.CChain.get_of_holds hchain hT le_rfl]
      simp
    simp only [htip, Fault.deref_some]
    by_cases hwork : (v.entry best).nChainWork < (v.entry T).nChainWork ∨
        (v.entry best).nChainWork < v.nMinimumChainWork
    · exact ⟨_, [], -1, by rw [if_pos hwork], by simp, .inl ⟨rfl, rfl⟩⟩
    rw [if_neg hwork]
    -- the last common block to start from: the peer's, or the active chain's
    -- entry at the height of the best known block
    obtain ⟨pa, hpa⟩ : ∃ pa, (v.processBlockAvailability state).pindexLastCommonBlock.orElse
        (fun _ => v.chainActive.get (min (v.tree.nHeight best) v.chainActive.height)) =
          some pa := by
      cases (v.processBlockAvailability state).pindexLastCommonBlock with
      | some p => exact ⟨p, rfl⟩
      | none =>
        rw [Option.orElse_none, hheight,
          BlockTree.CChain.get_of_holds hchain (by omega) (min_le_right _ _)]
        exact exists_walk hwf.nHeight_pprev hwf.nHeight_root (by omega)
    obtain ⟨c, hdeep, hlca⟩ := BlockTree.lastCommonAncestor_spec hwf hgen pa best
    simp only [hpa, Fault.deref_some, hlca fuel (hfuel pa)]
    by_cases hcb : c = best
    · exact ⟨_, [], -1, by rw [if_pos (by rw [hcb])], by simp, .inl ⟨rfl, rfl⟩⟩
    rw [if_neg (by simpa using hcb)]
    -- the walk starts at the fork, with nothing gathered
    have hok₀ : v.GatheredOk mapBlocksInFlight nodeid best
        (v.tree.nHeight c + BLOCK_DOWNLOAD_WINDOW) ⟨c, [], -1, -1⟩ (v.tree.nHeight c) :=
      ⟨hdeep.2.1, le_rfl, by simp, by simp, by simp, by simp, .inl rfl, .inl rfl⟩
    have hc0 := BlockTree.nHeight_nonneg hwf hgen c
    obtain ⟨g', lo, hwalk, hok, hlen⟩ :=
      walkWindows_spec (v.processBlockAvailability state).fHaveWitness hwf hgen
        (min_le_left _ _) fuel c ⟨c, [], -1, -1⟩ hok₀ le_rfl (Nat.pos_of_ne_zero hcount)
        (by have := hfuel best; omega)
    exact ⟨_, g'.vBlocks, g'.nodeStaller, by rw [hwalk]; rfl, hlen,
      .inr ⟨best, _, lo, g', rfl, rfl, rfl, rfl, hok⟩⟩

/-- **What `FindNextBlocksToDownload` returns.**  On a block index that is a
tree with one genesis block, with the active chain holding the branch of its
tip and fuel above every height, the search for a peer, from an empty
`vBlocks` and no staller, returns without a fault.  It returns at most
`count` blocks, rising in height, each on the branch of the peer's best known
block, valid as far as its tree, neither stored nor on the active chain nor
in flight, and no more than `BLOCK_DOWNLOAD_WINDOW` above the last common
block it leaves; and the staller is `-1` or another peer with a block in
flight. -/
theorem findNextBlocksToDownload_spec
    (mapBlocksInFlight : AList fun _ : uint256 => NodeId × QueuedBlock) (nodeid : NodeId)
    (count : ℕ) (state : PeerBlocks ι) :
    ∃ state' blocks staller,
      v.findNextBlocksToDownload mapBlocksInFlight nodeid count fuel [] (-1) state =
        some (.ok (state', blocks, staller)) ∧
      blocks.length ≤ count ∧
      blocks.Pairwise (fun p q => v.tree.nHeight p < v.tree.nHeight q) ∧
      (∀ p ∈ blocks, ∃ best lc, state'.pindexBestKnownBlock = some best ∧
        state'.pindexLastCommonBlock = some lc ∧ v.Wanted mapBlocksInFlight best p ∧
        v.tree.nHeight p ≤ v.tree.nHeight lc + BLOCK_DOWNLOAD_WINDOW) ∧
      (staller = -1 ∨ staller ≠ nodeid ∧ HasInFlight mapBlocksInFlight staller) := by
  obtain ⟨state', blocks, staller, hrun, hlen, hend⟩ :=
    findNextBlocksToDownload_gathered hwf hgen hchain hfuel mapBlocksInFlight nodeid count state
  refine ⟨state', blocks, staller, hrun, hlen, ?_⟩
  rcases hend with ⟨rfl, rfl⟩ | ⟨best, nWindowEnd, lo, g, hbest, hlc, rfl, rfl, hok⟩
  · -- an early return gathers nothing
    simp
  · -- the window ends where the last common block the walk leaves allows
    refine ⟨hok.sorted, fun p hp => ?_, hok.nodeStaller⟩
    exact ⟨best, g.pindexLastCommonBlock, hbest, hlc, hok.wanted p hp,
      (hok.le_window p hp).trans hok.window⟩

end Spec

end ChainView

/-- The fork of `Chain.Fork` as the node holds it: the active chain runs to
`2`, and `3`, the tip of the branch that leaves it after `1`, is known with as
much work but not stored.  Every entry is valid as far as its tree and has a
hash of its own. -/
def forkView : ChainView (Fin 4) where
  entry i := { CBlockIndex.ofHeader CBlockHeader.null with
    phashBlock := some (uint256.arithToUint256 i.val)
    nHeight := forkTree.nHeight i
    nStatus := if i.val = 3 then BLOCK_VALID_TREE else BLOCK_VALID_TREE ||| BLOCK_HAVE_DATA
    nChainWork := (forkTree.nHeight i).toNat + 1 }
  pprev := forkTree.pprev
  pskip := forkTree.pskip
  nChainTx i := if i.val = 3 then 0 else 1
  lookupBlockIndex _ := none
  -- the branch of `2`: the entries `0`, `1` and `2`
  chainActive := ⟨(List.finRange 3).map fun k => some k.castSucc⟩
  nMinimumChainWork := 0
  consensusParams := vericoinParams uint256.zero uint256.zero uint256.zero []

/-- A peer whose best block is `3`. -/
def forkPeer : PeerBlocks (Fin 4) := ⟨some (Fin.last 3), uint256.zero, none, false⟩

/-- The search for a peer on the other branch of the fork, with nothing in
flight. -/
theorem findNextBlocksToDownload_spec_fork :
    forkView.tree.Wf ∧ (∀ i, Below forkView.tree.pprev 0 i) ∧
      forkView.chainActive.Holds forkView.tree (some 2) ∧
      (∀ i, (forkView.tree.nHeight i).toNat < 3) ∧
      ∃ state' blocks staller,
        forkView.findNextBlocksToDownload ∅ 0 16 3 [] (-1) forkPeer =
          some (.ok (state', blocks, staller)) ∧
        blocks.length ≤ 16 ∧
        blocks.Pairwise (fun p q => forkView.tree.nHeight p < forkView.tree.nHeight q) ∧
        (∀ p ∈ blocks, ∃ best lc, state'.pindexBestKnownBlock = some best ∧
          state'.pindexLastCommonBlock = some lc ∧ forkView.Wanted ∅ best p ∧
          forkView.tree.nHeight p ≤ forkView.tree.nHeight lc + BLOCK_DOWNLOAD_WINDOW) ∧
        (staller = -1 ∨ staller ≠ 0 ∧ HasInFlight ∅ staller) :=
  ⟨forkTree_wf, forkTree_genesis, rfl, by decide,
    ChainView.findNextBlocksToDownload_spec (v := forkView) (T := 2) forkTree_wf forkTree_genesis
      rfl (by decide) ∅ 0 16
      forkPeer⟩

/-! ## The block requests of `SendMessages` -/

section Requests

variable {nNow : Int} {nodeid : NodeId}

/-- `MarkBlockAsInFlight` of a block in flight from no other peer changes no
other entry of `mapBlocksInFlight`, keeps the block's entry if it had one,
and leaves the block in flight from this peer. -/
theorem markBlockAsInFlight_inFlight {hash : uint256} {f fNew : Bool} {s s' : DownloadState}
    (hfree : ∀ e, s.mapBlocksInFlight.lookup hash = some e → e.1 = nodeid)
    (hrun : markBlockAsInFlight nNow nodeid hash f s = some (fNew, s')) :
    (∀ k, k ≠ hash → s'.mapBlocksInFlight.lookup k = s.mapBlocksInFlight.lookup k) ∧
    (∀ e, s.mapBlocksInFlight.lookup hash = some e → s'.mapBlocksInFlight.lookup hash = some e) ∧
    ∀ e, s'.mapBlocksInFlight.lookup hash = some e → e.1 = nodeid := by
  cases hstate : s.mapNodeState.lookup nodeid with
  | none => simp [markBlockAsInFlight, hstate] at hrun
  | some state =>
    cases hlook : s.mapBlocksInFlight.lookup hash with
    | some e =>
      -- in flight from this peer already: nothing changes
      have hany : (s.mapBlocksInFlight.lookup hash).any (·.1 == nodeid) = true := by
        simp [hlook, hfree e hlook]
      simp only [markBlockAsInFlight, hstate, hany, Option.bind_eq_bind, Option.bind_some,
        if_true, Option.pure_def, Option.some.injEq, Prod.mk.injEq] at hrun
      rw [← hrun.2, hlook]
      exact ⟨fun _ _ => rfl, fun _ h => h, fun e' he' => hfree e' (hlook ▸ he')⟩
    | none =>
      -- not in flight: `MarkBlockAsReceived` changes nothing, and the block is added
      have hrecv : DownloadState.markBlockAsReceived nNow hash s = some (false, s) := by
        simp [DownloadState.markBlockAsReceived, hlook]
      simp only [markBlockAsInFlight, hstate, hlook, hrecv, Option.any_none, Bool.false_eq_true,
        if_false, Option.bind_eq_bind, Option.bind_some, Option.pure_def, Option.some.injEq,
        Prod.mk.injEq] at hrun
      rw [← hrun.2]
      simp only [Tally.insertNew_of_lookup_none hlook]
      refine ⟨fun k hk => AList.lookup_insert_ne hk, by simp, ?_⟩
      intro e he
      rw [AList.lookup_insert, Option.some.injEq] at he
      rw [← he]

/-- The loop of `SendMessages` over blocks in flight from no other peer keeps
every entry `mapBlocksInFlight` had: the first of them to be marked is added
from this peer, and a repeat of it finds it there. -/
theorem markEachInFlight_keeps :
    ∀ (hashes : List uint256) {s s' : DownloadState},
      (∀ hash ∈ hashes, ∀ e, s.mapBlocksInFlight.lookup hash = some e → e.1 = nodeid) →
      markEachInFlight nNow nodeid hashes s = some s' →
      ∀ k e, s.mapBlocksInFlight.lookup k = some e → s'.mapBlocksInFlight.lookup k = some e
  | [], s, s', _, hrun => by
    simp only [markEachInFlight, Option.some.injEq] at hrun
    subst hrun
    exact fun _ _ h => h
  | hash :: hashes, s, s', hfree, hrun => by
    simp only [markEachInFlight, Option.bind_eq_bind, Option.bind_eq_some_iff] at hrun
    obtain ⟨⟨fNew, s₁⟩, hmark, hrest⟩ := hrun
    obtain ⟨hother, hsame, hmine⟩ :=
      markBlockAsInFlight_inFlight (hfree hash List.mem_cons_self) hmark
    have hfree₁ : ∀ h ∈ hashes, ∀ e, s₁.mapBlocksInFlight.lookup h = some e → e.1 = nodeid := by
      intro h hh e he
      by_cases heq : h = hash
      · subst heq
        exact hmine e he
      · rw [hother h heq] at he
        exact hfree h (List.mem_cons_of_mem _ hh) e he
    intro k e hk
    apply markEachInFlight_keeps hashes hfree₁ hrest
    by_cases heq : k = hash
    · subst heq
      exact hsame e hk
    · rw [hother k heq]
      exact hk

/-- The block requests of `SendMessages` keep every entry of
`mapBlocksInFlight` when no block asked for is in flight from another peer:
the staller's mark touches only its state. -/
theorem getDataBlocks_keeps {vToDownload : List uint256} {staller : NodeId} {s s' : DownloadState}
    (hfree : ∀ hash ∈ vToDownload, ∀ e, s.mapBlocksInFlight.lookup hash = some e → e.1 = nodeid)
    (hrun : getDataBlocks nNow nodeid vToDownload staller s = some s') :
    ∀ k e, s.mapBlocksInFlight.lookup k = some e → s'.mapBlocksInFlight.lookup k = some e := by
  unfold getDataBlocks at hrun
  cases hstate : s.mapNodeState.lookup nodeid with
  | none => simp [hstate] at hrun
  | some state =>
    simp only [hstate, Option.bind_eq_bind, Option.bind_some] at hrun
    split at hrun
    · cases hmark : markEachInFlight nNow nodeid vToDownload s with
      | none => simp [hmark] at hrun
      | some s₁ =>
        simp only [hmark, Option.bind_some] at hrun
        -- the staller's mark writes its state only
        have hs' : s'.mapBlocksInFlight = s₁.mapBlocksInFlight := by
          rw [Option.bind_eq_some_iff] at hrun
          obtain ⟨state₁, -, hrun⟩ := hrun
          split at hrun
          · rw [Option.bind_eq_some_iff] at hrun
            obtain ⟨stallerState, -, hrun⟩ := hrun
            split at hrun <;>
            · simp only [Option.pure_def, Option.some.injEq] at hrun
              subst hrun
              rfl
          · simp only [Option.pure_def, Option.some.injEq] at hrun
            subst hrun
            rfl
        rw [hs']
        exact markEachInFlight_keeps vToDownload hfree hmark
    · simp only [Option.pure_def, Option.some.injEq] at hrun
      subst hrun
      exact fun _ _ h => h

end Requests

section Bookkeeping

variable {ι : Type} [DecidableEq ι] {v : ChainView ι} {root : ι} (hwf : v.tree.Wf)
  (hgen : ∀ i, Below v.tree.pprev root i) {T : ι} (hchain : v.chainActive.Holds v.tree (some T))
  {fuel : ℕ} (hfuel : ∀ i, (v.tree.nHeight i).toNat < fuel)
include hwf hgen hchain hfuel

/-- What the block request of `SendMessages` does: it succeeds, keeps the
bookkeeping, and leaves every block in flight from the peer it was asked
of. -/
theorem DownloadState.Bookkeeping.requestBlocks {s : DownloadState} (h : s.Bookkeeping)
    {nodeid : NodeId} (hmem : nodeid ∈ s.mapNodeState) (nNow : Int) (peer : PeerBlocks ι) :
    ∃ peer' s', v.requestBlocks fuel nNow nodeid peer s = some (.ok (peer', s')) ∧ s'.Bookkeeping ∧
      ∀ hash entry, s.mapBlocksInFlight.lookup hash = some entry →
        s'.mapBlocksInFlight.lookup hash = some entry := by
  obtain ⟨state, hstate⟩ := Option.isSome_iff_exists.mp (AList.lookup_isSome.mpr hmem)
  by_cases hroom : state.nBlocksInFlight < MAX_BLOCKS_IN_TRANSIT_PER_PEER
  · obtain ⟨peer', blocks, staller, hfind, hlen, hend⟩ :=
      ChainView.findNextBlocksToDownload_gathered hwf hgen hchain hfuel s.mapBlocksInFlight nodeid
        (MAX_BLOCKS_IN_TRANSIT_PER_PEER - state.nBlocksInFlight).toNat peer
    -- what the search found fits the room, none of it is in flight, and the
    -- staller has a block in flight
    have hlen' : ((blocks.map fun p => (v.entry p).getBlockHash).length : Int) ≤
        MAX_BLOCKS_IN_TRANSIT_PER_PEER - state.nBlocksInFlight := by
      rw [List.length_map]
      omega
    have hfree : ∀ hash ∈ blocks.map (fun p => (v.entry p).getBlockHash), ∀ e,
        s.mapBlocksInFlight.lookup hash = some e → e.1 = nodeid := by
      intro hash hh e he
      obtain ⟨p, hp, rfl⟩ := List.mem_map.mp hh
      rcases hend with ⟨rfl, -⟩ | ⟨_, _, _, g, -, -, rfl, -, hok⟩
      · cases hp
      · rw [(hok.wanted p hp).not_inFlight] at he
        cases he
    have hstaller : staller = -1 ∨ HasInFlight s.mapBlocksInFlight staller := by
      rcases hend with ⟨-, rfl⟩ | ⟨_, _, _, g, -, -, -, rfl, hok⟩
      · exact .inl rfl
      · exact hok.nodeStaller.imp_right (·.2)
    obtain ⟨s', hget, h'⟩ := h.getDataBlocks nNow _ staller hstate hlen' hstaller
    exact ⟨peer', s', by simp [ChainView.requestBlocks, hstate, hroom, hfind, hget], h',
      getDataBlocks_keeps hfree hget⟩
  · exact ⟨peer, s, by simp [ChainView.requestBlocks, hstate, hroom], h, fun _ _ he => he⟩

/-- **The block requests of `SendMessages` keep the bookkeeping.**  With the
search of `FindNextBlocksToDownload` in it, the block request for a connected
peer on a block index that is a tree with one genesis block succeeds, keeps
the bookkeeping of `Net.BlockDownload`, and leaves every block that was in
flight in flight from the same peer: what the search finds is within the
peer's room and in flight from nobody, and its staller has a block in flight,
which is what the `GETDATA` event of the bookkeeping asks of it. -/
theorem requestBlocks_bookkeeping {s : DownloadState} (h : s.Bookkeeping) {nodeid : NodeId}
    (hmem : nodeid ∈ s.mapNodeState) (nNow : Int) (peer : PeerBlocks ι) :
    ∃ peer' s', v.requestBlocks fuel nNow nodeid peer s = some (.ok (peer', s')) ∧ s'.Bookkeeping ∧
      ∀ hash entry, s.mapBlocksInFlight.lookup hash = some entry →
        s'.mapBlocksInFlight.lookup hash = some entry :=
  h.requestBlocks hwf hgen hchain hfuel hmem nNow peer

end Bookkeeping

/-- The block request for a peer just connected, on the other branch of the
fork. -/
theorem requestBlocks_bookkeeping_fork :
    forkView.tree.Wf ∧ (∀ i, Below forkView.tree.pprev 0 i) ∧
      forkView.chainActive.Holds forkView.tree (some 2) ∧
      (∀ i, (forkView.tree.nHeight i).toNat < 3) ∧
      (initializeNode 0 DownloadState.init).Bookkeeping ∧
      0 ∈ (initializeNode 0 DownloadState.init).mapNodeState ∧
      ∃ peer' s', forkView.requestBlocks 3 0 0 forkPeer (initializeNode 0 DownloadState.init) =
          some (.ok (peer', s')) ∧ s'.Bookkeeping ∧
        ∀ hash entry,
          (initializeNode 0 DownloadState.init).mapBlocksInFlight.lookup hash = some entry →
          s'.mapBlocksInFlight.lookup hash = some entry :=
  have hinit := DownloadState.Bookkeeping.init.initializeNode 0
  have hmem := mem_initializeNode 0 DownloadState.init
  ⟨forkTree_wf, forkTree_genesis, rfl, by decide, hinit, hmem,
    requestBlocks_bookkeeping (v := forkView) (T := 2) forkTree_wf forkTree_genesis rfl
      (by decide) hinit hmem 0 forkPeer⟩

/-! ## Runs with the search -/

/-- The places that change the bookkeeping, with the block requests of
`SendMessages` made by the search, on the block index of their time. -/
inductive NodeEvent (ι : Type)
  /-- An event of `Net.BlockDownload`. -/
  | download (e : DownloadEvent)
  /-- The block request for `nodeid`, whose chain is as `peer` says, on the
  index `v`, with `fuel` for the search. -/
  | request (v : ChainView ι) (fuel : Nat) (nodeid : NodeId) (peer : PeerBlocks ι) (nNow : Int)

namespace NodeEvent

variable {ι : Type} [DecidableEq ι]

/-- What an event does, or `none` when an `assert` fails, a null state is
used, or the search faults or runs out of fuel. -/
def step : NodeEvent ι → DownloadState → Option DownloadState
  | .download e, s => e.step s
  | .request v fuel nodeid peer nNow, s =>
    match v.requestBlocks fuel nNow nodeid peer s with
    | some (.ok (_, s')) => some s'
    | _ => none

/-- The events one after another. -/
def run : List (NodeEvent ι) → DownloadState → Option DownloadState
  | [], s => some s
  | e :: es, s => e.step s >>= run es

/-- What the rest of the node guarantees of an event: a download event is
allowed, and a request is for a connected peer, on an index that is a tree
with one genesis block and an active chain holding the branch of its tip,
with fuel above every height. -/
def Allowed (s : DownloadState) : NodeEvent ι → Prop
  | .download e => e.Allowed s
  | .request v fuel nodeid _ _ => nodeid ∈ s.mapNodeState ∧ v.tree.Wf ∧
    (∃ root, ∀ i, Below v.tree.pprev root i) ∧ (∃ T, v.chainActive.Holds v.tree (some T)) ∧
    ∀ i, (v.tree.nHeight i).toNat < fuel

/-- A run whose every event is allowed in the state it meets. -/
def AllowedRun : DownloadState → List (NodeEvent ι) → Prop
  | _, [] => True
  | s, e :: es => e.Allowed s ∧ ∀ s', e.step s = some s' → AllowedRun s' es

end NodeEvent

namespace DownloadState.Bookkeeping

variable {ι : Type} [DecidableEq ι]

theorem nodeStep {s : DownloadState} (h : s.Bookkeeping) :
    ∀ e : NodeEvent ι, e.Allowed s → ∃ s', e.step s = some s' ∧ s'.Bookkeeping
  | .download e, he => h.step e he
  | .request v fuel nodeid peer nNow, ⟨hmem, hwf, ⟨_, hgen⟩, ⟨_, hchain⟩, hfuel⟩ => by
    -- the search meets the contract the `GETDATA` event takes as given
    obtain ⟨_, s', hreq, h', -⟩ := h.requestBlocks hwf hgen hchain hfuel hmem nNow peer
    exact ⟨s', by simp [NodeEvent.step, hreq], h'⟩

theorem nodeRun : ∀ (events : List (NodeEvent ι)) {s : DownloadState}, s.Bookkeeping →
    NodeEvent.AllowedRun s events → ∃ s', NodeEvent.run events s = some s' ∧ s'.Bookkeeping
  | [], s, h, _ => ⟨s, rfl, h⟩
  | e :: events, _, h, ⟨hallowed, hrest⟩ => by
    obtain ⟨s₁, hstep, h₁⟩ := h.nodeStep e hallowed
    obtain ⟨s', hrun, h'⟩ := nodeRun events h₁ (hrest s₁ hstep)
    exact ⟨s', by simp [NodeEvent.run, hstep, hrun], h'⟩

end DownloadState.Bookkeeping

/-- **No `assert` of the block download fails, with the search in it.**  In
every run from start-up that interleaves the events of `Net.BlockDownload`
with block requests whose blocks and staller `FindNextBlocksToDownload`
finds, each on a well-formed index of its time, every event succeeds and the
bookkeeping holds after it: the contract the `GETDATA` event takes as given is
met by the search itself. -/
theorem nodeEvents_run_bookkeeping {ι : Type} [DecidableEq ι] (events : List (NodeEvent ι))
    (hallowed : NodeEvent.AllowedRun DownloadState.init events) :
    ∃ s, NodeEvent.run events DownloadState.init = some s ∧ s.Bookkeeping :=
  DownloadState.Bookkeeping.init.nodeRun events hallowed

/-- A peer connects, and the search on the fork asks it for blocks. -/
theorem nodeEvents_run_bookkeeping_fork :
    NodeEvent.AllowedRun DownloadState.init
        [.download (.initializeNode 0), .request forkView 3 0 forkPeer 0] ∧
      ∃ s, NodeEvent.run [.download (.initializeNode 0), .request forkView 3 0 forkPeer 0]
        DownloadState.init = some s ∧ s.Bookkeeping := by
  have hallowed : NodeEvent.AllowedRun DownloadState.init
      [.download (.initializeNode 0), .request forkView 3 0 forkPeer 0] := by
    refine ⟨trivial, fun s₁ h₁ => ⟨⟨?_, forkTree_wf, ⟨0, forkTree_genesis⟩, ⟨2, rfl⟩, by decide⟩,
      fun _ _ => trivial⟩⟩
    simp only [NodeEvent.step, DownloadEvent.step, Option.some.injEq] at h₁
    subst h₁
    exact mem_initializeNode 0 _
  exact ⟨hallowed, nodeEvents_run_bookkeeping _ hallowed⟩

end Veribase
