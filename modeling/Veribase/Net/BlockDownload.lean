import Veribase.Primitives.Uint256
import Veribase.Lib.Tally

/-!
# Block download bookkeeping

`net_processing.cpp` keeps, for every connected peer, a `CNodeState` in
`mapNodeState`: among its fields the queue `vBlocksInFlight` of the blocks
asked of that peer and not yet come, with two counters of it, and the flags
`fSyncStarted`, `fPreferredDownload` and `m_chain_sync.m_protect`.  Beside the
map it keeps `mapBlocksInFlight`, which gives for each block asked for the
peer it was asked of and its entry in that peer's queue, and four global
counters of the peers with each flag.  Nothing keeps these in step but the
code that changes them: `InitializeNode` and `FinalizeNode` when a peer comes
and goes, `UpdatePreferredDownload` at its `VERSION`, `MarkBlockAsInFlight`
and `MarkBlockAsReceived`, and the lines of `ProcessMessage` and
`SendMessages` that start and stop the headers sync and protect an outbound
peer.  `FinalizeNode` checks the counters with `assert`s, and when the last
peer goes, that everything is back to zero.

`Bookkeeping` is what keeps them in step: each counter counts the connected
peers with its flag (`Tally.tally`), each queue agrees with its counters, and
`mapBlocksInFlight` lists exactly the queued blocks, so that a block is asked
of one peer at a time.  Every event keeps it (`Bookkeeping.step`), so no
`assert` of these functions fails in any run whose events concern connected
peers (`downloadState_run_bookkeeping`).

The events are the places that change the bookkeeping (`DownloadEvent`).  An
event stands for the branch of its caller being taken: what that branch
tests of the rest of the node (times, chain work, permissions) is the
event's, and what it tests of the bookkeeping is in the model.  The three
places that ask for blocks are modelled with their bounds: the direct fetch
of the `HEADERS` handler, the request of a `CMPCTBLOCK`, and the `GETDATA` of
`SendMessages`, which takes from `FindNextBlocksToDownload` at most the
number of blocks it asks for and a staller that is a peer with a block in
flight (`DownloadEvent.Allowed`).  The iterator that `mapBlocksInFlight`
keeps is the queued entry it points at; `GetTimeMicros()` is the event's
time.  The counters are `int`s that never come near overflow (one per peer),
so they are integers here.
-/

namespace Veribase

open Tally

/-! ## The state -/

/-- `NodeId`, an `int64_t`. -/
abbrev NodeId : Type := Int

/-- `MAX_BLOCKS_IN_TRANSIT_PER_PEER` (`validation.h`). -/
def MAX_BLOCKS_IN_TRANSIT_PER_PEER : Int := 16

/-- `MAX_OUTBOUND_PEERS_TO_PROTECT_FROM_DISCONNECT`. -/
def MAX_OUTBOUND_PEERS_TO_PROTECT_FROM_DISCONNECT : Int := 4

/-- `QueuedBlock`, with what the bookkeeping reads of it. -/
structure QueuedBlock where
  hash : uint256
  /-- `fValidatedHeaders`: the block was asked for with its index entry. -/
  fValidatedHeaders : Bool
deriving DecidableEq

/-- The fields of `CNodeState` that the block download keeps. -/
structure CNodeState where
  fSyncStarted : Bool
  nStallingSince : Int
  vBlocksInFlight : List QueuedBlock
  nDownloadingSince : Int
  nBlocksInFlight : Int
  nBlocksInFlightValidHeaders : Int
  fPreferredDownload : Bool
  /-- `m_chain_sync.m_protect`. -/
  m_protect : Bool

/-- The state the constructor `CNodeState(...)` leaves these fields in. -/
def CNodeState.init : CNodeState where
  fSyncStarted := false
  nStallingSince := 0
  vBlocksInFlight := []
  nDownloadingSince := 0
  nBlocksInFlight := 0
  nBlocksInFlightValidHeaders := 0
  fPreferredDownload := false
  m_protect := false

/-- Whether the peer counts in `nPeersWithValidatedDownloads`. -/
def CNodeState.validatedDownloads (state : CNodeState) : Bool :=
  state.nBlocksInFlightValidHeaders != 0

/-- What `UpdatePreferredDownload` reads of the `CNode`. -/
structure CNode where
  fInbound : Bool
  /-- `HasPermission(PF_NOBAN)`. -/
  noban : Bool
  fOneShot : Bool
  fClient : Bool

/-- The bookkeeping of the block download: `mapNodeState`, `mapBlocksInFlight`
and the global counters of `net_processing.cpp`. -/
structure DownloadState where
  mapNodeState : AList fun _ : NodeId => CNodeState
  /-- `mapBlocksInFlight`: the peer and the queued entry of each block asked for. -/
  mapBlocksInFlight : AList fun _ : uint256 => NodeId × QueuedBlock
  nSyncStarted : Int
  nPreferredDownload : Int
  nPeersWithValidatedDownloads : Int
  g_outbound_peers_with_protect_from_disconnect : Int

/-- The state at start-up: no peer, nothing in flight, every counter zero. -/
def DownloadState.init : DownloadState := ⟨∅, ∅, 0, 0, 0, 0⟩

/-- Write back the state of one peer (`State(nodeid)->... = ...`). -/
def DownloadState.setState (s : DownloadState) (nodeid : NodeId) (state : CNodeState) :
    DownloadState :=
  { s with mapNodeState := s.mapNodeState.insert nodeid state }

/-! ## Blocks in flight -/

/-- `MarkBlockAsReceived(hash)` at time `nNow`: whether the block was in
flight, or `none` when `assert(state != nullptr)` fails. -/
def DownloadState.markBlockAsReceived (nNow : Int) (hash : uint256) (s : DownloadState) :
    Option (Bool × DownloadState) :=
  match s.mapBlocksInFlight.lookup hash with
  | none => some (false, s)
  | some (nodeid, queued) => do
    let state ← s.mapNodeState.lookup nodeid
    let nBlocksInFlightValidHeaders :=
      state.nBlocksInFlightValidHeaders - queued.fValidatedHeaders.toNat
    -- the last validated block on the queue was received
    let nPeersWithValidatedDownloads :=
      if nBlocksInFlightValidHeaders = 0 ∧ queued.fValidatedHeaders then
        s.nPeersWithValidatedDownloads - 1
      else s.nPeersWithValidatedDownloads
    -- the first block on the queue was received
    let nDownloadingSince :=
      if state.vBlocksInFlight.head? = some queued then max state.nDownloadingSince nNow
      else state.nDownloadingSince
    let state := { state with
      nBlocksInFlightValidHeaders, nDownloadingSince
      vBlocksInFlight := state.vBlocksInFlight.erase queued
      nBlocksInFlight := state.nBlocksInFlight - 1
      nStallingSince := 0 }
    pure (true, { s with
      mapNodeState := s.mapNodeState.insert nodeid state
      nPeersWithValidatedDownloads
      mapBlocksInFlight := s.mapBlocksInFlight.erase hash })

/-- `MarkBlockAsInFlight(mempool, nodeid, hash, pindex)` at time `nNow`, with
`pindex != nullptr` as `fValidatedHeaders`: `false` when the block is in flight
from this peer already, `none` when an `assert` fails. -/
def markBlockAsInFlight (nNow : Int) (nodeid : NodeId) (hash : uint256)
    (fValidatedHeaders : Bool) (s : DownloadState) : Option (Bool × DownloadState) := do
  -- `assert(state != nullptr)`
  let _ ← s.mapNodeState.lookup nodeid
  if (s.mapBlocksInFlight.lookup hash).any (·.1 == nodeid) then pure (false, s)
  else
    -- make sure it is not listed somewhere already
    let (_, s) ← DownloadState.markBlockAsReceived nNow hash s
    let state ← s.mapNodeState.lookup nodeid
    let queued : QueuedBlock := ⟨hash, fValidatedHeaders⟩
    let nBlocksInFlight := state.nBlocksInFlight + 1
    let nBlocksInFlightValidHeaders :=
      state.nBlocksInFlightValidHeaders + fValidatedHeaders.toNat
    -- a block download (batch) from this peer starts
    let nDownloadingSince := if nBlocksInFlight = 1 then nNow else state.nDownloadingSince
    let state := { state with
      vBlocksInFlight := state.vBlocksInFlight ++ [queued]
      nBlocksInFlight, nBlocksInFlightValidHeaders, nDownloadingSince }
    pure (true, { s with
      mapNodeState := s.mapNodeState.insert nodeid state
      nPeersWithValidatedDownloads :=
        if nBlocksInFlightValidHeaders = 1 ∧ fValidatedHeaders then
          s.nPeersWithValidatedDownloads + 1
        else s.nPeersWithValidatedDownloads
      mapBlocksInFlight := insertNew s.mapBlocksInFlight hash (nodeid, queued) })

/-- The loop of the direct fetch in the `HEADERS` handler over the blocks to
fetch, earliest first: it stops when the peer has
`MAX_BLOCKS_IN_TRANSIT_PER_PEER` blocks in flight. -/
def directFetch (nNow : Int) (nodeid : NodeId) : List uint256 → DownloadState → Option DownloadState
  | [], s => some s
  | hash :: hashes, s => do
    let state ← s.mapNodeState.lookup nodeid
    if state.nBlocksInFlight ≥ MAX_BLOCKS_IN_TRANSIT_PER_PEER then pure s
    else
      let (_, s) ← markBlockAsInFlight nNow nodeid hash true s
      directFetch nNow nodeid hashes s

/-- The request of a `CMPCTBLOCK` in `ProcessMessage`: the block is asked of
the peer if it is in flight from no one and the peer has room, or if it is in
flight from this peer. -/
def compactBlockRequest (nNow : Int) (nodeid : NodeId) (hash : uint256) (s : DownloadState) :
    Option DownloadState := do
  let nodestate ← s.mapNodeState.lookup nodeid
  let blockInFlight := s.mapBlocksInFlight.lookup hash
  if (blockInFlight.isNone ∧ nodestate.nBlocksInFlight < MAX_BLOCKS_IN_TRANSIT_PER_PEER) ∨
      blockInFlight.any (·.1 == nodeid) then
    let (_, s) ← markBlockAsInFlight nNow nodeid hash true s
    pure s
  else pure s

/-- The loop over `vToDownload` in `SendMessages`. -/
def markEachInFlight (nNow : Int) (nodeid : NodeId) : List uint256 → DownloadState →
    Option DownloadState
  | [], s => some s
  | hash :: hashes, s => do
    let (_, s) ← markBlockAsInFlight nNow nodeid hash true s
    markEachInFlight nNow nodeid hashes s

/-- The block requests of `SendMessages`, with what `FindNextBlocksToDownload`
returned: the blocks to ask for and the peer that stalls the download, or
`-1`.  A peer with nothing in flight marks the staller as stalling. -/
def getDataBlocks (nNow : Int) (nodeid : NodeId) (vToDownload : List uint256) (staller : NodeId)
    (s : DownloadState) : Option DownloadState := do
  let state ← s.mapNodeState.lookup nodeid
  if state.nBlocksInFlight < MAX_BLOCKS_IN_TRANSIT_PER_PEER then
    let s ← markEachInFlight nNow nodeid vToDownload s
    let state ← s.mapNodeState.lookup nodeid
    if state.nBlocksInFlight = 0 ∧ staller ≠ -1 then
      let stallerState ← s.mapNodeState.lookup staller
      if stallerState.nStallingSince = 0 then
        pure (s.setState staller { stallerState with nStallingSince := nNow })
      else pure s
    else pure s
  else pure s

/-! ## Peers coming and going, and their flags -/

/-- `InitializeNode(pnode)`: `mapNodeState.emplace_hint(...)`. -/
def initializeNode (nodeid : NodeId) (s : DownloadState) : DownloadState :=
  { s with mapNodeState := insertNew s.mapNodeState nodeid CNodeState.init }

/-- `FinalizeNode(nodeid, fUpdateConnectionTime)`, or `none` when an `assert`
fails. -/
def finalizeNode (nodeid : NodeId) (s : DownloadState) : Option DownloadState := do
  let state ← s.mapNodeState.lookup nodeid
  let nSyncStarted := s.nSyncStarted - state.fSyncStarted.toNat
  let mapBlocksInFlight := eraseEach (·.hash) state.vBlocksInFlight s.mapBlocksInFlight
  let nPreferredDownload := s.nPreferredDownload - state.fPreferredDownload.toNat
  let nPeersWithValidatedDownloads :=
    s.nPeersWithValidatedDownloads - state.validatedDownloads.toNat
  guard (nPeersWithValidatedDownloads ≥ 0)
  let g_outbound_peers_with_protect_from_disconnect :=
    s.g_outbound_peers_with_protect_from_disconnect - state.m_protect.toNat
  guard (g_outbound_peers_with_protect_from_disconnect ≥ 0)
  let mapNodeState := s.mapNodeState.erase nodeid
  -- the consistency check after the last peer is removed
  if mapNodeState.entries = [] then
    guard (mapBlocksInFlight.entries = [] ∧ nPreferredDownload = 0 ∧
      nPeersWithValidatedDownloads = 0 ∧ g_outbound_peers_with_protect_from_disconnect = 0)
  pure ⟨mapNodeState, mapBlocksInFlight, nSyncStarted, nPreferredDownload,
    nPeersWithValidatedDownloads, g_outbound_peers_with_protect_from_disconnect⟩

/-- `UpdatePreferredDownload(node, state)`, called by the `VERSION` handler. -/
def updatePreferredDownload (node : CNode) (nodeid : NodeId) (s : DownloadState) :
    Option DownloadState := do
  let state ← s.mapNodeState.lookup nodeid
  -- whether this node should be marked as a preferred download node
  let fPreferredDownload := (!node.fInbound || node.noban) && !node.fOneShot && !node.fClient
  pure { s with
    mapNodeState := s.mapNodeState.insert nodeid { state with fPreferredDownload }
    nPreferredDownload :=
      s.nPreferredDownload - state.fPreferredDownload.toNat + fPreferredDownload.toNat }

/-- The start of the headers sync in `SendMessages`, when the rest of its
condition holds. -/
def startSync (nodeid : NodeId) (s : DownloadState) : Option DownloadState := do
  let state ← s.mapNodeState.lookup nodeid
  if !state.fSyncStarted then
    pure { s.setState nodeid { state with fSyncStarted := true } with
      nSyncStarted := s.nSyncStarted + 1 }
  else pure s

/-- The headers sync timeout of `SendMessages` for a peer with `PF_NOBAN`,
which is not disconnected but loses its sync, when the times have run out:
only when it is the one sync peer and another preferred peer exists. -/
def syncTimeout (nodeid : NodeId) (s : DownloadState) : Option DownloadState := do
  let state ← s.mapNodeState.lookup nodeid
  if state.fSyncStarted ∧ s.nSyncStarted = 1 ∧
      s.nPreferredDownload - state.fPreferredDownload.toNat ≥ 1 then
    pure { s.setState nodeid { state with fSyncStarted := false } with
      nSyncStarted := s.nSyncStarted - 1 }
  else pure s

/-- The protection of an outbound peer in the `HEADERS` handler, when its best
known block has the work of the tip. -/
def protectPeer (nodeid : NodeId) (s : DownloadState) : Option DownloadState := do
  let nodestate ← s.mapNodeState.lookup nodeid
  if s.g_outbound_peers_with_protect_from_disconnect <
      MAX_OUTBOUND_PEERS_TO_PROTECT_FROM_DISCONNECT ∧ !nodestate.m_protect then
    pure { s.setState nodeid { nodestate with m_protect := true } with
      g_outbound_peers_with_protect_from_disconnect :=
        s.g_outbound_peers_with_protect_from_disconnect + 1 }
  else pure s

/-! ## Events -/

/-- The places that change the bookkeeping. -/
inductive DownloadEvent where
  /-- `InitializeNode`. -/
  | initializeNode (nodeid : NodeId)
  /-- `FinalizeNode`. -/
  | finalizeNode (nodeid : NodeId)
  /-- `UpdatePreferredDownload` at the `VERSION` of a peer. -/
  | version (nodeid : NodeId) (node : CNode)
  /-- The direct fetch of the `HEADERS` handler. -/
  | headers (nodeid : NodeId) (vToFetch : List uint256) (nNow : Int)
  /-- The request of a `CMPCTBLOCK`. -/
  | cmpctBlock (nodeid : NodeId) (hash : uint256) (nNow : Int)
  /-- A `MarkBlockAsReceived` (a block, a failed compact block, a `BLOCKTXN`). -/
  | received (hash : uint256) (nNow : Int)
  /-- The block requests of `SendMessages`. -/
  | getData (nodeid : NodeId) (vToDownload : List uint256) (staller : NodeId) (nNow : Int)
  /-- The start of the headers sync. -/
  | startSync (nodeid : NodeId)
  /-- The headers sync timeout of a peer with `PF_NOBAN`. -/
  | syncTimeout (nodeid : NodeId)
  /-- The protection of an outbound peer. -/
  | protect (nodeid : NodeId)

/-- What an event does to the bookkeeping, or `none` when an `assert` fails or
a null `CNodeState` is used. -/
def DownloadEvent.step : DownloadEvent → DownloadState → Option DownloadState
  | .initializeNode nodeid, s => some (Veribase.initializeNode nodeid s)
  | .finalizeNode nodeid, s => Veribase.finalizeNode nodeid s
  | .version nodeid node, s => updatePreferredDownload node nodeid s
  | .headers nodeid vToFetch nNow, s => directFetch nNow nodeid vToFetch s
  | .cmpctBlock nodeid hash nNow, s => compactBlockRequest nNow nodeid hash s
  | .received hash nNow, s => (DownloadState.markBlockAsReceived nNow hash s).map (·.2)
  | .getData nodeid vToDownload staller nNow, s => getDataBlocks nNow nodeid vToDownload staller s
  | .startSync nodeid, s => Veribase.startSync nodeid s
  | .syncTimeout nodeid, s => Veribase.syncTimeout nodeid s
  | .protect nodeid, s => protectPeer nodeid s

/-- The events one after another. -/
def DownloadEvent.run : List DownloadEvent → DownloadState → Option DownloadState
  | [], s => some s
  | e :: es, s => e.step s >>= run es

/-- What the rest of the node guarantees of an event: it concerns a connected
peer (`InitializeNode` apart), and `FindNextBlocksToDownload` returns at most
the number of blocks it is asked for and a staller with a block in flight. -/
def DownloadEvent.Allowed (s : DownloadState) : DownloadEvent → Prop
  | .initializeNode _ => True
  | .finalizeNode nodeid | .version nodeid _ | .headers nodeid _ _ | .cmpctBlock nodeid _ _
  | .startSync nodeid | .syncTimeout nodeid | .protect nodeid => nodeid ∈ s.mapNodeState
  | .received _ _ => True
  | .getData nodeid vToDownload staller _ =>
    ∃ state, s.mapNodeState.lookup nodeid = some state ∧
      (vToDownload.length : Int) ≤ MAX_BLOCKS_IN_TRANSIT_PER_PEER - state.nBlocksInFlight ∧
      (staller = -1 ∨ ∃ hash queued, s.mapBlocksInFlight.lookup hash = some (staller, queued))

/-- A run whose every event is allowed in the state it meets. -/
def DownloadEvent.AllowedRun : DownloadState → List DownloadEvent → Prop
  | _, [] => True
  | s, e :: es => e.Allowed s ∧ ∀ s', e.step s = some s' → AllowedRun s' es

/-! ## The bookkeeping -/

/-- A peer's queue agrees with its two counters, holds each block once, and is
no longer than `MAX_BLOCKS_IN_TRANSIT_PER_PEER`. -/
structure CNodeState.QueueHolds (state : CNodeState) : Prop where
  nBlocksInFlight : state.nBlocksInFlight = state.vBlocksInFlight.length
  nBlocksInFlightValidHeaders :
    state.nBlocksInFlightValidHeaders = state.vBlocksInFlight.countP (·.fValidatedHeaders)
  nodup : (state.vBlocksInFlight.map (·.hash)).Nodup
  length_le : (state.vBlocksInFlight.length : Int) ≤ MAX_BLOCKS_IN_TRANSIT_PER_PEER

/-- The block `queued` is in the queue of the peer `nodeid`. -/
def Queued (mapNodeState : AList fun _ : NodeId => CNodeState) (nodeid : NodeId)
    (queued : QueuedBlock) : Prop :=
  ∃ state, mapNodeState.lookup nodeid = some state ∧ queued ∈ state.vBlocksInFlight

/-- `mapBlocksInFlight` lists exactly the queued blocks, each under its hash. -/
def InFlight (mapBlocksInFlight : AList fun _ : uint256 => NodeId × QueuedBlock)
    (mapNodeState : AList fun _ : NodeId => CNodeState) : Prop :=
  ∀ hash nodeid queued, mapBlocksInFlight.lookup hash = some (nodeid, queued) ↔
    Queued mapNodeState nodeid queued ∧ queued.hash = hash

/-- The bookkeeping is in step: every counter counts the peers with its flag,
every queue holds, `mapBlocksInFlight` lists the queues, and at most
`MAX_OUTBOUND_PEERS_TO_PROTECT_FROM_DISCONNECT` peers are protected. -/
structure DownloadState.Bookkeeping (s : DownloadState) : Prop where
  nSyncStarted : s.nSyncStarted = tally (·.fSyncStarted) s.mapNodeState
  nPreferredDownload : s.nPreferredDownload = tally (·.fPreferredDownload) s.mapNodeState
  nPeersWithValidatedDownloads :
    s.nPeersWithValidatedDownloads = tally (·.validatedDownloads) s.mapNodeState
  g_outbound_peers_with_protect_from_disconnect :
    s.g_outbound_peers_with_protect_from_disconnect = tally (·.m_protect) s.mapNodeState
  protect_le : s.g_outbound_peers_with_protect_from_disconnect ≤
    MAX_OUTBOUND_PEERS_TO_PROTECT_FROM_DISCONNECT
  queue : ∀ nodeid state, s.mapNodeState.lookup nodeid = some state → state.QueueHolds
  inFlight : InFlight s.mapBlocksInFlight s.mapNodeState

/-! ### Queues -/

namespace CNodeState.QueueHolds

theorem init : CNodeState.init.QueueHolds :=
  ⟨rfl, rfl, List.nodup_nil, by decide⟩

/-- A change that keeps the queue and its counters keeps them in step. -/
theorem frame {state state' : CNodeState} (h : state.QueueHolds)
    (hv : state'.vBlocksInFlight = state.vBlocksInFlight)
    (hn : state'.nBlocksInFlight = state.nBlocksInFlight)
    (hvh : state'.nBlocksInFlightValidHeaders = state.nBlocksInFlightValidHeaders) :
    state'.QueueHolds :=
  ⟨by rw [hn, hv]; exact h.nBlocksInFlight, by rw [hvh, hv]; exact h.nBlocksInFlightValidHeaders,
    by rw [hv]; exact h.nodup, by rw [hv]; exact h.length_le⟩

/-- Taking a queued block out, with the counters moved as `MarkBlockAsReceived`
moves them. -/
theorem erase {state state' : CNodeState} (h : state.QueueHolds) {queued : QueuedBlock}
    (hmem : queued ∈ state.vBlocksInFlight)
    (hv : state'.vBlocksInFlight = state.vBlocksInFlight.erase queued)
    (hn : state'.nBlocksInFlight = state.nBlocksInFlight - 1)
    (hvh : state'.nBlocksInFlightValidHeaders =
      state.nBlocksInFlightValidHeaders - queued.fValidatedHeaders.toNat) :
    state'.QueueHolds := by
  have hlen := List.length_erase_of_mem hmem
  have hpos : 0 < state.vBlocksInFlight.length := List.length_pos_of_mem hmem
  refine ⟨?_, ?_, ?_, ?_⟩
  · rw [hn, hv, hlen, h.nBlocksInFlight]
    omega
  · rw [hvh, hv, List.countP_erase, h.nBlocksInFlightValidHeaders]
    cases hq : queued.fValidatedHeaders
    · simp
    · have hcount : 0 < state.vBlocksInFlight.countP (·.fValidatedHeaders) :=
        List.countP_pos_iff.mpr ⟨queued, hmem, hq⟩
      simp [hmem]
      omega
  · rw [hv]
    exact h.nodup.sublist (List.erase_sublist.map _)
  · have := h.length_le
    rw [hv, hlen]
    omega

/-- Appending a block not queued yet to a queue with room, with the counters
moved as `MarkBlockAsInFlight` moves them. -/
theorem append {state state' : CNodeState} (h : state.QueueHolds) {queued : QueuedBlock}
    (hnew : queued.hash ∉ state.vBlocksInFlight.map (·.hash))
    (hroom : state.nBlocksInFlight < MAX_BLOCKS_IN_TRANSIT_PER_PEER)
    (hv : state'.vBlocksInFlight = state.vBlocksInFlight ++ [queued])
    (hn : state'.nBlocksInFlight = state.nBlocksInFlight + 1)
    (hvh : state'.nBlocksInFlightValidHeaders =
      state.nBlocksInFlightValidHeaders + queued.fValidatedHeaders.toNat) :
    state'.QueueHolds := by
  refine ⟨?_, ?_, ?_, ?_⟩
  · rw [hn, hv, h.nBlocksInFlight]
    simp
  · rw [hvh, hv, h.nBlocksInFlightValidHeaders, List.countP_append]
    cases hq : queued.fValidatedHeaders <;> simp [hq]
  · rw [hv, List.map_append, List.nodup_append]
    refine ⟨h.nodup, List.nodup_singleton _, ?_⟩
    intro a ha b hb hab
    simp only [List.map_cons, List.map_nil, List.mem_singleton] at hb
    subst hb
    exact hnew (hab ▸ ha)
  · rw [hv, List.length_append, List.length_singleton]
    have := h.nBlocksInFlight
    push_cast
    omega

end CNodeState.QueueHolds

/-! ### `mapBlocksInFlight` -/

section InFlight

variable {mapBlocksInFlight : AList fun _ : uint256 => NodeId × QueuedBlock}
  {mapNodeState : AList fun _ : NodeId => CNodeState} {nodeid nodeid' : NodeId}
  {state state' : CNodeState} {queued queued' : QueuedBlock} {hash hash' : uint256}

theorem queued_insert :
    Queued (mapNodeState.insert nodeid state) nodeid' queued ↔
      if nodeid' = nodeid then queued ∈ state.vBlocksInFlight
      else Queued mapNodeState nodeid' queued := by
  by_cases h : nodeid' = nodeid
  · subst h
    simp [Queued, AList.lookup_insert]
  · simp [Queued, AList.lookup_insert_ne h, h]

/-- Writing back the state of a peer that is there adds no peer. -/
theorem mem_insert_of_lookup (hstate : mapNodeState.lookup nodeid = some state) :
    nodeid' ∈ mapNodeState.insert nodeid state' ↔ nodeid' ∈ mapNodeState := by
  rw [AList.mem_insert]
  constructor
  · rintro (rfl | hn)
    · exact AList.lookup_isSome.mp (by simp [hstate])
    · exact hn
  · exact Or.inr

theorem queued_erase :
    Queued (mapNodeState.erase nodeid) nodeid' queued ↔
      nodeid' ≠ nodeid ∧ Queued mapNodeState nodeid' queued := by
  by_cases h : nodeid' = nodeid
  · subst h
    simp [Queued, AList.lookup_erase]
  · simp [Queued, AList.lookup_erase_ne h, h]

/-- Two queued blocks with one hash are one block of one peer. -/
theorem InFlight.unique (h : InFlight mapBlocksInFlight mapNodeState)
    (h₁ : Queued mapNodeState nodeid queued) (h₂ : Queued mapNodeState nodeid' queued')
    (hhash : queued.hash = queued'.hash) : nodeid = nodeid' ∧ queued = queued' := by
  have e₁ := (h queued.hash nodeid queued).mpr ⟨h₁, rfl⟩
  have e₂ := (h queued.hash nodeid' queued').mpr ⟨h₂, hhash.symm⟩
  rw [e₁, Option.some.injEq, Prod.mk.injEq] at e₂
  exact e₂

/-- A block that `mapBlocksInFlight` does not list is in no queue. -/
theorem InFlight.not_queued (h : InFlight mapBlocksInFlight mapNodeState)
    (hnone : mapBlocksInFlight.lookup hash = none) (hq : Queued mapNodeState nodeid queued) :
    queued.hash ≠ hash := by
  intro hhash
  have e := (h hash nodeid queued).mpr ⟨hq, hhash⟩
  rw [hnone] at e
  cases e

/-- A change of one peer that keeps its queue. -/
theorem InFlight.frame (h : InFlight mapBlocksInFlight mapNodeState)
    (hstate : mapNodeState.lookup nodeid = some state)
    (hv : state'.vBlocksInFlight = state.vBlocksInFlight) :
    InFlight mapBlocksInFlight (mapNodeState.insert nodeid state') := by
  intro hash nodeid' queued
  rw [h hash nodeid' queued, queued_insert]
  by_cases hn : nodeid' = nodeid
  · subst hn
    simp [Queued, hstate, hv]
  · simp [hn]

/-- `MarkBlockAsReceived`: the block leaves its peer's queue and the map. -/
theorem InFlight.receive (h : InFlight mapBlocksInFlight mapNodeState)
    (hlookup : mapBlocksInFlight.lookup hash = some (nodeid, queued))
    (hstate : mapNodeState.lookup nodeid = some state)
    (hnodup : (state.vBlocksInFlight.map (·.hash)).Nodup)
    (hv : state'.vBlocksInFlight = state.vBlocksInFlight.erase queued) :
    InFlight (mapBlocksInFlight.erase hash) (mapNodeState.insert nodeid state') := by
  obtain ⟨⟨state₀, hstate₀, hmem⟩, hqhash⟩ := (h hash nodeid queued).mp hlookup
  rw [hstate, Option.some.injEq] at hstate₀
  subst hstate₀
  intro hash' nodeid' queued'
  rw [queued_insert, hv]
  by_cases hh : hash' = hash
  · -- the block received is in no queue any more
    subst hh
    simp only [AList.lookup_erase, reduceCtorEq, false_iff, not_and]
    intro hq hqhash'
    by_cases hn : nodeid' = nodeid
    · rw [if_pos hn, (hnodup.of_map _).mem_erase_iff] at hq
      exact hq.1 (List.inj_on_of_nodup_map hnodup hq.2 hmem (hqhash'.trans hqhash.symm))
    · rw [if_neg hn] at hq
      exact hn (h.unique hq ⟨state, hstate, hmem⟩ (hqhash'.trans hqhash.symm)).1
  · rw [AList.lookup_erase_ne hh, h hash' nodeid' queued']
    by_cases hn : nodeid' = nodeid
    · subst hn
      have hne : queued' ≠ queued → (queued' ∈ state.vBlocksInFlight.erase queued ↔
          queued' ∈ state.vBlocksInFlight) := List.mem_erase_of_ne
      simp only [if_true, Queued, hstate, Option.some.injEq, exists_eq_left']
      constructor
      · rintro ⟨hq, rfl⟩
        exact ⟨(hne (fun e => hh (e ▸ hqhash))).mpr hq, rfl⟩
      · rintro ⟨hq, rfl⟩
        exact ⟨(hne (fun e => hh (e ▸ hqhash))).mp hq, rfl⟩
    · rw [if_neg hn]

/-- `MarkBlockAsInFlight`: a block in no queue joins one peer's queue and the
map. -/
theorem InFlight.add (h : InFlight mapBlocksInFlight mapNodeState)
    (hnone : mapBlocksInFlight.lookup hash = none)
    (hstate : mapNodeState.lookup nodeid = some state) (hqhash : queued.hash = hash)
    (hv : state'.vBlocksInFlight = state.vBlocksInFlight ++ [queued]) :
    InFlight (mapBlocksInFlight.insert hash (nodeid, queued)) (mapNodeState.insert nodeid state') := by
  intro hash' nodeid' queued'
  rw [queued_insert, hv]
  by_cases hh : hash' = hash
  · subst hh
    simp only [AList.lookup_insert, Option.some.injEq, Prod.mk.injEq]
    by_cases hn : nodeid' = nodeid
    · subst hn
      simp only [if_true, true_and, List.mem_append, List.mem_singleton]
      constructor
      · rintro rfl
        exact ⟨Or.inr rfl, hqhash⟩
      · rintro ⟨hq | rfl, hqhash'⟩
        · exact absurd hqhash' (h.not_queued hnone ⟨state, hstate, hq⟩)
        · rfl
    · rw [if_neg hn]
      constructor
      · rintro ⟨rfl, -⟩
        exact absurd rfl hn
      · rintro ⟨hq, hqhash'⟩
        exact absurd hqhash' (h.not_queued hnone hq)
  · rw [AList.lookup_insert_ne hh, h hash' nodeid' queued']
    by_cases hn : nodeid' = nodeid
    · subst hn
      simp only [if_true, Queued, hstate, Option.some.injEq, exists_eq_left', List.mem_append,
        List.mem_singleton]
      constructor
      · rintro ⟨hq, rfl⟩
        exact ⟨Or.inl hq, rfl⟩
      · rintro ⟨hq | rfl, rfl⟩
        · exact ⟨hq, rfl⟩
        · exact absurd hqhash hh
    · rw [if_neg hn]

/-- `InitializeNode`: a new peer has an empty queue. -/
theorem InFlight.initializeNode (h : InFlight mapBlocksInFlight mapNodeState)
    (hnone : mapNodeState.lookup nodeid = none) :
    InFlight mapBlocksInFlight (mapNodeState.insert nodeid CNodeState.init) := by
  intro hash nodeid' queued
  rw [h hash nodeid' queued, queued_insert]
  by_cases hn : nodeid' = nodeid
  · subst hn
    simp [Queued, hnone, CNodeState.init]
  · simp [hn]

/-- `FinalizeNode`: the peer's blocks leave the map with it. -/
theorem InFlight.finalizeNode (h : InFlight mapBlocksInFlight mapNodeState)
    (hstate : mapNodeState.lookup nodeid = some state) :
    InFlight (eraseEach (·.hash) state.vBlocksInFlight mapBlocksInFlight)
      (mapNodeState.erase nodeid) := by
  intro hash nodeid' queued
  rw [lookup_eraseEach, queued_erase]
  by_cases hmem : hash ∈ state.vBlocksInFlight.map (·.hash)
  · -- the block was this peer's, so no other peer has it
    obtain ⟨queued₀, hq₀, hqhash₀⟩ := List.mem_map.mp hmem
    simp only [hmem, if_true, reduceCtorEq, false_iff, not_and]
    rintro ⟨hn, hq⟩ hqhash
    exact hn (h.unique hq ⟨state, hstate, hq₀⟩ (hqhash.trans hqhash₀.symm)).1
  · rw [if_neg hmem, h hash nodeid' queued]
    constructor
    · rintro ⟨hq, hqhash⟩
      refine ⟨⟨?_, hq⟩, hqhash⟩
      rintro rfl
      obtain ⟨state₀, hstate₀, hq₀⟩ := hq
      rw [hstate, Option.some.injEq] at hstate₀
      subst hstate₀
      exact hmem (List.mem_map.mpr ⟨queued, hq₀, hqhash⟩)
    · rintro ⟨⟨-, hq⟩, hqhash⟩
      exact ⟨hq, hqhash⟩

/-- With no peer left, nothing is in flight. -/
theorem InFlight.entries_eq_nil (h : InFlight mapBlocksInFlight mapNodeState)
    (hnil : mapNodeState.entries = []) : mapBlocksInFlight.entries = [] := by
  cases hentries : mapBlocksInFlight.entries with
  | nil => rfl
  | cons e rest =>
    have hlookup : mapBlocksInFlight.lookup e.1 = some e.2 := by
      change mapBlocksInFlight.entries.dlookup e.1 = some e.2
      rw [hentries]
      exact List.dlookup_cons_eq rest e.1 e.2
    obtain ⟨⟨state, hstate, -⟩, -⟩ := (h e.1 e.2.1 e.2.2).mp hlookup
    change mapNodeState.entries.dlookup e.2.1 = some state at hstate
    rw [hnil] at hstate
    cases hstate

end InFlight

/-- `InitializeNode` leaves the peer connected. -/
theorem mem_initializeNode (nodeid : NodeId) (s : DownloadState) :
    nodeid ∈ (initializeNode nodeid s).mapNodeState := by
  unfold initializeNode insertNew
  split
  · assumption
  · exact (AList.mem_insert _).mpr (Or.inl rfl)

/-! ### Every event keeps the bookkeeping -/

namespace DownloadState.Bookkeeping

variable {s : DownloadState}

theorem init : DownloadState.init.Bookkeeping where
  nSyncStarted := rfl
  nPreferredDownload := rfl
  nPeersWithValidatedDownloads := rfl
  g_outbound_peers_with_protect_from_disconnect := rfl
  protect_le := by decide
  queue := by
    intro nodeid state h
    simp [DownloadState.init, AList.lookup_empty] at h
  inFlight := by
    intro hash nodeid queued
    simp [DownloadState.init, Queued, AList.lookup_empty]

/-- One peer's state replaced, each counter moved by what the change of the
peer's flag adds and takes, and the map of blocks in flight in step with the
queues: the bookkeeping holds after. -/
theorem replace (h : s.Bookkeeping) {s' : DownloadState} {nodeid : NodeId}
    {state state' : CNodeState} (hstate : s.mapNodeState.lookup nodeid = some state)
    (hmap : s'.mapNodeState = s.mapNodeState.insert nodeid state') (hq : state'.QueueHolds)
    (hflight : InFlight s'.mapBlocksInFlight s'.mapNodeState)
    (hsync : s'.nSyncStarted =
      s.nSyncStarted - state.fSyncStarted.toNat + state'.fSyncStarted.toNat)
    (hpref : s'.nPreferredDownload =
      s.nPreferredDownload - state.fPreferredDownload.toNat + state'.fPreferredDownload.toNat)
    (hvalid : s'.nPeersWithValidatedDownloads = s.nPeersWithValidatedDownloads -
      state.validatedDownloads.toNat + state'.validatedDownloads.toNat)
    (hprotect : s'.g_outbound_peers_with_protect_from_disconnect =
      s.g_outbound_peers_with_protect_from_disconnect - state.m_protect.toNat +
        state'.m_protect.toNat)
    (hle : s'.g_outbound_peers_with_protect_from_disconnect ≤
      MAX_OUTBOUND_PEERS_TO_PROTECT_FROM_DISCONNECT) : s'.Bookkeeping where
  nSyncStarted := by rw [hsync, hmap, tally_insert_of_lookup _ hstate, h.nSyncStarted]
  nPreferredDownload := by
    rw [hpref, hmap, tally_insert_of_lookup _ hstate, h.nPreferredDownload]
  nPeersWithValidatedDownloads := by
    rw [hvalid, hmap, tally_insert_of_lookup _ hstate, h.nPeersWithValidatedDownloads]
  g_outbound_peers_with_protect_from_disconnect := by
    rw [hprotect, hmap, tally_insert_of_lookup _ hstate,
      h.g_outbound_peers_with_protect_from_disconnect]
  protect_le := hle
  queue := by
    intro nodeid' state'' hlookup
    rw [hmap] at hlookup
    by_cases hn : nodeid' = nodeid
    · subst hn
      rw [AList.lookup_insert, Option.some.injEq] at hlookup
      exact hlookup ▸ hq
    · rw [AList.lookup_insert_ne hn] at hlookup
      exact h.queue nodeid' state'' hlookup
  inFlight := hflight

/-- A change of one peer's fields that the bookkeeping does not read. -/
theorem frame (h : s.Bookkeeping) {nodeid : NodeId} {state : CNodeState}
    (hstate : s.mapNodeState.lookup nodeid = some state) (state' : CNodeState)
    (hv : state'.vBlocksInFlight = state.vBlocksInFlight)
    (hn : state'.nBlocksInFlight = state.nBlocksInFlight)
    (hvh : state'.nBlocksInFlightValidHeaders = state.nBlocksInFlightValidHeaders)
    (hsync : state'.fSyncStarted = state.fSyncStarted)
    (hpref : state'.fPreferredDownload = state.fPreferredDownload)
    (hprotect : state'.m_protect = state.m_protect) :
    (s.setState nodeid state').Bookkeeping := by
  refine h.replace hstate rfl ((h.queue nodeid state hstate).frame hv hn hvh)
    (h.inFlight.frame hstate hv) ?_ ?_ ?_ ?_ h.protect_le
  · simp [DownloadState.setState, hsync]
  · simp [DownloadState.setState, hpref]
  · simp [DownloadState.setState, CNodeState.validatedDownloads, hvh]
  · simp [DownloadState.setState, hprotect]

/-- How `MarkBlockAsReceived` moves `nPeersWithValidatedDownloads`: down by
one when the last validated block of the queue is received. -/
theorem validated_receive (c v : Int) (fValidatedHeaders : Bool)
    (hv : fValidatedHeaders = true → 1 ≤ v) :
    (if v - fValidatedHeaders.toNat = 0 ∧ fValidatedHeaders = true then c - 1 else c) =
      c - (v != 0).toNat + (v - fValidatedHeaders.toNat != 0).toNat := by
  cases fValidatedHeaders with
  | false => simp
  | true =>
    have hne : (v != 0) = true := bne_iff_ne.mpr (by have := hv rfl; omega)
    rw [hne]
    by_cases hv1 : v - 1 = 0
    · simp [hv1]
    · have : (v - 1 != 0) = true := bne_iff_ne.mpr hv1
      simp [hv1, this]

/-- How `MarkBlockAsInFlight` moves `nPeersWithValidatedDownloads`: up by one
when the first validated block joins the queue. -/
theorem validated_add (c v : Int) (fValidatedHeaders : Bool) (hv : 0 ≤ v) :
    (if v + fValidatedHeaders.toNat = 1 ∧ fValidatedHeaders = true then c + 1 else c) =
      c - (v != 0).toNat + (v + fValidatedHeaders.toNat != 0).toNat := by
  cases fValidatedHeaders with
  | false => simp
  | true =>
    by_cases hv0 : v = 0
    · simp [hv0]
    · have h₁ : (v != 0) = true := bne_iff_ne.mpr hv0
      have h₂ : (v + 1 != 0) = true := bne_iff_ne.mpr (by omega)
      simp [h₁, h₂, show v + 1 ≠ 1 by omega]

/-- `MarkBlockAsReceived` succeeds, keeps the bookkeeping and the peers,
leaves the block out of the map, and touches no peer but the one the block was
asked of. -/
theorem markBlockAsReceived (h : s.Bookkeeping) (nNow : Int) (hash : uint256) :
    ∃ fReceived s', DownloadState.markBlockAsReceived nNow hash s = some (fReceived, s') ∧
      s'.Bookkeeping ∧ s'.mapBlocksInFlight.lookup hash = none ∧
      (∀ nodeid, nodeid ∈ s'.mapNodeState ↔ nodeid ∈ s.mapNodeState) ∧
      ∀ nodeid state, s.mapNodeState.lookup nodeid = some state →
        (s.mapBlocksInFlight.lookup hash).any (·.1 == nodeid) = false →
        s'.mapNodeState.lookup nodeid = some state := by
  cases hlookup : s.mapBlocksInFlight.lookup hash with
  | none =>
    exact ⟨false, s, by simp [DownloadState.markBlockAsReceived, hlookup], h, hlookup,
      fun _ => Iff.rfl, fun _ _ hs _ => hs⟩
  | some entry =>
    obtain ⟨nodeid, queued⟩ := entry
    obtain ⟨⟨state, hstate, hmem⟩, -⟩ := (h.inFlight hash nodeid queued).mp hlookup
    have hq := h.queue nodeid state hstate
    -- a validated block in the queue is counted
    have hcount : queued.fValidatedHeaders = true → 1 ≤ state.nBlocksInFlightValidHeaders := by
      intro hv
      rw [hq.nBlocksInFlightValidHeaders]
      exact_mod_cast List.countP_pos_iff.mpr ⟨queued, hmem, hv⟩
    simp only [DownloadState.markBlockAsReceived, hlookup, hstate, Option.bind_eq_bind,
      Option.bind_some]
    refine ⟨_, _, rfl, ?_, by simp [AList.lookup_erase], ?_, ?_⟩
    · refine h.replace hstate rfl (hq.erase hmem rfl rfl rfl)
        (h.inFlight.receive hlookup hstate hq.nodup rfl) (by simp) (by simp) ?_ (by simp)
        (by simpa using h.protect_le)
      simpa [CNodeState.validatedDownloads] using
        validated_receive s.nPeersWithValidatedDownloads state.nBlocksInFlightValidHeaders
          queued.fValidatedHeaders hcount
    · exact fun nodeid' => mem_insert_of_lookup hstate
    · intro nodeid' state' hstate' hany
      have hne : nodeid' ≠ nodeid := by
        rintro rfl
        simp at hany
      simpa [AList.lookup_insert_ne hne] using hstate'

/-- `MarkBlockAsInFlight` for a connected peer with room, or for a block in
flight from that peer already, succeeds, keeps the bookkeeping and the peers,
and adds at most one block to the peer's queue. -/
theorem markBlockAsInFlight (h : s.Bookkeeping) (nNow : Int) {nodeid : NodeId} (hash : uint256)
    (fValidatedHeaders : Bool) {state : CNodeState}
    (hstate : s.mapNodeState.lookup nodeid = some state)
    (hroom : state.nBlocksInFlight < MAX_BLOCKS_IN_TRANSIT_PER_PEER ∨
      (s.mapBlocksInFlight.lookup hash).any (·.1 == nodeid)) :
    ∃ fNew s', Veribase.markBlockAsInFlight nNow nodeid hash fValidatedHeaders s = some (fNew, s') ∧
      s'.Bookkeeping ∧ (∀ nodeid', nodeid' ∈ s'.mapNodeState ↔ nodeid' ∈ s.mapNodeState) ∧
      ∃ state', s'.mapNodeState.lookup nodeid = some state' ∧
        state'.nBlocksInFlight ≤ state.nBlocksInFlight + 1 := by
  by_cases hany : (s.mapBlocksInFlight.lookup hash).any (·.1 == nodeid) = true
  · -- in flight from this peer already: nothing changes
    exact ⟨false, s, by simp [Veribase.markBlockAsInFlight, hstate, hany], h, fun _ => Iff.rfl,
      state, hstate, by omega⟩
  · have hroom' : state.nBlocksInFlight < MAX_BLOCKS_IN_TRANSIT_PER_PEER := hroom.resolve_right hany
    have hany' : (s.mapBlocksInFlight.lookup hash).any (·.1 == nodeid) = false := by simpa using hany
    obtain ⟨fReceived, s₁, hreceived, h₁, hnone, hmem₁, hkeep⟩ := h.markBlockAsReceived nNow hash
    -- the block was not this peer's, so the peer is as it was
    have hstate₁ : s₁.mapNodeState.lookup nodeid = some state := hkeep nodeid state hstate hany'
    have hq := h₁.queue nodeid state hstate₁
    have hnew : hash ∉ state.vBlocksInFlight.map (·.hash) := by
      intro hmem
      obtain ⟨queued, hqueued, hqhash⟩ := List.mem_map.mp hmem
      exact h₁.inFlight.not_queued hnone ⟨state, hstate₁, hqueued⟩ hqhash
    simp only [Veribase.markBlockAsInFlight, hstate, hany', hreceived, hstate₁, Option.bind_eq_bind,
      Option.bind_some, Bool.false_eq_true, if_false]
    refine ⟨_, _, rfl, ?_, ?_, _, AList.lookup_insert _, by simp⟩
    · refine h₁.replace hstate₁ rfl (hq.append hnew hroom' rfl rfl rfl) ?_ (by simp) (by simp) ?_
        (by simp) (by simpa using h₁.protect_le)
      · simp only
        rw [insertNew_of_lookup_none hnone]
        exact h₁.inFlight.add hnone hstate₁ rfl rfl
      · have hv : 0 ≤ state.nBlocksInFlightValidHeaders := by
          rw [hq.nBlocksInFlightValidHeaders]
          exact Int.natCast_nonneg _
        simpa [CNodeState.validatedDownloads] using
          validated_add s₁.nPeersWithValidatedDownloads state.nBlocksInFlightValidHeaders
            fValidatedHeaders hv
    · exact fun nodeid' => (mem_insert_of_lookup hstate₁).trans (hmem₁ nodeid')

/-- The direct fetch asks only while the peer has room. -/
theorem directFetch (nNow : Int) {nodeid : NodeId} :
    ∀ (hashes : List uint256) {s : DownloadState}, s.Bookkeeping → nodeid ∈ s.mapNodeState →
      ∃ s', Veribase.directFetch nNow nodeid hashes s = some s' ∧ s'.Bookkeeping
  | [], s, h, _ => ⟨s, rfl, h⟩
  | hash :: hashes, s, h, hmem => by
    obtain ⟨state, hstate⟩ := Option.isSome_iff_exists.mp (AList.lookup_isSome.mpr hmem)
    by_cases hfull : state.nBlocksInFlight ≥ MAX_BLOCKS_IN_TRANSIT_PER_PEER
    · exact ⟨s, by simp [Veribase.directFetch, hstate, hfull], h⟩
    · obtain ⟨_, s₁, hmark, h₁, hmem₁, -⟩ :=
        h.markBlockAsInFlight nNow hash true hstate (Or.inl (by omega))
      obtain ⟨s', hrun, h'⟩ := directFetch nNow hashes h₁ ((hmem₁ nodeid).mpr hmem)
      exact ⟨s', by simp [Veribase.directFetch, hstate, hfull, hmark, hrun], h'⟩

/-- The loop of `SendMessages` over the blocks to download: each one asked for
adds at most one block to the queue, so a list no longer than the room left
keeps the queue within its bound. -/
theorem markEachInFlight (nNow : Int) {nodeid : NodeId} :
    ∀ (hashes : List uint256) {s : DownloadState} {state : CNodeState}, s.Bookkeeping →
      s.mapNodeState.lookup nodeid = some state →
      state.nBlocksInFlight + hashes.length ≤ MAX_BLOCKS_IN_TRANSIT_PER_PEER →
      ∃ s', Veribase.markEachInFlight nNow nodeid hashes s = some s' ∧ s'.Bookkeeping ∧
        ∀ nodeid', nodeid' ∈ s'.mapNodeState ↔ nodeid' ∈ s.mapNodeState
  | [], s, _, h, _, _ => ⟨s, rfl, h, fun _ => Iff.rfl⟩
  | hash :: hashes, s, state, h, hstate, hroom => by
    simp only [List.length_cons, Nat.cast_add, Nat.cast_one] at hroom
    obtain ⟨_, s₁, hmark, h₁, hmem₁, state₁, hstate₁, hle₁⟩ :=
      h.markBlockAsInFlight nNow hash true hstate (Or.inl (by omega))
    obtain ⟨s', hrun, h', hmem'⟩ := markEachInFlight nNow hashes h₁ hstate₁ (by omega)
    refine ⟨s', by simp [Veribase.markEachInFlight, hmark, hrun], h', fun n => ?_⟩
    rw [hmem', hmem₁]

/-- The block requests of `SendMessages`, with the bounds of
`FindNextBlocksToDownload`: the staller's state is there to be marked. -/
theorem getDataBlocks (h : s.Bookkeeping) (nNow : Int) {nodeid : NodeId}
    (vToDownload : List uint256) (staller : NodeId) {state : CNodeState}
    (hstate : s.mapNodeState.lookup nodeid = some state)
    (hlen : (vToDownload.length : Int) ≤ MAX_BLOCKS_IN_TRANSIT_PER_PEER - state.nBlocksInFlight)
    (hstaller : staller = -1 ∨ ∃ hash queued, s.mapBlocksInFlight.lookup hash = some (staller, queued)) :
    ∃ s', Veribase.getDataBlocks nNow nodeid vToDownload staller s = some s' ∧ s'.Bookkeeping := by
  by_cases hroom : state.nBlocksInFlight < MAX_BLOCKS_IN_TRANSIT_PER_PEER
  · obtain ⟨s₁, hrun, h₁, hmem₁⟩ := markEachInFlight nNow vToDownload h hstate (by omega)
    have hmem : nodeid ∈ s₁.mapNodeState :=
      (hmem₁ nodeid).mpr (AList.lookup_isSome.mp (by simp [hstate]))
    obtain ⟨state₁, hstate₁⟩ := Option.isSome_iff_exists.mp (AList.lookup_isSome.mpr hmem)
    by_cases hstall : state₁.nBlocksInFlight = 0 ∧ staller ≠ -1
    · -- the staller has a block in flight, so it has a state
      obtain ⟨hash, queued, hlookup⟩ := hstaller.resolve_left hstall.2
      obtain ⟨⟨stallerState, hstaller₀, -⟩, -⟩ := (h.inFlight hash staller queued).mp hlookup
      have hmemStaller : staller ∈ s₁.mapNodeState :=
        (hmem₁ staller).mpr (AList.lookup_isSome.mp (by simp [hstaller₀]))
      obtain ⟨stallerState₁, hstallerState₁⟩ :=
        Option.isSome_iff_exists.mp (AList.lookup_isSome.mpr hmemStaller)
      by_cases hsince : stallerState₁.nStallingSince = 0
      · exact ⟨_, by simp [Veribase.getDataBlocks, hstate, hroom, hrun, hstate₁, hstall,
          hstallerState₁, hsince],
          h₁.frame hstallerState₁ { stallerState₁ with nStallingSince := nNow } rfl rfl rfl rfl rfl rfl⟩
      · exact ⟨s₁, by simp [Veribase.getDataBlocks, hstate, hroom, hrun, hstate₁, hstall,
          hstallerState₁, hsince], h₁⟩
    · exact ⟨s₁, by simp [Veribase.getDataBlocks, hstate, hroom, hrun, hstate₁, hstall], h₁⟩
  · exact ⟨s, by simp [Veribase.getDataBlocks, hstate, hroom], h⟩

/-- The request of a `CMPCTBLOCK` asks only a peer with room, or the peer the
block is in flight from. -/
theorem compactBlockRequest (h : s.Bookkeeping) (nNow : Int) {nodeid : NodeId} (hash : uint256)
    (hmem : nodeid ∈ s.mapNodeState) :
    ∃ s', Veribase.compactBlockRequest nNow nodeid hash s = some s' ∧ s'.Bookkeeping := by
  obtain ⟨state, hstate⟩ := Option.isSome_iff_exists.mp (AList.lookup_isSome.mpr hmem)
  simp only [Veribase.compactBlockRequest, hstate, Option.bind_eq_bind, Option.bind_some]
  by_cases hask : ((s.mapBlocksInFlight.lookup hash).isNone ∧
      state.nBlocksInFlight < MAX_BLOCKS_IN_TRANSIT_PER_PEER) ∨
      (s.mapBlocksInFlight.lookup hash).any (·.1 == nodeid)
  · have hroom : state.nBlocksInFlight < MAX_BLOCKS_IN_TRANSIT_PER_PEER ∨
        (s.mapBlocksInFlight.lookup hash).any (·.1 == nodeid) := hask.imp_left (·.2)
    obtain ⟨_, s', hmark, h', -⟩ := h.markBlockAsInFlight nNow hash true hstate hroom
    rw [if_pos hask, hmark]
    exact ⟨s', rfl, h'⟩
  · rw [if_neg hask]
    exact ⟨s, rfl, h⟩

/-- `InitializeNode` adds a peer with nothing in flight and no flag; a peer
already there is kept. -/
theorem initializeNode (h : s.Bookkeeping) (nodeid : NodeId) :
    (Veribase.initializeNode nodeid s).Bookkeeping := by
  cases hlookup : s.mapNodeState.lookup nodeid with
  | some state =>
    have : Veribase.initializeNode nodeid s = s := by
      simp [Veribase.initializeNode, insertNew_of_lookup_some hlookup]
    rw [this]
    exact h
  | none =>
    have hmap : (Veribase.initializeNode nodeid s).mapNodeState =
        s.mapNodeState.insert nodeid CNodeState.init := insertNew_of_lookup_none hlookup _
    -- the new peer has none of the flags, so no counter moves
    have hcount : ∀ p : CNodeState → Bool, p CNodeState.init = false →
        tally p (Veribase.initializeNode nodeid s).mapNodeState = tally p s.mapNodeState := by
      intro p hp
      rw [hmap, tally_insert_of_lookup_none _ hlookup, hp, Bool.toNat_false, Nat.add_zero]
    refine ⟨?_, ?_, ?_, ?_, h.protect_le, ?_, ?_⟩
    · rw [hcount _ rfl]
      exact h.nSyncStarted
    · rw [hcount _ rfl]
      exact h.nPreferredDownload
    · rw [hcount _ rfl]
      exact h.nPeersWithValidatedDownloads
    · rw [hcount _ rfl]
      exact h.g_outbound_peers_with_protect_from_disconnect
    · intro nodeid' state' hstate'
      rw [hmap] at hstate'
      by_cases hn : nodeid' = nodeid
      · subst hn
        rw [AList.lookup_insert, Option.some.injEq] at hstate'
        exact hstate' ▸ CNodeState.QueueHolds.init
      · rw [AList.lookup_insert_ne hn] at hstate'
        exact h.queue nodeid' state' hstate'
    · rw [hmap]
      exact h.inFlight.initializeNode hlookup

/-- `FinalizeNode` of a connected peer: its `assert`s hold, and the
bookkeeping holds after it. -/
theorem finalizeNode (h : s.Bookkeeping) {nodeid : NodeId} {state : CNodeState}
    (hstate : s.mapNodeState.lookup nodeid = some state) :
    ∃ s', Veribase.finalizeNode nodeid s = some s' ∧ s'.Bookkeeping := by
  -- what is left of each counter is the count over the other peers
  have hsync := tally_erase_of_lookup (·.fSyncStarted) hstate
  have hpref := tally_erase_of_lookup (·.fPreferredDownload) hstate
  have hvalid := tally_erase_of_lookup (·.validatedDownloads) hstate
  have hprotect := tally_erase_of_lookup (·.m_protect) hstate
  have hflight := h.inFlight.finalizeNode hstate
  rw [← h.nSyncStarted] at hsync
  rw [← h.nPreferredDownload] at hpref
  rw [← h.nPeersWithValidatedDownloads] at hvalid
  rw [← h.g_outbound_peers_with_protect_from_disconnect] at hprotect
  have hvalid₀ : s.nPeersWithValidatedDownloads - state.validatedDownloads.toNat ≥ 0 := by
    rw [← hvalid]
    exact Int.natCast_nonneg _
  have hprotect₀ : s.g_outbound_peers_with_protect_from_disconnect - state.m_protect.toNat ≥ 0 := by
    rw [← hprotect]
    exact Int.natCast_nonneg _
  -- the consistency check once the last peer is gone
  have hlast : (s.mapNodeState.erase nodeid).entries = [] →
      (eraseEach (·.hash) state.vBlocksInFlight s.mapBlocksInFlight).entries = [] ∧
      s.nPreferredDownload - state.fPreferredDownload.toNat = 0 ∧
      s.nPeersWithValidatedDownloads - state.validatedDownloads.toNat = 0 ∧
      s.g_outbound_peers_with_protect_from_disconnect - state.m_protect.toNat = 0 := by
    intro hnil
    refine ⟨hflight.entries_eq_nil hnil, ?_, ?_, ?_⟩
    · rw [← hpref, tally_eq_zero_of_entries _ hnil, Nat.cast_zero]
    · rw [← hvalid, tally_eq_zero_of_entries _ hnil, Nat.cast_zero]
    · rw [← hprotect, tally_eq_zero_of_entries _ hnil, Nat.cast_zero]
  refine ⟨⟨s.mapNodeState.erase nodeid, eraseEach (·.hash) state.vBlocksInFlight s.mapBlocksInFlight,
    s.nSyncStarted - state.fSyncStarted.toNat, s.nPreferredDownload - state.fPreferredDownload.toNat,
    s.nPeersWithValidatedDownloads - state.validatedDownloads.toNat,
    s.g_outbound_peers_with_protect_from_disconnect - state.m_protect.toNat⟩, ?_, ?_⟩
  · simp only [Veribase.finalizeNode, hstate, Option.bind_eq_bind, Option.bind_some, guard,
      if_pos hvalid₀, if_pos hprotect₀]
    by_cases hnil : (s.mapNodeState.erase nodeid).entries = []
    · simp [hnil, hlast hnil]
    · simp [hnil]
  · refine ⟨hsync.symm, hpref.symm, hvalid.symm, hprotect.symm, ?_, ?_, hflight⟩
    · have hle := h.protect_le
      have : (0 : Int) ≤ state.m_protect.toNat := Int.natCast_nonneg _
      simp only
      omega
    · intro nodeid' state' hstate'
      by_cases hn : nodeid' = nodeid
      · subst hn
        simp [AList.lookup_erase] at hstate'
      · rw [AList.lookup_erase_ne hn] at hstate'
        exact h.queue nodeid' state' hstate'

/-- `UpdatePreferredDownload` moves `nPreferredDownload` with the flag. -/
theorem updatePreferredDownload (h : s.Bookkeeping) (node : CNode) {nodeid : NodeId}
    (hmem : nodeid ∈ s.mapNodeState) :
    ∃ s', Veribase.updatePreferredDownload node nodeid s = some s' ∧ s'.Bookkeeping := by
  obtain ⟨state, hstate⟩ := Option.isSome_iff_exists.mp (AList.lookup_isSome.mpr hmem)
  simp only [Veribase.updatePreferredDownload, hstate, Option.bind_eq_bind, Option.bind_some]
  refine ⟨_, rfl, ?_⟩
  exact h.replace hstate rfl ((h.queue nodeid state hstate).frame rfl rfl rfl)
    (h.inFlight.frame hstate rfl) (by simp) rfl (by simp [CNodeState.validatedDownloads])
    (by simp) h.protect_le

/-- The start of the headers sync counts the peer in `nSyncStarted`. -/
theorem startSync (h : s.Bookkeeping) {nodeid : NodeId} (hmem : nodeid ∈ s.mapNodeState) :
    ∃ s', Veribase.startSync nodeid s = some s' ∧ s'.Bookkeeping := by
  obtain ⟨state, hstate⟩ := Option.isSome_iff_exists.mp (AList.lookup_isSome.mpr hmem)
  cases hsync : state.fSyncStarted with
  | true => exact ⟨s, by simp [Veribase.startSync, hstate, hsync], h⟩
  | false =>
    simp only [Veribase.startSync, hstate, hsync, Option.bind_eq_bind, Option.bind_some,
      Bool.not_false, ↓reduceIte]
    refine ⟨_, rfl, ?_⟩
    exact h.replace hstate rfl ((h.queue nodeid state hstate).frame rfl rfl rfl)
      (h.inFlight.frame hstate rfl) (by simp [hsync]) (by simp [DownloadState.setState])
      (by simp [DownloadState.setState, CNodeState.validatedDownloads])
      (by simp [DownloadState.setState]) h.protect_le

/-- The headers sync timeout of a peer with `PF_NOBAN` takes it out of
`nSyncStarted`. -/
theorem syncTimeout (h : s.Bookkeeping) {nodeid : NodeId} (hmem : nodeid ∈ s.mapNodeState) :
    ∃ s', Veribase.syncTimeout nodeid s = some s' ∧ s'.Bookkeeping := by
  obtain ⟨state, hstate⟩ := Option.isSome_iff_exists.mp (AList.lookup_isSome.mpr hmem)
  simp only [Veribase.syncTimeout, hstate, Option.bind_eq_bind, Option.bind_some]
  by_cases htimeout : state.fSyncStarted ∧ s.nSyncStarted = 1 ∧
      s.nPreferredDownload - state.fPreferredDownload.toNat ≥ 1
  · rw [if_pos htimeout]
    refine ⟨_, rfl, ?_⟩
    exact h.replace hstate rfl ((h.queue nodeid state hstate).frame rfl rfl rfl)
      (h.inFlight.frame hstate rfl) (by simp [htimeout.1])
      (by simp [DownloadState.setState])
      (by simp [DownloadState.setState, CNodeState.validatedDownloads])
      (by simp [DownloadState.setState]) h.protect_le
  · rw [if_neg htimeout]
    exact ⟨s, rfl, h⟩

/-- The protection of an outbound peer is counted, and stops at
`MAX_OUTBOUND_PEERS_TO_PROTECT_FROM_DISCONNECT`. -/
theorem protectPeer (h : s.Bookkeeping) {nodeid : NodeId} (hmem : nodeid ∈ s.mapNodeState) :
    ∃ s', Veribase.protectPeer nodeid s = some s' ∧ s'.Bookkeeping := by
  obtain ⟨state, hstate⟩ := Option.isSome_iff_exists.mp (AList.lookup_isSome.mpr hmem)
  simp only [Veribase.protectPeer, hstate, Option.bind_eq_bind, Option.bind_some]
  by_cases hprotect : s.g_outbound_peers_with_protect_from_disconnect <
      MAX_OUTBOUND_PEERS_TO_PROTECT_FROM_DISCONNECT ∧ !state.m_protect
  · have hfalse : state.m_protect = false := by simpa using hprotect.2
    rw [if_pos hprotect]
    refine ⟨_, rfl, ?_⟩
    exact h.replace hstate rfl ((h.queue nodeid state hstate).frame rfl rfl rfl)
      (h.inFlight.frame hstate rfl) (by simp [DownloadState.setState])
      (by simp [DownloadState.setState])
      (by simp [DownloadState.setState, CNodeState.validatedDownloads])
      (by simp [hfalse]) (by simp only; omega)
  · rw [if_neg hprotect]
    exact ⟨s, rfl, h⟩

/-- **Every allowed event keeps the bookkeeping**, and no `assert` of it fails. -/
theorem step (h : s.Bookkeeping) :
    ∀ e : DownloadEvent, e.Allowed s → ∃ s', e.step s = some s' ∧ s'.Bookkeeping
  | .initializeNode nodeid, _ => ⟨_, rfl, h.initializeNode nodeid⟩
  | .finalizeNode nodeid, hmem => by
    obtain ⟨state, hstate⟩ := Option.isSome_iff_exists.mp (AList.lookup_isSome.mpr hmem)
    exact h.finalizeNode hstate
  | .version nodeid node, hmem => h.updatePreferredDownload node hmem
  | .headers nodeid vToFetch nNow, hmem => directFetch nNow vToFetch h hmem
  | .cmpctBlock nodeid hash nNow, hmem => h.compactBlockRequest nNow hash hmem
  | .received hash nNow, _ => by
    obtain ⟨_, s', hreceived, h', -⟩ := h.markBlockAsReceived nNow hash
    exact ⟨s', by simp [DownloadEvent.step, hreceived], h'⟩
  | .getData nodeid vToDownload staller nNow, ⟨_, hstate, hlen, hstaller⟩ =>
    h.getDataBlocks nNow vToDownload staller hstate hlen hstaller
  | .startSync nodeid, hmem => h.startSync hmem
  | .syncTimeout nodeid, hmem => h.syncTimeout hmem
  | .protect nodeid, hmem => h.protectPeer hmem

/-- The run lemma: a run of allowed events keeps the bookkeeping throughout. -/
theorem run : ∀ (events : List DownloadEvent) {s : DownloadState}, s.Bookkeeping →
    DownloadEvent.AllowedRun s events →
    ∃ s', DownloadEvent.run events s = some s' ∧ s'.Bookkeeping
  | [], s, h, _ => ⟨s, rfl, h⟩
  | e :: events, _, h, ⟨hallowed, hrest⟩ => by
    obtain ⟨s₁, hstep, h₁⟩ := h.step e hallowed
    obtain ⟨s', hrun, h'⟩ := run events h₁ (hrest s₁ hstep)
    exact ⟨s', by simp [DownloadEvent.run, hstep, hrun], h'⟩

end DownloadState.Bookkeeping

/-! ## Runs -/

/-- **No `assert` of the block download bookkeeping fails.**  In every run
from start-up whose events concern connected peers, every event succeeds and
the state reached keeps the bookkeeping: each of `nSyncStarted`,
`nPreferredDownload`, `nPeersWithValidatedDownloads` and
`g_outbound_peers_with_protect_from_disconnect` counts the connected peers
with its flag, each peer's queue agrees with `nBlocksInFlight` and
`nBlocksInFlightValidHeaders`, holds each block once and at most
`MAX_BLOCKS_IN_TRANSIT_PER_PEER` of them, `mapBlocksInFlight` lists exactly
the queued blocks, and at most `MAX_OUTBOUND_PEERS_TO_PROTECT_FROM_DISCONNECT`
peers are protected. -/
theorem downloadState_run_bookkeeping (events : List DownloadEvent)
    (hallowed : DownloadEvent.AllowedRun DownloadState.init events) :
    ∃ s, DownloadEvent.run events DownloadState.init = some s ∧ s.Bookkeeping :=
  DownloadState.Bookkeeping.init.run events hallowed

/-- A peer that connects, starts the headers sync and disconnects. -/
theorem downloadState_run_bookkeeping_sync_peer :
    DownloadEvent.AllowedRun DownloadState.init
        [.initializeNode 0, .startSync 0, .finalizeNode 0] ∧
      ∃ s, DownloadEvent.run [.initializeNode 0, .startSync 0, .finalizeNode 0]
        DownloadState.init = some s ∧ s.Bookkeeping := by
  have hinit : (initializeNode 0 DownloadState.init).mapNodeState =
      (∅ : AList fun _ : NodeId => CNodeState).insert 0 CNodeState.init :=
    insertNew_of_lookup_none (AList.lookup_empty 0) _
  have hallowed : DownloadEvent.AllowedRun DownloadState.init
      [.initializeNode 0, .startSync 0, .finalizeNode 0] := by
    refine ⟨trivial, fun s₁ h₁ => ⟨?_, fun s₂ h₂ => ⟨?_, fun _ _ => trivial⟩⟩⟩
    · simp only [DownloadEvent.step, Option.some.injEq] at h₁
      subst h₁
      exact mem_initializeNode 0 _
    · simp only [DownloadEvent.step, Option.some.injEq] at h₁
      subst h₁
      have hlookup : (initializeNode 0 DownloadState.init).mapNodeState.lookup 0 =
          some CNodeState.init := by
        rw [hinit, AList.lookup_insert]
      simp only [DownloadEvent.step, Veribase.startSync, hlookup, Option.bind_eq_bind,
        Option.bind_some] at h₂
      have hsync : CNodeState.init.fSyncStarted = false := rfl
      simp only [hsync, Bool.not_false, ↓reduceIte, Option.pure_def, Option.some.injEq] at h₂
      subst h₂
      exact (AList.mem_insert _).mpr (Or.inl rfl)
  exact ⟨hallowed, downloadState_run_bookkeeping _ hallowed⟩

end Veribase
