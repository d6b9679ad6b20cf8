import Veribase.Primitives.Block

/-!
# Blocks waiting for their parent

On Vericoin the BLOCK handler (`net_processing.cpp`) does not pass a block
to `ProcessNewBlock` at once.  It stores it in `mapBlocksWait`, keyed by the
index entry of its parent, with the time it came, and then runs the accept
loop: take the waiting child of `pindexLastAccepted` if there is one,
otherwise scan the map in key order, dropping a block that has waited more
than 60 seconds or whose parent failed, and selecting the first one whose
parent is valid up to its transactions.  A dropped block is passed to
`MarkBlockAsReceived`; a selected one to `MarkBlockAsReceived` and then to
`ProcessNewBlock`.  The loop goes on while a pass removed a block.

Every pass that goes on removes an entry of the map, and `ProcessNewBlock`
does not add one, so the loop stops within the size of the map plus one
passes (`acceptLoop_budget`).

The store is `mapBlocksWait[headerPrev] = we`.  A block waiting under the
same parent is overwritten: it leaves the map without being processed and
without a `MarkBlockAsReceived` of its hash, and no later message that does
not carry it again brings it back (`handleBlock_sibling_lost`).

The rest of the node is a `BlockEngine`: the block index as the handler
reads it and `ProcessNewBlock`, over any node state.  The map's key order is
the order of the entries' addresses, an argument `addr`.  The calls of
`ProcessNewBlock` and `MarkBlockAsReceived` are logged in the state, so that
what happens to a block is a statement about the state.  `Misbehaving`,
`mapBlockSource`, `nLastBlockTime` and the per-peer counters of
`MarkBlockAsReceived` are left out.
-/

namespace Veribase

/-- `MAX_CONSECUTIVE_POS_HEADERS` (`net.h`). -/
def MAX_CONSECUTIVE_POS_HEADERS : Int := 1000

/-- `WaitElement`: a waiting block and the time it came. -/
structure WaitElement where
  pblock : CBlock
  time : Int

/-- What the handler reads of the rest of the node, whose state is `σ`. -/
structure BlockEngine (σ : Type) where
  /-- `LookupBlockIndex(hash) != nullptr`. -/
  lookupBlockIndex : σ → uint256 → Bool
  /-- `IsValid(BLOCK_VALID_TRANSACTIONS)` of the entry of a hash. -/
  isValid : σ → uint256 → Bool
  /-- `nStatus & BLOCK_FAILED_MASK` of the entry of a hash. -/
  hasFailed : σ → uint256 → Bool
  /-- `::ChainActive().Tip()`. -/
  tip : σ → Option uint256
  /-- `::ChainstateActive().IsInitialBlockDownload()`. -/
  isInitialBlockDownload : σ → Bool
  /-- `ProcessNewBlock(chainparams, pblock, forceProcessing, &fNewBlock,
  &pindexLastAccepted, &fPoSDuplicate)`: the node after it, `*ppindex` and
  `fPoSDuplicate`. -/
  processNewBlock : σ → CBlock → Bool → σ × Option uint256 × Bool

/-- The state the handler reads and writes, with the peers' addresses `α`,
and the log of the calls it makes. -/
structure WaitState (σ α : Type) where
  /-- The rest of the node. -/
  node : σ
  /-- `mapBlocksWait`, by the key of the parent's entry, in key order. -/
  mapBlocksWait : List (uint256 × WaitElement)
  /-- The hashes of `mapBlocksInFlight`. -/
  mapBlocksInFlight : List uint256
  mapPoSTemperature : α → Int
  /-- The `static pindexLastAccepted` of the handler. -/
  pindexLastAccepted : Option uint256
  /-- The blocks passed to `ProcessNewBlock`, in order. -/
  processed : List CBlock
  /-- The hashes passed to `MarkBlockAsReceived`, in order. -/
  received : List uint256

/-! ## The map -/

/-- Insert an entry before the first one of a larger address. -/
def insertByAddr (addr : uint256 → Nat) (e : uint256 × WaitElement) :
    List (uint256 × WaitElement) → List (uint256 × WaitElement)
  | [] => [e]
  | e' :: rest => if addr e.1 ≤ addr e'.1 then e :: e' :: rest else e' :: insertByAddr addr e rest

/-- `mapBlocksWait.erase(k)`. -/
def waitErase (k : uint256) (l : List (uint256 × WaitElement)) : List (uint256 × WaitElement) :=
  l.filter fun e => e.1 != k

/-- `mapBlocksWait[k] = we`: an entry under `k` is replaced. -/
def waitInsert (addr : uint256 → Nat) (k : uint256) (we : WaitElement)
    (l : List (uint256 × WaitElement)) : List (uint256 × WaitElement) :=
  insertByAddr addr (k, we) (waitErase k l)

theorem mem_insertByAddr {addr : uint256 → Nat} {e x : uint256 × WaitElement} :
    ∀ {l : List (uint256 × WaitElement)}, x ∈ insertByAddr addr e l ↔ x = e ∨ x ∈ l
  | [] => by simp [insertByAddr]
  | e' :: rest => by
      unfold insertByAddr
      split
      · simp
      · rw [List.mem_cons, mem_insertByAddr, List.mem_cons]
        tauto

@[simp] theorem mem_waitErase {k : uint256} {x : uint256 × WaitElement}
    {l : List (uint256 × WaitElement)} : x ∈ waitErase k l ↔ x ∈ l ∧ x.1 ≠ k := by
  simp [waitErase]

@[simp] theorem mem_waitInsert {addr : uint256 → Nat} {k : uint256} {we : WaitElement}
    {x : uint256 × WaitElement} {l : List (uint256 × WaitElement)} :
    x ∈ waitInsert addr k we l ↔ x = (k, we) ∨ x ∈ l ∧ x.1 ≠ k := by
  simp [waitInsert, mem_insertByAddr]

/-- Erasing a key that is there shortens the map. -/
theorem length_waitErase_lt {k : uint256} {we : WaitElement} {l : List (uint256 × WaitElement)}
    (h : (k, we) ∈ l) : (waitErase k l).length < l.length := by
  unfold waitErase
  apply List.length_filter_lt_length_iff_exists.mpr
  exact ⟨(k, we), h, by simp⟩

/-! ## The handler -/

section Handler

variable {σ α : Type} (E : BlockEngine σ) (H : Hashers) (addr : uint256 → Nat)

/-- `MarkBlockAsReceived(hash)`: whether the block was in flight, and the
state with it taken out of `mapBlocksInFlight`. -/
def markBlockAsReceived (hash : uint256) (s : WaitState σ α) : Bool × WaitState σ α :=
  (s.mapBlocksInFlight.contains hash,
    { s with
      mapBlocksInFlight := s.mapBlocksInFlight.filter (· != hash)
      received := s.received ++ [hash] })

@[simp] theorem markBlockAsReceived_mapBlocksWait (hash : uint256) (s : WaitState σ α) :
    (markBlockAsReceived hash s).2.mapBlocksWait = s.mapBlocksWait := rfl

@[simp] theorem markBlockAsReceived_processed (hash : uint256) (s : WaitState σ α) :
    (markBlockAsReceived hash s).2.processed = s.processed := rfl

@[simp] theorem markBlockAsReceived_received (hash : uint256) (s : WaitState σ α) :
    (markBlockAsReceived hash s).2.received = s.received ++ [hash] := rfl

/-- What one pass of the accept loop does with the map. -/
inductive WaitPick
  /-- Nothing is removed: `fContinue` stays false and the loop ends. -/
  | stop
  /-- The entry is erased and its block marked received, with no selection. -/
  | drop (k : uint256) (we : WaitElement)
  /-- The entry is erased and its block selected for processing. -/
  | select (k : uint256) (we : WaitElement)

/-- The scan of `mapBlocksWait` in key order, at time `nTimeNow`. -/
def scanWait (node : σ) (nTimeNow : Int) : List (uint256 × WaitElement) → WaitPick
  | [] => .stop
  | (k, we) :: rest =>
      -- remove blocks that were not connected in 60 seconds
      if nTimeNow > we.time + 60 then .drop k we
      else if !E.isValid node k then
        -- a failed parent drops the block; a parent not yet accepted skips it
        if E.hasFailed node k then .drop k we else scanWait node nTimeNow rest
      else .select k we

/-- The selection of a pass: the waiting child of `pindexLastAccepted` in
constant time, otherwise the scan. -/
def pickWait (nTimeNow : Int) (s : WaitState σ α) : WaitPick :=
  match s.pindexLastAccepted with
  | some p =>
      match s.mapBlocksWait.find? (fun e => e.1 == p) with
      | some (k, we) => .select k we
      | none => scanWait E s.node nTimeNow s.mapBlocksWait
  | none => scanWait E s.node nTimeNow s.mapBlocksWait

/-- The scan removes an entry of the map. -/
theorem scanWait_mem {node : σ} {nTimeNow : Int} {k : uint256} {we : WaitElement} :
    ∀ {l : List (uint256 × WaitElement)},
      (scanWait E node nTimeNow l = .drop k we ∨ scanWait E node nTimeNow l = .select k we) →
        (k, we) ∈ l
  | [] => by simp [scanWait]
  | (k', we') :: rest => by
      unfold scanWait
      split
      · rintro (h | h) <;> cases h
        exact List.mem_cons_self
      split
      · split
        · rintro (h | h) <;> cases h
          exact List.mem_cons_self
        · exact fun h => List.mem_cons_of_mem _ (scanWait_mem h)
      · rintro (h | h) <;> cases h
        exact List.mem_cons_self

/-- A pass removes an entry of the map. -/
theorem pickWait_mem {nTimeNow : Int} {s : WaitState σ α} {k : uint256} {we : WaitElement}
    (h : pickWait E nTimeNow s = .drop k we ∨ pickWait E nTimeNow s = .select k we) :
    (k, we) ∈ s.mapBlocksWait := by
  unfold pickWait at h
  split at h
  · split at h
    · rename_i hfind
      rcases h with h | h <;> cases h
      exact List.mem_of_find?_eq_some hfind
    · exact scanWait_mem E h
  · exact scanWait_mem E h

/-! ## What keeps a hash away -/

/-- No waiting block has the hash `h`. -/
def WaitAvoids (h : uint256) (s : WaitState σ α) : Prop :=
  ∀ e ∈ s.mapBlocksWait, e.2.pblock.getHash H true ≠ h

/-- From `s` to `s'` no block of hash `h` was passed to `ProcessNewBlock`,
and `h` was not passed to `MarkBlockAsReceived`. -/
def LogsAvoid (h : uint256) (s s' : WaitState σ α) : Prop :=
  (∃ l, s'.processed = s.processed ++ l ∧ ∀ b ∈ l, b.getHash H true ≠ h) ∧
    ∃ l, s'.received = s.received ++ l ∧ h ∉ l

theorem LogsAvoid.refl (h : uint256) (s : WaitState σ α) : LogsAvoid H h s s :=
  ⟨⟨[], by simp, by simp⟩, [], by simp, by simp⟩

theorem LogsAvoid.trans {h : uint256} {s₁ s₂ s₃ : WaitState σ α} (h₁₂ : LogsAvoid H h s₁ s₂)
    (h₂₃ : LogsAvoid H h s₂ s₃) : LogsAvoid H h s₁ s₃ := by
  obtain ⟨⟨p₁, hp₁, hb₁⟩, r₁, hr₁, hh₁⟩ := h₁₂
  obtain ⟨⟨p₂, hp₂, hb₂⟩, r₂, hr₂, hh₂⟩ := h₂₃
  refine ⟨⟨p₁ ++ p₂, by rw [hp₂, hp₁, List.append_assoc], ?_⟩, r₁ ++ r₂,
    by rw [hr₂, hr₁, List.append_assoc], by simp [hh₁, hh₂]⟩
  intro b hb
  rcases List.mem_append.mp hb with hb | hb
  · exact hb₁ b hb
  · exact hb₂ b hb

/-- Marking another hash received keeps `h` out of the log. -/
theorem LogsAvoid.markBlockAsReceived {h hash : uint256} (s : WaitState σ α) (hne : hash ≠ h) :
    LogsAvoid H h s (markBlockAsReceived hash s).2 :=
  ⟨⟨[], by simp, by simp⟩, [hash], by simp, by simpa using hne.symm⟩

/-- Storing a sibling overwrites the waiting block: when the blocks waiting
under other parents have other hashes, none of hash `h` is left. -/
theorem waitInsert_avoids {h : uint256} {k : uint256} {we : WaitElement}
    {l : List (uint256 × WaitElement)} (hothers : ∀ e ∈ l, e.1 ≠ k → e.2.pblock.getHash H true ≠ h)
    (hne : we.pblock.getHash H true ≠ h) :
    ∀ e ∈ waitInsert addr k we l, e.2.pblock.getHash H true ≠ h := by
  intro e he
  rcases mem_waitInsert.mp he with rfl | ⟨he, hk⟩
  · exact hne
  · exact hothers e he hk

variable [DecidableEq α]

/-- One pass of the accept loop for a message from `peer`: `none` when the
pass removed nothing. -/
def acceptPass (peer : α) (nTimeNow : Int) (s : WaitState σ α) : Option (WaitState σ α) :=
  match pickWait E nTimeNow s with
  | .stop => none
  | .drop k we =>
      let s := { s with mapBlocksWait := waitErase k s.mapBlocksWait }
      some (markBlockAsReceived (we.pblock.getHash H true) s).2
  | .select k we =>
      let s := { s with mapBlocksWait := waitErase k s.mapBlocksWait }
      let (forceProcessing, s) := markBlockAsReceived (we.pblock.getHash H true) s
      let (node, ppindex, fPoSDuplicate) := E.processNewBlock s.node we.pblock forceProcessing
      some { s with
        node
        pindexLastAccepted := ppindex
        processed := s.processed ++ [we.pblock]
        -- the duplicate is charged to the peer of this message
        mapPoSTemperature := if fPoSDuplicate then
            Function.update s.mapPoSTemperature peer (s.mapPoSTemperature peer + 100)
          else s.mapPoSTemperature }

/-- The accept loop, with a budget of passes. -/
def acceptLoop (peer : α) (nTimeNow : Int) : Nat → WaitState σ α → WaitState σ α
  | 0, s => s
  | n + 1, s =>
      match acceptPass E H peer nTimeNow s with
      | none => s
      | some s' => acceptLoop peer nTimeNow n s'

/-- The checks on an unrequested block once its peer is not too hot: a
stake block warms the peer outside initial block download, and a block
whose parent is not valid is marked received and refused.  `.error` is an
early return, with the state it leaves. -/
def admitUnrequested (peer : α) (block : CBlock) (s : WaitState σ α) :
    Except (WaitState σ α) (WaitState σ α) :=
  let s := if block.isProofOfStake true && !E.isInitialBlockDownload s.node then
      { s with mapPoSTemperature :=
        Function.update s.mapPoSTemperature peer (s.mapPoSTemperature peer + 1) }
    else s
  if !E.isValid s.node block.hashPrevBlock then
    .error (markBlockAsReceived (block.getHash H true) s).2
  else .ok s

/-- The checks before the store: the parent's header must be known, and an
unrequested block is refused from a peer that is too hot, outside the test
network, before `admitUnrequested`. -/
def admitBlock (isTestNet : Bool) (peer : α) (block : CBlock) (s : WaitState σ α) :
    Except (WaitState σ α) (WaitState σ α) :=
  let fRequested := s.mapBlocksInFlight.contains (block.getHash H true)
  if !E.lookupBlockIndex s.node block.hashPrevBlock then .error s
  else if fRequested then .ok s
  else if s.mapPoSTemperature peer ≥ MAX_CONSECUTIVE_POS_HEADERS then
    let cooled := Function.update s.mapPoSTemperature peer ((MAX_CONSECUTIVE_POS_HEADERS * 3) / 4)
    let s := { s with mapPoSTemperature := cooled }
    if !isTestNet then .error s else admitUnrequested E H peer block s
  else admitUnrequested E H peer block s

/-- The Vericoin branch of the BLOCK handler, for `block` from `peer`
received at `nTimeNow`. -/
def handleBlock (isTestNet : Bool) (peer : α) (block : CBlock) (nTimeNow : Int)
    (s : WaitState σ α) : WaitState σ α :=
  match admitBlock E H isTestNet peer block s with
  | .error s => s
  | .ok s =>
      -- store in memory until it can be connected to some chain
      let s := { s with
        mapBlocksWait := waitInsert addr block.hashPrevBlock ⟨block, nTimeNow⟩ s.mapBlocksWait }
      let s := if s.pindexLastAccepted.isNone then { s with pindexLastAccepted := E.tip s.node } else s
      acceptLoop E H peer nTimeNow (s.mapBlocksWait.length + 1) s

/-- A run of BLOCK messages: the peer, the block and the time each came. -/
def handleBlocks (isTestNet : Bool) (msgs : List (α × CBlock × Int)) (s : WaitState σ α) :
    WaitState σ α :=
  msgs.foldl (fun s m => handleBlock E H addr isTestNet m.1 m.2.1 m.2.2 s) s

/-! ## The accept loop stops -/

/-- A pass that goes on leaves a smaller map. -/
theorem acceptPass_length {peer : α} {nTimeNow : Int} {s s' : WaitState σ α}
    (h : acceptPass E H peer nTimeNow s = some s') :
    s'.mapBlocksWait.length < s.mapBlocksWait.length := by
  unfold acceptPass at h
  split at h
  · cases h
  · rename_i k we hpick
    cases h
    exact length_waitErase_lt (pickWait_mem E (.inl hpick))
  · rename_i k we hpick
    cases h
    exact length_waitErase_lt (pickWait_mem E (.inr hpick))

/-- A pass over a map without a block of hash `h` processes and marks other
blocks only, and leaves a smaller such map. -/
theorem acceptPass_avoids {h : uint256} {peer : α} {nTimeNow : Int} {s s' : WaitState σ α}
    (hs : WaitAvoids H h s) (hpass : acceptPass E H peer nTimeNow s = some s') :
    WaitAvoids H h s' ∧ LogsAvoid H h s s' := by
  unfold acceptPass at hpass
  split at hpass
  · cases hpass
  · -- a dropped block is marked received
    rename_i k we hpick
    cases hpass
    have hne := hs _ (pickWait_mem E (.inl hpick))
    refine ⟨fun e he => hs e (mem_waitErase.mp he).1, ?_⟩
    exact LogsAvoid.markBlockAsReceived H _ hne
  · -- a selected block is marked received and processed
    rename_i k we hpick
    cases hpass
    have hne := hs _ (pickWait_mem E (.inr hpick))
    refine ⟨fun e he => hs e (mem_waitErase.mp he).1, ⟨[we.pblock], rfl, by simpa using hne⟩,
      [we.pblock.getHash H true], rfl, by simpa using hne.symm⟩

/-- The loop keeps a map without a block of hash `h`, and never processes or
marks one. -/
theorem acceptLoop_avoids {h : uint256} (peer : α) (nTimeNow : Int) :
    ∀ (n : Nat) (s : WaitState σ α), WaitAvoids H h s →
      WaitAvoids H h (acceptLoop E H peer nTimeNow n s) ∧
        LogsAvoid H h s (acceptLoop E H peer nTimeNow n s)
  | 0, s, hs => ⟨hs, LogsAvoid.refl H h s⟩
  | n + 1, s, hs => by
      unfold acceptLoop
      split
      · exact ⟨hs, LogsAvoid.refl H h s⟩
      · rename_i s' hpass
        obtain ⟨hs', hlog⟩ := acceptPass_avoids E H hs hpass
        obtain ⟨hs'', hlog'⟩ := acceptLoop_avoids peer nTimeNow n s' hs'
        exact ⟨hs'', hlog.trans H hlog'⟩

/-- The checks before the store leave the map and the processed blocks as
they are, and mark at most the block itself received. -/
theorem admitUnrequested_frame (peer : α) (block : CBlock) (s : WaitState σ α) :
    ∃ s', (admitUnrequested E H peer block s = .ok s' ∨ admitUnrequested E H peer block s = .error s') ∧
      s'.mapBlocksWait = s.mapBlocksWait ∧ s'.processed = s.processed ∧
      (s'.received = s.received ∨ s'.received = s.received ++ [block.getHash H true]) := by
  unfold admitUnrequested
  dsimp only
  split_ifs <;> simp

theorem admitBlock_frame (isTestNet : Bool) (peer : α) (block : CBlock) (s : WaitState σ α) :
    ∃ s', (admitBlock E H isTestNet peer block s = .ok s' ∨ admitBlock E H isTestNet peer block s = .error s') ∧
      s'.mapBlocksWait = s.mapBlocksWait ∧ s'.processed = s.processed ∧
      (s'.received = s.received ∨ s'.received = s.received ++ [block.getHash H true]) := by
  unfold admitBlock
  dsimp only
  split_ifs
  · exact ⟨s, .inr rfl, rfl, rfl, .inl rfl⟩
  · exact ⟨s, .inl rfl, rfl, rfl, .inl rfl⟩
  · exact ⟨_, .inr rfl, rfl, rfl, .inl rfl⟩
  · exact admitUnrequested_frame E H peer block _
  · exact admitUnrequested_frame E H peer block s

/-- What the checks leave, whichever way they end. -/
theorem admitBlock_avoids {h : uint256} {isTestNet : Bool} {peer : α} {block : CBlock}
    {s s' : WaitState σ α} (hne : block.getHash H true ≠ h)
    (hadmitted : admitBlock E H isTestNet peer block s = .ok s' ∨
      admitBlock E H isTestNet peer block s = .error s') :
    s'.mapBlocksWait = s.mapBlocksWait ∧ LogsAvoid H h s s' := by
  obtain ⟨s₁, hs₁, hwait, hproc, hrecv⟩ := admitBlock_frame E H isTestNet peer block s
  -- both ends of the checks carry the same state
  have heq : s' = s₁ := by
    rcases hadmitted with h₁ | h₁ <;> rcases hs₁ with h₂ | h₂ <;> rw [h₁] at h₂ <;> cases h₂ <;> rfl
  subst heq
  refine ⟨hwait, ⟨[], by simp [hproc], by simp⟩, ?_⟩
  rcases hrecv with hr | hr
  · exact ⟨[], by simp [hr], by simp⟩
  · exact ⟨[block.getHash H true], hr, by simpa using hne.symm⟩

/-- A stored block of another hash than `h` overwrites what waited under its
parent; when nothing of hash `h` waited under another parent, nothing of hash
`h` is left, processed or marked. -/
theorem handleBlock_stored_avoids {h : uint256} {isTestNet : Bool} {peer : α} {block : CBlock}
    (nTimeNow : Int) {s s₁ : WaitState σ α} (hadmitted : admitBlock E H isTestNet peer block s = .ok s₁)
    (hs : ∀ e ∈ s.mapBlocksWait, e.1 ≠ block.hashPrevBlock → e.2.pblock.getHash H true ≠ h)
    (hne : block.getHash H true ≠ h) :
    WaitAvoids H h (handleBlock E H addr isTestNet peer block nTimeNow s) ∧
      LogsAvoid H h s (handleBlock E H addr isTestNet peer block nTimeNow s) := by
  obtain ⟨hwait, hlog⟩ := admitBlock_avoids E H hne (.inl hadmitted)
  -- after the store, whether or not `pindexLastAccepted` is then set
  have hstored : ∀ t : WaitState σ α,
      t.mapBlocksWait = waitInsert addr block.hashPrevBlock ⟨block, nTimeNow⟩ s₁.mapBlocksWait →
      t.processed = s₁.processed → t.received = s₁.received →
      WaitAvoids H h (acceptLoop E H peer nTimeNow (t.mapBlocksWait.length + 1) t) ∧
        LogsAvoid H h s (acceptLoop E H peer nTimeNow (t.mapBlocksWait.length + 1) t) := by
    intro t hmap hproc hrecv
    have hothers : ∀ e ∈ s₁.mapBlocksWait, e.1 ≠ block.hashPrevBlock →
        e.2.pblock.getHash H true ≠ h := by
      rw [hwait]
      exact hs
    have ht : WaitAvoids H h t := by
      intro e he
      rw [hmap] at he
      exact waitInsert_avoids H addr hothers (by exact hne) e he
    have hlog₁ : LogsAvoid H h s₁ t := ⟨⟨[], by simp [hproc], by simp⟩, [], by simp [hrecv], by simp⟩
    obtain ⟨hs', hlog'⟩ := acceptLoop_avoids E H peer nTimeNow (t.mapBlocksWait.length + 1) t ht
    exact ⟨hs', (hlog.trans H hlog₁).trans H hlog'⟩
  unfold handleBlock
  rw [hadmitted]
  dsimp only
  split
  · exact hstored _ rfl rfl rfl
  · exact hstored _ rfl rfl rfl

/-- **A block of another hash keeps `h` away.**  Handling a block whose hash
is not `h`, on a state with no waiting block of hash `h`, leaves no such
block waiting and neither processes nor marks one. -/
theorem handleBlock_avoids {h : uint256} {isTestNet : Bool} {peer : α} {block : CBlock}
    {nTimeNow : Int} {s : WaitState σ α} (hs : WaitAvoids H h s) (hne : block.getHash H true ≠ h) :
    WaitAvoids H h (handleBlock E H addr isTestNet peer block nTimeNow s) ∧
      LogsAvoid H h s (handleBlock E H addr isTestNet peer block nTimeNow s) := by
  cases hadmitted : admitBlock E H isTestNet peer block s with
  | error s₁ =>
    -- an early return leaves the map as it was
    obtain ⟨hwait, hlog⟩ := admitBlock_avoids E H hne (.inr hadmitted)
    unfold handleBlock
    rw [hadmitted]
    exact ⟨fun e he => hs e (hwait ▸ he), hlog⟩
  | ok s₁ => exact handleBlock_stored_avoids E H addr nTimeNow hadmitted (fun e he _ => hs e he) hne

/-- The run lemma: messages none of which carries a block of hash `h` keep
it away. -/
theorem handleBlocks_avoids {h : uint256} (isTestNet : Bool) :
    ∀ (msgs : List (α × CBlock × Int)) (s : WaitState σ α), WaitAvoids H h s →
      (∀ m ∈ msgs, m.2.1.getHash H true ≠ h) →
      WaitAvoids H h (handleBlocks E H addr isTestNet msgs s) ∧
        LogsAvoid H h s (handleBlocks E H addr isTestNet msgs s)
  | [], s, hs, _ => ⟨hs, LogsAvoid.refl H h s⟩
  | m :: msgs, s, hs, hmsgs => by
      obtain ⟨hs', hlog⟩ := handleBlock_avoids E H addr hs (hmsgs m List.mem_cons_self)
      obtain ⟨hs'', hlog'⟩ := handleBlocks_avoids isTestNet msgs _ hs'
        (fun m' hm' => hmsgs m' (List.mem_cons_of_mem _ hm'))
      exact ⟨hs'', hlog.trans H hlog'⟩

/-! ## The overwritten sibling -/

/-- **A waiting block is lost to its sibling.**  Let no block of `b`'s hash
wait under another parent than `b`'s, while `b` may wait under its own.  A
block `b'` of another hash with the same parent, which passes the checks
before the store, takes the place of what waits there.  From then on,
through any messages that do not carry a block of `b`'s hash, no block of
that hash waits, none is passed to `ProcessNewBlock`, and the hash is never
passed to `MarkBlockAsReceived`. -/
theorem handleBlock_sibling_lost (isTestNet : Bool) (peer : α) (b b' : CBlock) (nTimeNow : Int)
    (s : WaitState σ α) (msgs : List (α × CBlock × Int))
    (hothers : ∀ e ∈ s.mapBlocksWait, e.1 ≠ b.hashPrevBlock →
      e.2.pblock.getHash H true ≠ b.getHash H true)
    (hsib : b'.hashPrevBlock = b.hashPrevBlock) (hne : b'.getHash H true ≠ b.getHash H true)
    (hadmitted : ∃ s₁, admitBlock E H isTestNet peer b' s = .ok s₁)
    (hmsgs : ∀ m ∈ msgs, m.2.1.getHash H true ≠ b.getHash H true) :
    WaitAvoids H (b.getHash H true)
        (handleBlocks E H addr isTestNet msgs (handleBlock E H addr isTestNet peer b' nTimeNow s)) ∧
      LogsAvoid H (b.getHash H true) s
        (handleBlocks E H addr isTestNet msgs (handleBlock E H addr isTestNet peer b' nTimeNow s)) := by
  obtain ⟨s₁, hadmitted⟩ := hadmitted
  -- `b'` overwrites `b`, the only waiting block of its hash
  obtain ⟨hs', hlog⟩ := handleBlock_stored_avoids E H addr nTimeNow hadmitted
    (hsib ▸ hothers) hne
  obtain ⟨hs'', hlog'⟩ := handleBlocks_avoids E H addr isTestNet msgs _ hs' hmsgs
  exact ⟨hs'', hlog.trans H hlog'⟩

end Handler

/-! ## Two children of one parent -/

/-- Hash functions that sum the bytes, so that two headers that differ in
one byte by one have different hashes. -/
def byteSumHashers : Hashers :=
  ⟨fun bs => uint256.arithToUint256 (bs.foldl (fun a x => a + x.toNat) 0),
    fun bs => uint256.arithToUint256 (bs.foldl (fun a x => a + x.toNat) 0)⟩

/-- A node whose parent entries are known and not yet valid, so blocks wait,
and whose `ProcessNewBlock` is never reached. -/
def waitingEngine : BlockEngine Unit where
  lookupBlockIndex := fun _ _ => true
  isValid := fun _ _ => false
  hasFailed := fun _ _ => false
  tip := fun _ => none
  isInitialBlockDownload := fun _ => false
  processNewBlock := fun node _ _ => (node, none, false)

/-- A child of the block `5` at time `t`. -/
def childOfFive (t : UInt32) : CBlock :=
  CBlock.ofHeader { CBlockHeader.null with hashPrevBlock := uint256.arithToUint256 5, nTime := t }

/-- The child at time 1 waits under its parent, and the child at time 2 is
in flight. -/
def siblingState : WaitState Unit Nat where
  node := ()
  mapBlocksWait := [(uint256.arithToUint256 5, ⟨childOfFive 1, 0⟩)]
  mapBlocksInFlight := [(childOfFive 2).getHash byteSumHashers true]
  mapPoSTemperature := fun _ => 0
  pindexLastAccepted := none
  processed := []
  received := []

/-- The waiting child is lost when its requested sibling arrives. -/
theorem handleBlock_sibling_lost_requested :
    (uint256.arithToUint256 5, ⟨childOfFive 1, 0⟩) ∈ siblingState.mapBlocksWait ∧
    (∀ e ∈ siblingState.mapBlocksWait, e.1 ≠ (childOfFive 1).hashPrevBlock →
      e.2.pblock.getHash byteSumHashers true ≠ (childOfFive 1).getHash byteSumHashers true) ∧
    (childOfFive 2).hashPrevBlock = (childOfFive 1).hashPrevBlock ∧
    (childOfFive 2).getHash byteSumHashers true ≠ (childOfFive 1).getHash byteSumHashers true ∧
    (∃ s₁, admitBlock waitingEngine byteSumHashers false 0 (childOfFive 2) siblingState = .ok s₁) ∧
    WaitAvoids byteSumHashers ((childOfFive 1).getHash byteSumHashers true)
        (handleBlocks waitingEngine byteSumHashers (fun _ => 0) false []
          (handleBlock waitingEngine byteSumHashers (fun _ => 0) false 0 (childOfFive 2) 1 siblingState)) ∧
      LogsAvoid byteSumHashers ((childOfFive 1).getHash byteSumHashers true) siblingState
        (handleBlocks waitingEngine byteSumHashers (fun _ => 0) false []
          (handleBlock waitingEngine byteSumHashers (fun _ => 0) false 0 (childOfFive 2) 1 siblingState)) := by
  have hothers : ∀ e ∈ siblingState.mapBlocksWait, e.1 ≠ (childOfFive 1).hashPrevBlock →
      e.2.pblock.getHash byteSumHashers true ≠ (childOfFive 1).getHash byteSumHashers true := by
    intro e he hk
    -- the only entry is under the parent itself
    simp only [siblingState, List.mem_singleton] at he
    subst he
    exact absurd rfl hk
  have hne : (childOfFive 2).getHash byteSumHashers true ≠ (childOfFive 1).getHash byteSumHashers true := by
    decide
  have hadmitted : ∃ s₁, admitBlock waitingEngine byteSumHashers false 0 (childOfFive 2) siblingState =
      .ok s₁ := ⟨siblingState, rfl⟩
  exact ⟨List.mem_singleton_self _, hothers, rfl, hne, hadmitted,
    handleBlock_sibling_lost waitingEngine byteSumHashers (fun _ => 0) false 0 (childOfFive 1) (childOfFive 2) 1
      siblingState [] hothers rfl hne hadmitted (by simp)⟩

/-- After the sibling, only it waits, nothing was processed, and nothing was
marked received. -/
example :
    ((handleBlock waitingEngine byteSumHashers (fun _ => 0) false 0 (childOfFive 2) 1
        siblingState).mapBlocksWait.map (·.2.pblock) = [childOfFive 2]) ∧
    (handleBlock waitingEngine byteSumHashers (fun _ => 0) false 0 (childOfFive 2) 1
        siblingState).processed = [] ∧
    (handleBlock waitingEngine byteSumHashers (fun _ => 0) false 0 (childOfFive 2) 1
        siblingState).received = [] := by
  decide

end Veribase
