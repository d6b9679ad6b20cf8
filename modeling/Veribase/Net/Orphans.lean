import Veribase.Validation.CheckBlock
import Veribase.Net.BlockDownload
import Veribase.Lib.SecondaryIndex

/-!
# The orphan pool

A transaction whose inputs spend outputs the node does not know is kept in
`mapOrphanTransactions`, keyed by its hash, until its parents come.  Two more
structures are kept beside the map by hand: `g_orphan_list`, the vector of
the orphans that random eviction draws from, each orphan holding its
position in `list_pos`; and `mapOrphanTransactionsByPrev`, which gives for
each outpoint the set of the orphans spending it.  `AddOrphanTx` and
`EraseOrphanTx` update all three; `EraseOrphanTx` checks with an `assert`
that the position an orphan holds is its own, and moves the last orphan of
the vector into the place it frees.  The callers are `EraseOrphansFor` (a
peer goes), `LimitOrphanTxSize` (after each new orphan: a sweep of the
expired ones every few minutes, then random eviction down to
`-maxorphantx`), `BlockConnected` (the orphans a block's transactions spend
against) and `ProcessOrphanTx` (an orphan is settled).

`Consistent` says the three structures agree: the vector and the positions
form a `SecondaryIndex.Positions`, the index by outpoint is a
`SecondaryIndex.Indexes` of each orphan's prevouts, each orphan is filed
under its own hash and is no heavier than `MAX_STANDARD_TX_WEIGHT`.
`eraseOrphanTx_spec` is the one lemma every caller uses: on a consistent
pool the `assert` holds, the orphan goes and the pool stays consistent.
From it each loop gets a spec of its own, and `Consistent.step` gives the
invariant over every run (`orphanPool_run_consistent`).

The iterators the vector and the index hold are the keys they point at.
`std::map` visits its keys in `memcmp` order (`orderedKeys`); a set of
iterators is ordered by address, which the model fixes as the order of its
list, and nothing proved here depends on that order.  `GetTime()` is the
event's time; `FastRandomContext::randrange` is a stream of draws in range
(`RandRange`).  The loop of random eviction is given as many turns as the
pool has orphans: each turn erases one (`evictOrphans_spec`).
-/

namespace Veribase

open SecondaryIndex Tally

/-! ## Constants -/

/-- `ORPHAN_TX_EXPIRE_TIME`: twenty minutes. -/
def ORPHAN_TX_EXPIRE_TIME : Int := 20 * 60

/-- `ORPHAN_TX_EXPIRE_INTERVAL`: the least time between two sweeps. -/
def ORPHAN_TX_EXPIRE_INTERVAL : Int := 5 * 60

/-- `MAX_STANDARD_TX_WEIGHT` (`policy/policy.h`). -/
def MAX_STANDARD_TX_WEIGHT : Nat := 400000

/-- `DEFAULT_MAX_ORPHAN_TRANSACTIONS` (`net_processing.h`). -/
def DEFAULT_MAX_ORPHAN_TRANSACTIONS : Nat := MAX_BLOCK_SERIALIZED_SIZE / 2

/-- `GetTransactionWeight(tx)` (`consensus/validation.h`).  The witness is
never serialized, so the sizes with and without it are one. -/
def getTransactionWeight (tx : CTransaction) : Nat :=
  tx.serialize.length * (WITNESS_SCALE_FACTOR - 1) + tx.serialize.length

/-- The bound the `TX` handler passes to `LimitOrphanTxSize`:
`(unsigned int)std::max((int64_t)0, gArgs.GetArg("-maxorphantx", DEFAULT_MAX_ORPHAN_TRANSACTIONS))`. -/
def maxOrphanTx (maxorphantx : Option Int) : Nat :=
  (max 0 (maxorphantx.getD DEFAULT_MAX_ORPHAN_TRANSACTIONS)).toNat % 2 ^ 32

/-! ## The state -/

/-- `COrphanTx`. -/
structure COrphanTx where
  tx : CTransaction
  fromPeer : NodeId
  nTimeExpire : Int
  /-- `list_pos`: the orphan's position in `g_orphan_list`. -/
  list_pos : Nat

/-- The orphan pool: the globals guarded by `g_cs_orphans`, and the
`static` of `LimitOrphanTxSize`. -/
structure OrphanPool where
  mapOrphanTransactions : AList fun _ : uint256 => COrphanTx
  /-- `mapOrphanTransactionsByPrev`, each set of iterators as the keys. -/
  mapOrphanTransactionsByPrev : AList fun _ : COutPoint => List uint256
  /-- `g_orphan_list`, each iterator as its key. -/
  g_orphan_list : List uint256
  /-- `nNextSweep`, zero at start. -/
  nNextSweep : Int

/-- The pool at start: all empty. -/
def OrphanPool.init : OrphanPool := ⟨∅, ∅, [], 0⟩

/-- `FastRandomContext::randrange`: `randrange k n` is the `k`th draw,
`rng.randrange(n)`, in `[0, n)`. -/
structure RandRange where
  /-- The draws. -/
  randrange : Nat → Nat → Nat
  /-- `randrange(n)` is below `n`. -/
  randrange_lt : ∀ k n, 0 < n → randrange k n < n

/-! ## The operations -/

/-- `AddOrphanTx(tx, peer)` at time `nNow`: whether the orphan was added. -/
def addOrphanTx (nNow : Int) (tx : CTransaction) (peer : NodeId) (pool : OrphanPool) :
    Bool × OrphanPool :=
  let hash := tx.getHash
  if hash ∈ pool.mapOrphanTransactions then (false, pool)
  else
    -- big transactions are ignored; `unsigned int sz`
    let sz := getTransactionWeight tx % 2 ^ 32
    if sz > MAX_STANDARD_TX_WEIGHT then (false, pool)
    else
      (true, { pool with
        mapOrphanTransactions := insertNew pool.mapOrphanTransactions hash
          ⟨tx, peer, nNow + ORPHAN_TX_EXPIRE_TIME, pool.g_orphan_list.length⟩
        g_orphan_list := pool.g_orphan_list ++ [hash]
        mapOrphanTransactionsByPrev :=
          addUnder hash (tx.vin.map (·.prevout)) pool.mapOrphanTransactionsByPrev })

/-- `EraseOrphanTx(hash)`: the number erased, or `none` when
`assert(g_orphan_list[old_pos] == it)` fails or an iterator it follows
points at nothing. -/
def eraseOrphanTx (hash : uint256) (pool : OrphanPool) : Option (Nat × OrphanPool) :=
  match pool.mapOrphanTransactions.lookup hash with
  | none => some (0, pool)
  | some it => do
    let mapOrphanTransactionsByPrev :=
      removeUnder hash (it.tx.vin.map (·.prevout)) pool.mapOrphanTransactionsByPrev
    let old_pos := it.list_pos
    guard (pool.g_orphan_list[old_pos]? = some hash)
    let it_last ← pool.g_orphan_list.getLast?
    let mapOrphanTransactions ←
      if old_pos + 1 ≠ pool.g_orphan_list.length then do
        -- unless the orphan is the last of the vector, the last one moves to its place
        let last ← pool.mapOrphanTransactions.lookup it_last
        pure (pool.mapOrphanTransactions.insert it_last { last with list_pos := old_pos })
      else pure pool.mapOrphanTransactions
    pure (1, { pool with
      mapOrphanTransactions := mapOrphanTransactions.erase hash
      mapOrphanTransactionsByPrev
      g_orphan_list := swapRemove pool.g_orphan_list old_pos it_last })

/-- The keys of `mapOrphanTransactions` in the order `std::map` visits them:
by `memcmp` of the hashes. -/
def OrphanPool.orderedKeys (pool : OrphanPool) : List uint256 :=
  pool.mapOrphanTransactions.keys.insertionSort fun a b => a.data ≤ b.data

/-- The loop of `EraseOrphansFor`: over `keys`, erase each orphan that
`select` picks, by the hash of its transaction. -/
def eraseOrphansWhere (select : COrphanTx → Bool) :
    List uint256 → OrphanPool → Option OrphanPool
  | [], pool => some pool
  | key :: keys, pool =>
    match pool.mapOrphanTransactions.lookup key with
    | some it =>
      if select it then do
        let (_, pool) ← eraseOrphanTx it.tx.getHash pool
        eraseOrphansWhere select keys pool
      else eraseOrphansWhere select keys pool
    | none => eraseOrphansWhere select keys pool

/-- `EraseOrphansFor(peer)`. -/
def eraseOrphansFor (peer : NodeId) (pool : OrphanPool) : Option OrphanPool :=
  eraseOrphansWhere (fun it => it.fromPeer == peer) pool.orderedKeys pool

/-- The sweep of `LimitOrphanTxSize` over `keys`: erase the orphans expired by
`nNow`, and take the least expiry time of the others into `nMinExpTime`. -/
def sweepOrphans (nNow : Int) : List uint256 → Int → OrphanPool → Option (Int × OrphanPool)
  | [], nMinExpTime, pool => some (nMinExpTime, pool)
  | key :: keys, nMinExpTime, pool =>
    match pool.mapOrphanTransactions.lookup key with
    | some it =>
      if it.nTimeExpire ≤ nNow then do
        let (_, pool) ← eraseOrphanTx it.tx.getHash pool
        sweepOrphans nNow keys nMinExpTime pool
      else sweepOrphans nNow keys (min it.nTimeExpire nMinExpTime) pool
    | none => sweepOrphans nNow keys nMinExpTime pool

/-- The eviction loop of `LimitOrphanTxSize`, with at most `fuel` turns: while
the pool is over `nMaxOrphans`, erase the orphan at a random position of
`g_orphan_list`.  The number evicted so far is also the number of draws. -/
def evictOrphans (rng : RandRange) (nMaxOrphans : Nat) :
    Nat → Nat → OrphanPool → Option (Nat × OrphanPool)
  | 0, nEvicted, pool => some (nEvicted, pool)
  | fuel + 1, nEvicted, pool =>
    if pool.mapOrphanTransactions.entries.length > nMaxOrphans then do
      let randompos := rng.randrange nEvicted pool.g_orphan_list.length
      let it ← pool.g_orphan_list[randompos]?
      let (_, pool) ← eraseOrphanTx it pool
      evictOrphans rng nMaxOrphans fuel (nEvicted + 1) pool
    else some (nEvicted, pool)

/-- `LimitOrphanTxSize(nMaxOrphans)` at time `nNow`: the number evicted. -/
def limitOrphanTxSize (rng : RandRange) (nNow : Int) (nMaxOrphans : Nat) (pool : OrphanPool) :
    Option (Nat × OrphanPool) := do
  let pool ←
    if pool.nNextSweep ≤ nNow then do
      let (nMinExpTime, pool) ← sweepOrphans nNow pool.orderedKeys
        (nNow + ORPHAN_TX_EXPIRE_TIME - ORPHAN_TX_EXPIRE_INTERVAL) pool
      -- sweep again five minutes after the next orphan expires
      pure { pool with nNextSweep := nMinExpTime + ORPHAN_TX_EXPIRE_INTERVAL }
    else pure pool
  evictOrphans rng nMaxOrphans pool.mapOrphanTransactions.entries.length 0 pool

/-- The orphans `BlockConnected` erases: for each input of each transaction of
the block, the hash of every orphan spending the same outpoint. -/
def orphansConflicting (vtx : List CTransaction) (pool : OrphanPool) : List uint256 :=
  vtx.flatMap fun tx => tx.vin.flatMap fun txin =>
    (under pool.mapOrphanTransactionsByPrev txin.prevout).filterMap fun mi =>
      (pool.mapOrphanTransactions.lookup mi).map (·.tx.getHash)

/-- `for (hash : vOrphanErase) EraseOrphanTx(hash)`. -/
def eraseOrphanTxs : List uint256 → OrphanPool → Option OrphanPool
  | [], pool => some pool
  | hash :: hashes, pool => do
    let (_, pool) ← eraseOrphanTx hash pool
    eraseOrphanTxs hashes pool

/-- The orphan part of `BlockConnected(pblock)`, for the block's `vtx`. -/
def blockConnected (vtx : List CTransaction) (pool : OrphanPool) : Option OrphanPool :=
  eraseOrphanTxs (orphansConflicting vtx pool) pool

/-- The orphans the `TX` handler and `ProcessOrphanTx` put into the work set
once `tx` is accepted: those spending one of its outputs
(`mapOrphanTransactionsByPrev.find(COutPoint(hash, i))` for each `unsigned int i`
below `vout.size()`). -/
def orphansSpending (tx : CTransaction) (pool : OrphanPool) : List uint256 :=
  (List.range tx.vout.length).flatMap fun i =>
    under pool.mapOrphanTransactionsByPrev ⟨tx.getHash, i.toUInt32⟩

/-! ## Runs -/

/-- The places that change the pool. -/
inductive OrphanEvent
  /-- The `TX` handler keeps a transaction with missing inputs from `peer`
  (`AddOrphanTx`), then limits the pool (`LimitOrphanTxSize`). -/
  | orphan (tx : CTransaction) (peer : NodeId) (nNow : Int) (maxorphantx : Option Int)
      (rng : RandRange)
  /-- `ProcessOrphanTx` settles an orphan (`EraseOrphanTx`). -/
  | erase (hash : uint256)
  /-- `FinalizeNode` of `peer` (`EraseOrphansFor`). -/
  | finalize (peer : NodeId)
  /-- `BlockConnected` of a block with transactions `vtx`. -/
  | blockConnected (vtx : List CTransaction)

/-- One event. -/
def OrphanEvent.step : OrphanEvent → OrphanPool → Option OrphanPool
  | .orphan tx peer nNow maxorphantx rng, pool =>
    (limitOrphanTxSize rng nNow (maxOrphanTx maxorphantx) (addOrphanTx nNow tx peer pool).2).map
      (·.2)
  | .erase hash, pool => (eraseOrphanTx hash pool).map (·.2)
  | .finalize peer, pool => eraseOrphansFor peer pool
  | .blockConnected vtx, pool => Veribase.blockConnected vtx pool

/-- The events one after another; `none` once an `assert` fails. -/
def OrphanEvent.run : List OrphanEvent → OrphanPool → Option OrphanPool
  | [], pool => some pool
  | e :: es, pool => (e.step pool).bind (OrphanEvent.run es)

/-! ## What the pool holds -/

/-- What the pool holds of an orphan, its position aside. -/
structure OrphanEntry where
  tx : CTransaction
  fromPeer : NodeId
  nTimeExpire : Int

/-- The orphan without its position. -/
def COrphanTx.entry (it : COrphanTx) : OrphanEntry := ⟨it.tx, it.fromPeer, it.nTimeExpire⟩

@[simp] theorem COrphanTx.entry_list_pos (it : COrphanTx) (p : Nat) :
    { it with list_pos := p }.entry = it.entry := rfl

namespace OrphanPool

/-- The orphan filed under `k`. -/
def orphan (pool : OrphanPool) (k : uint256) : Option OrphanEntry :=
  (pool.mapOrphanTransactions.lookup k).map COrphanTx.entry

/-- The position the orphan filed under `k` holds. -/
def listPos (pool : OrphanPool) (k : uint256) : Option Nat :=
  (pool.mapOrphanTransactions.lookup k).map (·.list_pos)

/-- The outpoints the orphan filed under `k` spends, one per input. -/
def prevouts (pool : OrphanPool) (k : uint256) : Option (List COutPoint) :=
  (pool.orphan k).map fun e => e.tx.vin.map (·.prevout)

theorem mem_iff_orphan_isSome (pool : OrphanPool) (k : uint256) :
    k ∈ pool.mapOrphanTransactions ↔ (pool.orphan k).isSome := by
  simp [orphan, ← AList.lookup_isSome]

/-- `pool'` holds only orphans of `pool`, each as it was there. -/
def Within (pool' pool : OrphanPool) : Prop :=
  ∀ k e, pool'.orphan k = some e → pool.orphan k = some e

theorem Within.refl (pool : OrphanPool) : pool.Within pool := fun _ _ he => he

theorem Within.trans {pool₁ pool₂ pool₃ : OrphanPool} (h₁₂ : pool₁.Within pool₂)
    (h₂₃ : pool₂.Within pool₃) : pool₁.Within pool₃ :=
  fun k e he => h₂₃ k e (h₁₂ k e he)

/-- The three structures of the pool agree, and each orphan is one
`AddOrphanTx` would keep. -/
structure Consistent (pool : OrphanPool) : Prop where
  /-- `g_orphan_list` lists each orphan once, at the position it holds. -/
  list_pos : Positions pool.g_orphan_list pool.listPos
  /-- `mapOrphanTransactionsByPrev` files each orphan under each outpoint it
  spends, and has no empty set. -/
  byPrev : Indexes pool.mapOrphanTransactionsByPrev pool.prevouts
  /-- Each orphan is filed under its transaction's hash. -/
  hash : ∀ k e, pool.orphan k = some e → e.tx.getHash = k
  /-- No orphan is heavier than `MAX_STANDARD_TX_WEIGHT`. -/
  weight : ∀ k e, pool.orphan k = some e →
    getTransactionWeight e.tx % 2 ^ 32 ≤ MAX_STANDARD_TX_WEIGHT

theorem Consistent.init : OrphanPool.init.Consistent where
  list_pos := by
    intro k p
    simp [listPos, OrphanPool.init]
  byPrev := by
    refine ⟨fun t ks hks => by simp [OrphanPool.init] at hks, fun t k => ?_⟩
    simp [under, prevouts, orphan, OrphanPool.init]
  hash := by simp [orphan, OrphanPool.init]
  weight := by simp [orphan, OrphanPool.init]

/-- As many orphans as positions: `mapOrphanTransactions.size()` is
`g_orphan_list.size()`. -/
theorem Consistent.length_eq {pool : OrphanPool} (h : pool.Consistent) :
    pool.mapOrphanTransactions.entries.length = pool.g_orphan_list.length := by
  have hperm : pool.mapOrphanTransactions.keys.Perm pool.g_orphan_list := by
    rw [List.perm_ext_iff_of_nodup pool.mapOrphanTransactions.keys_nodup h.list_pos.nodup]
    intro k
    rw [← AList.mem_keys, h.list_pos.mem_iff, ← AList.lookup_isSome]
    simp [listPos]
  simpa [AList.keys, List.keys] using hperm.length_eq

/-- An orphan listed in `g_orphan_list` is in the map. -/
theorem Consistent.lookup_of_mem {pool : OrphanPool} (h : pool.Consistent) {k : uint256}
    (hk : k ∈ pool.g_orphan_list) : ∃ it, pool.mapOrphanTransactions.lookup k = some it := by
  have hsome := (h.list_pos.mem_iff k).mp hk
  simp only [listPos, Option.isSome_map] at hsome
  exact Option.isSome_iff_exists.mp hsome

/-! ## `EraseOrphanTx` -/

/-- What `EraseOrphanTx` does to an orphan of a consistent pool: the
`assert` holds, and the map it leaves has lost the orphan, with the last one
of the vector at the freed position. -/
theorem eraseOrphanTx_of_lookup {pool : OrphanPool} (h : pool.Consistent) {hash : uint256}
    {it : COrphanTx} (hlook : pool.mapOrphanTransactions.lookup hash = some it) :
    ∃ last M, pool.g_orphan_list.getLast? = some last ∧
      (∀ x, M.lookup x = if x = hash then none else if x = last then
        (pool.mapOrphanTransactions.lookup x).map fun o => { o with list_pos := it.list_pos }
        else pool.mapOrphanTransactions.lookup x) ∧
      eraseOrphanTx hash pool = some (1, { pool with
        mapOrphanTransactions := M
        mapOrphanTransactionsByPrev :=
          removeUnder hash (it.tx.vin.map (·.prevout)) pool.mapOrphanTransactionsByPrev
        g_orphan_list := swapRemove pool.g_orphan_list it.list_pos last }) := by
  have hpos : pool.listPos hash = some it.list_pos := by simp [listPos, hlook]
  have hat : pool.g_orphan_list[it.list_pos]? = some hash := (h.list_pos hash _).mp hpos
  obtain ⟨last, hlast⟩ : ∃ last, pool.g_orphan_list.getLast? = some last := by
    cases hl : pool.g_orphan_list.getLast? with
    | none =>
      rw [List.getLast?_eq_none_iff] at hl
      simp [hl] at hat
    | some last => exact ⟨last, rfl⟩
  by_cases hend : it.list_pos + 1 ≠ pool.g_orphan_list.length
  · -- the last orphan is another one, and moves
    have hne : last ≠ hash := fun e => hend ((h.list_pos.eq_last_iff hpos hlast).mp e.symm)
    obtain ⟨lo, hlo⟩ := h.lookup_of_mem (List.mem_of_getLast? hlast)
    refine ⟨last, (pool.mapOrphanTransactions.insert last { lo with list_pos := it.list_pos }).erase
      hash, hlast, ?_, ?_⟩
    · intro x
      by_cases hx : x = hash
      · subst hx
        simp [AList.lookup_erase]
      · by_cases hxl : x = last
        · subst hxl
          simp [hx, AList.lookup_erase_ne hx, AList.lookup_insert, hlo]
        · simp [hx, hxl, AList.lookup_erase_ne hx, AList.lookup_insert_ne hxl]
    · simp [eraseOrphanTx, hlook, hat, hlast, hend, hlo]
  · -- the orphan is the last one
    have hlh : hash = last := (h.list_pos.eq_last_iff hpos hlast).mpr (not_not.mp hend)
    refine ⟨last, pool.mapOrphanTransactions.erase hash, hlast, ?_, ?_⟩
    · intro x
      by_cases hx : x = hash
      · subst hx
        simp [AList.lookup_erase]
      · have hxl : x ≠ last := hlh ▸ hx
        simp [hx, hxl, AList.lookup_erase_ne hx]
    · simp [eraseOrphanTx, hlook, hat, hlast, hend]

section Moved

/-! What `eraseOrphanTx_of_lookup` says of the map left, as hypotheses. -/

variable {pool : OrphanPool} {hash last : uint256} {it : COrphanTx}
  {M : AList fun _ : uint256 => COrphanTx}

/-- The orphans of the map left, positions aside: all but the one erased. -/
theorem orphan_of_moved
    (hM : ∀ x, M.lookup x = if x = hash then none else if x = last then
      (pool.mapOrphanTransactions.lookup x).map fun o => { o with list_pos := it.list_pos }
      else pool.mapOrphanTransactions.lookup x) (k : uint256) :
    (M.lookup k).map COrphanTx.entry = if k = hash then none else pool.orphan k := by
  simp only [orphan, hM k]
  split_ifs <;> simp [Option.map_map, Function.comp_def]

/-- The pool `EraseOrphanTx` leaves is consistent. -/
theorem Consistent.moved (h : pool.Consistent)
    (hlook : pool.mapOrphanTransactions.lookup hash = some it)
    (hlast : pool.g_orphan_list.getLast? = some last)
    (hM : ∀ x, M.lookup x = if x = hash then none else if x = last then
      (pool.mapOrphanTransactions.lookup x).map fun o => { o with list_pos := it.list_pos }
      else pool.mapOrphanTransactions.lookup x) :
    Consistent { pool with
      mapOrphanTransactions := M
      mapOrphanTransactionsByPrev :=
        removeUnder hash (it.tx.vin.map (·.prevout)) pool.mapOrphanTransactionsByPrev
      g_orphan_list := swapRemove pool.g_orphan_list it.list_pos last } := by
  have horphan := orphan_of_moved hM
  obtain ⟨lo, hlo⟩ := h.lookup_of_mem (List.mem_of_getLast? hlast)
  have hpos : pool.listPos hash = some it.list_pos := by simp [listPos, hlook]
  -- the positions after the move are those `Positions.swapRemove` gives
  have hlistPos : (fun x => (M.lookup x).map (·.list_pos)) =
      fun x => if x = hash then none else if x = last then some it.list_pos
        else pool.listPos x := by
    funext x
    rw [hM x]
    split_ifs with hx hxl
    · rfl
    · subst hxl
      simp [hlo]
    · rfl
  have hprev : (fun x => ((M.lookup x).map COrphanTx.entry).map
      fun e => e.tx.vin.map (·.prevout)) = Function.update pool.prevouts hash none := by
    funext x
    rw [horphan x]
    by_cases hx : x = hash
    · subst hx
      simp
    · simp [hx, prevouts]
  have hpre : pool.prevouts hash = some (it.tx.vin.map (·.prevout)) := by
    simp [prevouts, orphan, hlook, COrphanTx.entry]
  -- an orphan left is an orphan of the pool
  have hold : ∀ k e, (M.lookup k).map COrphanTx.entry = some e → pool.orphan k = some e := by
    intro k e hk
    rw [horphan k] at hk
    split at hk
    · cases hk
    · exact hk
  refine ⟨?_, ?_, fun k e hk => h.hash k e (hold k e hk), fun k e hk => h.weight k e (hold k e hk)⟩
  · show Positions _ fun x => (M.lookup x).map (·.list_pos)
    rw [hlistPos]
    exact h.list_pos.swapRemove hpos hlast
  · show Indexes _ fun x => ((M.lookup x).map COrphanTx.entry).map _
    rw [hprev]
    exact h.byPrev.remove hpre

end Moved

/-- `EraseOrphanTx` on a consistent pool: the `assert` holds, the orphan at
`hash`, if any, goes with its position, and the pool stays consistent. -/
theorem eraseOrphanTx_spec {pool : OrphanPool} (h : pool.Consistent) (hash : uint256) :
    ∃ n pool', eraseOrphanTx hash pool = some (n, pool') ∧ pool'.Consistent ∧
      (∀ k, pool'.orphan k = if k = hash then none else pool.orphan k) ∧
      n = (if hash ∈ pool.mapOrphanTransactions then 1 else 0) ∧
      pool'.g_orphan_list.length + n = pool.g_orphan_list.length ∧
      pool'.nNextSweep = pool.nNextSweep := by
  cases hlook : pool.mapOrphanTransactions.lookup hash with
  | none =>
    have hmem : hash ∉ pool.mapOrphanTransactions := AList.lookup_eq_none.mp hlook
    refine ⟨0, pool, by simp [eraseOrphanTx, hlook], h, fun k => ?_, by simp [hmem], rfl, rfl⟩
    by_cases hk : k = hash
    · subst hk
      simp [orphan, hlook]
    · simp [hk]
  | some it =>
    obtain ⟨last, M, hlast, hM, herase⟩ := eraseOrphanTx_of_lookup h hlook
    have hlen : (swapRemove pool.g_orphan_list it.list_pos last).length + 1 =
        pool.g_orphan_list.length := by
      have hne : pool.g_orphan_list ≠ [] := by simp [← List.getLast?_eq_none_iff, hlast]
      have := List.length_pos_of_ne_nil hne
      rw [length_swapRemove]
      omega
    have hmem : hash ∈ pool.mapOrphanTransactions := AList.lookup_isSome.mp (by simp [hlook])
    exact ⟨1, _, herase, h.moved hlook hlast hM, orphan_of_moved hM, by simp [hmem], hlen, rfl⟩

/-! ## `AddOrphanTx` -/

section Add

variable (pool : OrphanPool) (nNow : Int) (tx : CTransaction) (peer : NodeId)

/-- The orphan `AddOrphanTx` adds. -/
def newOrphan : COrphanTx := ⟨tx, peer, nNow + ORPHAN_TX_EXPIRE_TIME, pool.g_orphan_list.length⟩

/-- `AddOrphanTx` when it adds: the hash is new and the weight in bounds. -/
theorem addOrphanTx_of_new (hmem : tx.getHash ∉ pool.mapOrphanTransactions)
    (hweight : getTransactionWeight tx % 2 ^ 32 ≤ MAX_STANDARD_TX_WEIGHT) :
    addOrphanTx nNow tx peer pool = (true, { pool with
      mapOrphanTransactions :=
        pool.mapOrphanTransactions.insert tx.getHash (newOrphan pool nNow tx peer)
      g_orphan_list := pool.g_orphan_list ++ [tx.getHash]
      mapOrphanTransactionsByPrev :=
        addUnder tx.getHash (tx.vin.map (·.prevout)) pool.mapOrphanTransactionsByPrev }) := by
  have hnone : pool.mapOrphanTransactions.lookup tx.getHash = none := AList.lookup_eq_none.mpr hmem
  have hsmall : ¬getTransactionWeight tx % 2 ^ 32 > MAX_STANDARD_TX_WEIGHT := Nat.not_lt.mpr hweight
  simp only [Veribase.addOrphanTx, if_neg hmem, if_neg hsmall, insertNew_of_lookup_none hnone,
    newOrphan]

/-- `AddOrphanTx` when it does not add: the pool is as it was. -/
theorem addOrphanTx_of_not_new
    (hnew : ¬(tx.getHash ∉ pool.mapOrphanTransactions ∧
      getTransactionWeight tx % 2 ^ 32 ≤ MAX_STANDARD_TX_WEIGHT)) :
    addOrphanTx nNow tx peer pool = (false, pool) := by
  by_cases hmem : tx.getHash ∈ pool.mapOrphanTransactions
  · simp [Veribase.addOrphanTx, hmem]
  · have hbig : getTransactionWeight tx % 2 ^ 32 > MAX_STANDARD_TX_WEIGHT :=
      Nat.lt_of_not_le fun hw => hnew ⟨hmem, hw⟩
    simp only [Veribase.addOrphanTx, if_neg hmem, if_pos hbig]

end Add

/-- What `AddOrphanTx` keeps: the new orphan, when it is added, and every
orphan there was. -/
theorem orphan_addOrphanTx (pool : OrphanPool) (nNow : Int) (tx : CTransaction) (peer : NodeId)
    (k : uint256) : (addOrphanTx nNow tx peer pool).2.orphan k =
      if (addOrphanTx nNow tx peer pool).1 ∧ k = tx.getHash then
        some ⟨tx, peer, nNow + ORPHAN_TX_EXPIRE_TIME⟩
      else pool.orphan k := by
  by_cases hnew : tx.getHash ∉ pool.mapOrphanTransactions ∧
      getTransactionWeight tx % 2 ^ 32 ≤ MAX_STANDARD_TX_WEIGHT
  · rw [addOrphanTx_of_new pool nNow tx peer hnew.1 hnew.2]
    by_cases hk : k = tx.getHash
    · subst hk
      simp [orphan, AList.lookup_insert, newOrphan, COrphanTx.entry]
    · simp [orphan, hk, AList.lookup_insert_ne hk]
  · simp [addOrphanTx_of_not_new pool nNow tx peer hnew]

theorem Consistent.addOrphanTx {pool : OrphanPool} (h : pool.Consistent) (nNow : Int)
    (tx : CTransaction) (peer : NodeId) : (Veribase.addOrphanTx nNow tx peer pool).2.Consistent := by
  by_cases hnew : tx.getHash ∉ pool.mapOrphanTransactions ∧
      getTransactionWeight tx % 2 ^ 32 ≤ MAX_STANDARD_TX_WEIGHT
  swap
  · rw [addOrphanTx_of_not_new pool nNow tx peer hnew]
    exact h
  obtain ⟨hmem, hweight⟩ := hnew
  rw [addOrphanTx_of_new pool nNow tx peer hmem hweight]
  have hnone : pool.mapOrphanTransactions.lookup tx.getHash = none := AList.lookup_eq_none.mpr hmem
  -- the new map: the old one and the orphan at its hash
  have hlook : ∀ k, (pool.mapOrphanTransactions.insert tx.getHash
      (newOrphan pool nNow tx peer)).lookup k =
      if k = tx.getHash then some (newOrphan pool nNow tx peer)
      else pool.mapOrphanTransactions.lookup k := by
    intro k
    by_cases hk : k = tx.getHash
    · subst hk
      simp [AList.lookup_insert]
    · simp [hk, AList.lookup_insert_ne hk]
  have hpos : pool.listPos tx.getHash = none := by simp [listPos, hnone]
  have hpre : pool.prevouts tx.getHash = none := by simp [prevouts, orphan, hnone]
  have hlistPos : (fun k => ((pool.mapOrphanTransactions.insert tx.getHash
      (newOrphan pool nNow tx peer)).lookup k).map (·.list_pos)) =
      Function.update pool.listPos tx.getHash (some pool.g_orphan_list.length) := by
    funext k
    rw [hlook k]
    by_cases hk : k = tx.getHash
    · subst hk
      simp [newOrphan]
    · simp [hk, listPos]
  have hprev : (fun k => (((pool.mapOrphanTransactions.insert tx.getHash
      (newOrphan pool nNow tx peer)).lookup k).map COrphanTx.entry).map
        fun e => e.tx.vin.map (·.prevout)) =
      Function.update pool.prevouts tx.getHash (some (tx.vin.map (·.prevout))) := by
    funext k
    rw [hlook k]
    by_cases hk : k = tx.getHash
    · subst hk
      simp [newOrphan, COrphanTx.entry]
    · simp [hk, prevouts, orphan]
  -- an orphan of the new pool is the new one or an old one
  have horphan : ∀ k e, ((pool.mapOrphanTransactions.insert tx.getHash
      (newOrphan pool nNow tx peer)).lookup k).map COrphanTx.entry = some e →
      (k = tx.getHash ∧ e.tx = tx) ∨ pool.orphan k = some e := by
    intro k e hk
    rw [hlook k] at hk
    split at hk
    · cases hk
      exact Or.inl ⟨‹_›, rfl⟩
    · exact Or.inr hk
  refine ⟨?_, ?_, ?_, ?_⟩
  · have hpush := h.list_pos.push hpos
    rw [← hlistPos] at hpush
    exact hpush
  · have hadd := h.byPrev.add hpre (tx.vin.map (·.prevout))
    rw [← hprev] at hadd
    exact hadd
  · intro k e hk
    rcases horphan k e hk with ⟨rfl, he⟩ | hold
    · rw [he]
    · exact h.hash k e hold
  · intro k e hk
    rcases horphan k e hk with ⟨-, he⟩ | hold
    · rw [he]
      exact hweight
    · exact h.weight k e hold

/-! ## The loops -/

theorem Consistent.with_nNextSweep {pool : OrphanPool} (h : pool.Consistent) (t : Int) :
    Consistent { pool with nNextSweep := t } :=
  ⟨h.list_pos, h.byPrev, h.hash, h.weight⟩

/-- The loop of `EraseOrphansFor` and of the sweep: on a consistent pool no
`assert` fails, and of the orphans filed under `keys` exactly those `select`
picks go. -/
theorem eraseOrphansWhere_spec (select : COrphanTx → Bool) (sel : OrphanEntry → Bool)
    (hsel : ∀ it, select it = sel it.entry) :
    ∀ (keys : List uint256) {pool : OrphanPool}, pool.Consistent →
      ∃ pool', eraseOrphansWhere select keys pool = some pool' ∧ pool'.Consistent ∧
        pool'.nNextSweep = pool.nNextSweep ∧
        ∀ k, pool'.orphan k =
          if k ∈ keys then (pool.orphan k).filter (fun e => !sel e) else pool.orphan k
  | [], pool, h => ⟨pool, rfl, h, rfl, fun k => by simp⟩
  | key :: keys, pool, h => by
    cases hlook : pool.mapOrphanTransactions.lookup key with
    | none =>
      -- an iterator to nothing: passed over
      obtain ⟨pool', hrun, h', hsweep, horphan⟩ := eraseOrphansWhere_spec select sel hsel keys h
      refine ⟨pool', by simp [eraseOrphansWhere, hlook, hrun], h', hsweep, fun k => ?_⟩
      rw [horphan k]
      by_cases hk : k = key
      · subst hk
        simp [orphan, hlook]
      · simp [hk]
    | some it =>
      have hkey : pool.orphan key = some it.entry := by simp [orphan, hlook]
      by_cases hs : select it
      · -- the orphan goes: `EraseOrphanTx` of its hash, which is its key
        have hhash : it.tx.getHash = key := h.hash key it.entry hkey
        obtain ⟨n, pool₁, herase, h₁, horphan₁, -, -, hsweep₁⟩ := eraseOrphanTx_spec h key
        obtain ⟨pool', hrun, h', hsweep, horphan⟩ := eraseOrphansWhere_spec select sel hsel keys h₁
        refine ⟨pool', ?_, h', hsweep.trans hsweep₁, fun k => ?_⟩
        · simp [eraseOrphansWhere, hlook, hs, hhash, herase, hrun]
        have hpick : sel it.entry = true := by rw [← hsel]; exact hs
        rw [horphan k, horphan₁ k]
        by_cases hk : k = key
        · subst hk
          simp [hkey, hpick, Option.filter_some]
        · simp [hk]
      · obtain ⟨pool', hrun, h', hsweep, horphan⟩ := eraseOrphansWhere_spec select sel hsel keys h
        refine ⟨pool', by simp [eraseOrphansWhere, hlook, hs, hrun], h', hsweep, fun k => ?_⟩
        have hkeep : sel it.entry = false := by rw [← hsel]; simpa using hs
        rw [horphan k]
        by_cases hk : k = key
        · subst hk
          simp [hkey, hkeep, Option.filter_some]
        · simp [hk]

theorem Within.of_erase {pool' pool : OrphanPool} {hash : uint256}
    (h : ∀ k, pool'.orphan k = if k = hash then none else pool.orphan k) : pool'.Within pool := by
  intro k e he
  rw [h k] at he
  split at he
  · cases he
  · exact he

theorem Within.of_filter {pool' pool : OrphanPool} {keys : List uint256} {p : OrphanEntry → Bool}
    (h : ∀ k, pool'.orphan k = if k ∈ keys then (pool.orphan k).filter p else pool.orphan k) :
    pool'.Within pool := by
  intro k e he
  rw [h k] at he
  split at he
  · exact (Option.filter_eq_some_iff.mp he).1
  · exact he

/-- The sweep erases what `eraseOrphansWhere` erases for the expired orphans,
and its `nMinExpTime` is at most the expiry of every orphan of `keys` it
keeps. -/
theorem sweepOrphans_spec (nNow : Int) :
    ∀ (keys : List uint256) (nMinExpTime : Int) {pool : OrphanPool}, pool.Consistent →
      ∃ m pool', sweepOrphans nNow keys nMinExpTime pool = some (m, pool') ∧
        eraseOrphansWhere (fun it => decide (it.nTimeExpire ≤ nNow)) keys pool = some pool' ∧
        m ≤ nMinExpTime ∧ ∀ k ∈ keys, ∀ e, pool'.orphan k = some e → m ≤ e.nTimeExpire
  | [], m, pool, _ => ⟨m, pool, rfl, rfl, le_rfl, by simp⟩
  | key :: keys, m, pool, h => by
    -- what the rest of the loop leaves of the orphan at `key`
    have hrest : ∀ {pool₁ pool' : OrphanPool}, pool₁.Consistent →
        eraseOrphansWhere (fun it => decide (it.nTimeExpire ≤ nNow)) keys pool₁ = some pool' →
        pool'.Within pool₁ := by
      intro pool₁ pool' h₁ hrun
      obtain ⟨pool'', hrun', -, -, horphan⟩ :=
        eraseOrphansWhere_spec (fun it => decide (it.nTimeExpire ≤ nNow))
          (fun e => decide (e.nTimeExpire ≤ nNow)) (fun _ => rfl) keys h₁
      rw [hrun, Option.some.injEq] at hrun'
      subst hrun'
      exact Within.of_filter horphan
    cases hlook : pool.mapOrphanTransactions.lookup key with
    | none =>
      obtain ⟨m', pool', hsweep, hrun, hle, hbound⟩ := sweepOrphans_spec nNow keys m h
      refine ⟨m', pool', by simp [sweepOrphans, hlook, hsweep],
        by simp [eraseOrphansWhere, hlook, hrun], hle, ?_⟩
      intro k hk e he
      rcases List.mem_cons.mp hk with rfl | hk
      · have := hrest h hrun k e he
        simp [orphan, hlook] at this
      · exact hbound k hk e he
    | some it =>
      have hkey : pool.orphan key = some it.entry := by simp [orphan, hlook]
      by_cases hexp : it.nTimeExpire ≤ nNow
      · -- expired: erased by its hash, which is its key
        have hhash : it.tx.getHash = key := h.hash key it.entry hkey
        obtain ⟨n, pool₁, herase, h₁, horphan₁, -⟩ := eraseOrphanTx_spec h key
        obtain ⟨m', pool', hsweep, hrun, hle, hbound⟩ := sweepOrphans_spec nNow keys m h₁
        refine ⟨m', pool', by simp [sweepOrphans, hlook, hexp, hhash, herase, hsweep],
          by simp [eraseOrphansWhere, hlook, hexp, hhash, herase, hrun], hle, ?_⟩
        intro k hk e he
        rcases List.mem_cons.mp hk with rfl | hk
        · have := hrest h₁ hrun k e he
          simp [horphan₁] at this
        · exact hbound k hk e he
      · -- kept: its expiry joins the minimum
        obtain ⟨m', pool', hsweep, hrun, hle, hbound⟩ :=
          sweepOrphans_spec nNow keys (min it.nTimeExpire m) h
        refine ⟨m', pool', by simp [sweepOrphans, hlook, hexp, hsweep],
          by simp [eraseOrphansWhere, hlook, hexp, hrun], le_trans hle (min_le_right _ _), ?_⟩
        intro k hk e he
        rcases List.mem_cons.mp hk with rfl | hk
        · have he' := hrest h hrun k e he
          rw [hkey, Option.some.injEq] at he'
          subst he'
          calc m' ≤ min it.nTimeExpire m := hle
            _ ≤ it.nTimeExpire := min_le_left _ _
        · exact hbound k hk e he

/-- The eviction loop on a consistent pool with no more orphans than `fuel`
turns can erase beyond `nMaxOrphans`: no `assert` fails and at most
`nMaxOrphans` orphans are left. -/
theorem evictOrphans_spec (rng : RandRange) (nMaxOrphans : Nat) :
    ∀ (fuel nEvicted : Nat) {pool : OrphanPool}, pool.Consistent →
      pool.mapOrphanTransactions.entries.length ≤ fuel + nMaxOrphans →
      ∃ n pool', evictOrphans rng nMaxOrphans fuel nEvicted pool = some (n, pool') ∧
        pool'.Consistent ∧ pool'.mapOrphanTransactions.entries.length ≤ nMaxOrphans ∧
        pool'.Within pool ∧ pool'.nNextSweep = pool.nNextSweep
  | 0, nEvicted, pool, h, hle => ⟨nEvicted, pool, rfl, h, by omega, Within.refl pool, rfl⟩
  | fuel + 1, nEvicted, pool, h, hle => by
    by_cases hover : pool.mapOrphanTransactions.entries.length > nMaxOrphans
    · -- the draw is a position of the vector, so an orphan goes
      have hlen := h.length_eq
      have hpos : rng.randrange nEvicted pool.g_orphan_list.length < pool.g_orphan_list.length :=
        rng.randrange_lt _ _ (by omega)
      set it := pool.g_orphan_list[rng.randrange nEvicted pool.g_orphan_list.length] with hit
      have hget : pool.g_orphan_list[rng.randrange nEvicted pool.g_orphan_list.length]? = some it :=
        List.getElem?_eq_getElem hpos
      obtain ⟨o, ho⟩ := h.lookup_of_mem (List.mem_of_getElem? hget)
      have hmem : it ∈ pool.mapOrphanTransactions := AList.lookup_isSome.mp (by simp [ho])
      obtain ⟨n, pool₁, herase, h₁, horphan₁, hn, hlen₁, hsweep₁⟩ := eraseOrphanTx_spec h it
      have hsize₁ : pool₁.mapOrphanTransactions.entries.length + 1 =
          pool.mapOrphanTransactions.entries.length := by
        simp only [hmem, if_true] at hn
        rw [h₁.length_eq, hlen, ← hlen₁, hn]
      obtain ⟨n', pool', hrun, h', hsize', hwithin, hsweep⟩ :=
        evictOrphans_spec rng nMaxOrphans fuel (nEvicted + 1) h₁ (by omega)
      refine ⟨n', pool', ?_, h', hsize', hwithin.trans (Within.of_erase horphan₁),
        hsweep.trans hsweep₁⟩
      simp [evictOrphans, hover, hget, herase, hrun]
    · exact ⟨nEvicted, pool, by simp [evictOrphans, hover], h, by omega, Within.refl pool, rfl⟩

/-- The keys `std::map` visits are the keys of the map. -/
theorem mem_orderedKeys (pool : OrphanPool) (k : uint256) :
    k ∈ pool.orderedKeys ↔ k ∈ pool.mapOrphanTransactions := by
  rw [orderedKeys, (List.perm_insertionSort _ _).mem_iff, AList.mem_keys]

/-- A loop over the keys `std::map` visits passes every orphan. -/
theorem orphan_of_orderedKeys {pool : OrphanPool} {o : uint256 → Option OrphanEntry}
    {p : OrphanEntry → Bool}
    (h : ∀ k, o k = if k ∈ pool.orderedKeys then (pool.orphan k).filter p else pool.orphan k)
    (k : uint256) : o k = (pool.orphan k).filter p := by
  rw [h k]
  split
  · rfl
  · rename_i hk
    have hnone : pool.orphan k = none := by
      rw [mem_orderedKeys, mem_iff_orphan_isSome] at hk
      simpa using hk
    simp [hnone]

/-- `LimitOrphanTxSize` on a consistent pool: no `assert` fails, at most
`nMaxOrphans` orphans are left, all of them orphans of the pool before.  When
it sweeps, none that expired by `nNow` is left and the next sweep is due
within `ORPHAN_TX_EXPIRE_TIME` and no later than `ORPHAN_TX_EXPIRE_INTERVAL`
after any orphan left expires; otherwise the next sweep stays as it was. -/
theorem limitOrphanTxSize_spec (rng : RandRange) (nNow : Int) (nMaxOrphans : Nat)
    {pool : OrphanPool} (h : pool.Consistent) :
    ∃ n pool', limitOrphanTxSize rng nNow nMaxOrphans pool = some (n, pool') ∧
      pool'.Consistent ∧ pool'.mapOrphanTransactions.entries.length ≤ nMaxOrphans ∧
      pool'.Within pool ∧
      (pool.nNextSweep ≤ nNow → pool'.nNextSweep ≤ nNow + ORPHAN_TX_EXPIRE_TIME ∧
        ∀ k e, pool'.orphan k = some e → nNow < e.nTimeExpire ∧
          pool'.nNextSweep ≤ e.nTimeExpire + ORPHAN_TX_EXPIRE_INTERVAL) ∧
      (nNow < pool.nNextSweep → pool'.nNextSweep = pool.nNextSweep) := by
  by_cases hsweep : pool.nNextSweep ≤ nNow
  · obtain ⟨m, pool₁, hsw, hrun, hle, hbound⟩ := sweepOrphans_spec nNow pool.orderedKeys
      (nNow + ORPHAN_TX_EXPIRE_TIME - ORPHAN_TX_EXPIRE_INTERVAL) h
    obtain ⟨pool₁', hrun', h₁, -, horphan₁⟩ := eraseOrphansWhere_spec
      (fun it => decide (it.nTimeExpire ≤ nNow)) (fun e => decide (e.nTimeExpire ≤ nNow))
      (fun _ => rfl) pool.orderedKeys h
    rw [hrun, Option.some.injEq] at hrun'
    subst hrun'
    -- the sweep visits every orphan and keeps those not expired
    have hswept : ∀ k e, pool₁.orphan k = some e →
        nNow < e.nTimeExpire ∧ k ∈ pool.orderedKeys := by
      intro k e he
      rw [orphan_of_orderedKeys horphan₁ k, Option.filter_eq_some_iff] at he
      refine ⟨by simpa using he.2, ?_⟩
      rw [mem_orderedKeys, mem_iff_orphan_isSome, he.1]
      rfl
    obtain ⟨n, pool', hevict, h', hsize, hwithin, hnext⟩ :=
      evictOrphans_spec rng nMaxOrphans pool₁.mapOrphanTransactions.entries.length 0
        (h₁.with_nNextSweep (m + ORPHAN_TX_EXPIRE_INTERVAL)) (by simp)
    refine ⟨n, pool', ?_, h', hsize, hwithin.trans (Within.of_filter horphan₁), fun _ => ?_,
      fun hlt => absurd hsweep (not_le.mpr hlt)⟩
    · simp only [limitOrphanTxSize, if_pos hsweep, hsw]
      exact hevict
    refine ⟨by rw [hnext]; dsimp only; omega, fun k e he => ?_⟩
    obtain ⟨hfresh, hk⟩ := hswept k e (hwithin k e he)
    have := hbound k hk e (hwithin k e he)
    exact ⟨hfresh, by rw [hnext]; dsimp only; omega⟩
  · obtain ⟨n, pool', hevict, h', hsize, hwithin, hnext⟩ :=
      evictOrphans_spec rng nMaxOrphans pool.mapOrphanTransactions.entries.length 0 h (by simp)
    refine ⟨n, pool', ?_, h', hsize, hwithin, fun hle => absurd hle hsweep, fun _ => hnext⟩
    simp only [limitOrphanTxSize, if_neg hsweep]
    exact hevict

/-- `EraseOrphansFor` on a consistent pool: no `assert` fails, and exactly the
orphans from `peer` go. -/
theorem eraseOrphansFor_spec (peer : NodeId) {pool : OrphanPool} (h : pool.Consistent) :
    ∃ pool', eraseOrphansFor peer pool = some pool' ∧ pool'.Consistent ∧
      pool'.nNextSweep = pool.nNextSweep ∧
      ∀ k, pool'.orphan k = (pool.orphan k).filter fun e => e.fromPeer != peer := by
  obtain ⟨pool', hrun, h', hsweep, horphan⟩ := eraseOrphansWhere_spec
    (fun it => it.fromPeer == peer) (fun e => e.fromPeer == peer) (fun _ => rfl) pool.orderedKeys h
  exact ⟨pool', hrun, h', hsweep, orphan_of_orderedKeys horphan⟩

/-- `for (hash : hashes) EraseOrphanTx(hash)` on a consistent pool: no
`assert` fails, and exactly the orphans at `hashes` go. -/
theorem eraseOrphanTxs_spec :
    ∀ (hashes : List uint256) {pool : OrphanPool}, pool.Consistent →
      ∃ pool', eraseOrphanTxs hashes pool = some pool' ∧ pool'.Consistent ∧
        pool'.nNextSweep = pool.nNextSweep ∧
        ∀ k, pool'.orphan k = if k ∈ hashes then none else pool.orphan k
  | [], pool, h => ⟨pool, rfl, h, rfl, fun k => by simp⟩
  | hash :: hashes, pool, h => by
    obtain ⟨n, pool₁, herase, h₁, horphan₁, -, -, hsweep₁⟩ := eraseOrphanTx_spec h hash
    obtain ⟨pool', hrun, h', hsweep, horphan⟩ := eraseOrphanTxs_spec hashes h₁
    refine ⟨pool', by simp [eraseOrphanTxs, herase, hrun], h', hsweep.trans hsweep₁, fun k => ?_⟩
    rw [horphan k, horphan₁ k]
    by_cases hk : k = hash
    · simp [hk]
    · simp [hk]

/-- The orphans `BlockConnected` collects are those spending an outpoint an
input of the block spends. -/
theorem mem_orphansConflicting {pool : OrphanPool} (h : pool.Consistent)
    (vtx : List CTransaction) (k : uint256) :
    k ∈ orphansConflicting vtx pool ↔ ∃ e, pool.orphan k = some e ∧
      ∃ tx ∈ vtx, ∃ txin ∈ tx.vin, ∃ txin' ∈ e.tx.vin, txin'.prevout = txin.prevout := by
  -- an iterator of the index leads to the orphan filed under `k` exactly when it is `k`
  have hiter : ∀ mi, (pool.mapOrphanTransactions.lookup mi).map (·.tx.getHash) = some k ↔
      mi = k ∧ (pool.orphan k).isSome := by
    intro mi
    constructor
    · intro hmi
      obtain ⟨it, hit, rfl⟩ := Option.map_eq_some_iff.mp hmi
      have hkey : pool.orphan mi = some it.entry := by simp [orphan, hit]
      have hhash : it.tx.getHash = mi := h.hash mi it.entry hkey
      exact ⟨hhash.symm, by rw [hhash, hkey]; rfl⟩
    · rintro ⟨rfl, hsome⟩
      obtain ⟨it, hit⟩ := Option.isSome_iff_exists.mp (by simpa [orphan] using hsome)
      have hkey : pool.orphan mi = some it.entry := by simp [orphan, hit]
      simp only [hit, Option.map_some, Option.some.injEq]
      exact h.hash mi it.entry hkey
  simp only [orphansConflicting, List.mem_flatMap, List.mem_filterMap, hiter,
    h.byPrev.mem_under, prevouts, Option.map_eq_some_iff]
  constructor
  · rintro ⟨tx, htx, txin, htxin, mi, ⟨ts, ⟨e, he, rfl⟩, hts⟩, rfl, -⟩
    obtain ⟨txin', htxin', hprev⟩ := List.mem_map.mp hts
    exact ⟨e, he, tx, htx, txin, htxin, txin', htxin', hprev⟩
  · rintro ⟨e, he, tx, htx, txin, htxin, txin', htxin', hprev⟩
    exact ⟨tx, htx, txin, htxin, k, ⟨_, ⟨e, he, rfl⟩, List.mem_map.mpr ⟨txin', htxin', hprev⟩⟩,
      rfl, by simp [he]⟩

/-- `BlockConnected` on a consistent pool: no `assert` fails, and exactly the
orphans spending an outpoint that an input of the block spends go. -/
theorem blockConnected_spec (vtx : List CTransaction) {pool : OrphanPool} (h : pool.Consistent) :
    ∃ pool', blockConnected vtx pool = some pool' ∧ pool'.Consistent ∧
      pool'.nNextSweep = pool.nNextSweep ∧
      ∀ k e, pool'.orphan k = some e ↔ pool.orphan k = some e ∧
        ∀ tx ∈ vtx, ∀ txin ∈ tx.vin, ∀ txin' ∈ e.tx.vin, txin'.prevout ≠ txin.prevout := by
  obtain ⟨pool', hrun, h', hsweep, horphan⟩ := eraseOrphanTxs_spec (orphansConflicting vtx pool) h
  refine ⟨pool', hrun, h', hsweep, fun k e => ?_⟩
  rw [horphan k]
  by_cases hc : k ∈ orphansConflicting vtx pool
  · -- collected: gone, and it spends against the block
    obtain ⟨e', he', tx, htx, txin, htxin, txin', htxin', hprev⟩ :=
      (mem_orphansConflicting h vtx k).mp hc
    simp only [if_pos hc, reduceCtorEq, false_iff, not_and]
    intro he hnone
    rw [he, Option.some.injEq] at he'
    subst he'
    exact hnone tx htx txin htxin txin' htxin' hprev
  · rw [if_neg hc]
    constructor
    · intro he
      refine ⟨he, fun tx htx txin htxin txin' htxin' hprev => hc ?_⟩
      exact (mem_orphansConflicting h vtx k).mpr ⟨e, he, tx, htx, txin, htxin, txin', htxin', hprev⟩
    · exact fun hkept => hkept.1

/-- The work set of an accepted transaction is the orphans spending one of
its outputs, when its outputs can be counted in an `unsigned int`. -/
theorem mem_orphansSpending {pool : OrphanPool} (h : pool.Consistent) (tx : CTransaction)
    (hout : tx.vout.length ≤ 2 ^ 32) (k : uint256) :
    k ∈ orphansSpending tx pool ↔ ∃ e, pool.orphan k = some e ∧
      ∃ txin ∈ e.tx.vin, txin.prevout.hash = tx.getHash ∧ txin.prevout.n.toNat < tx.vout.length := by
  simp only [orphansSpending, List.mem_flatMap, List.mem_range, h.byPrev.mem_under, prevouts,
    Option.map_eq_some_iff]
  constructor
  · rintro ⟨i, hi, ts, ⟨e, he, rfl⟩, hts⟩
    obtain ⟨txin, htxin, hprev⟩ := List.mem_map.mp hts
    refine ⟨e, he, txin, htxin, by rw [hprev], ?_⟩
    rw [hprev]
    simp only [Nat.toUInt32_eq, UInt32.toNat_ofNat']
    omega
  · rintro ⟨e, he, txin, htxin, hhash, hn⟩
    refine ⟨txin.prevout.n.toNat, hn, _, ⟨e, he, rfl⟩, List.mem_map.mpr ⟨txin, htxin, ?_⟩⟩
    rw [← hhash]
    simp

/-! ## Runs -/

/-- Every event keeps the pool consistent, and no `assert` fails. -/
theorem Consistent.step {pool : OrphanPool} (h : pool.Consistent) :
    ∀ e : OrphanEvent, ∃ pool', e.step pool = some pool' ∧ pool'.Consistent
  | .orphan tx peer nNow maxorphantx rng => by
    obtain ⟨n, pool', hlimit, h', -⟩ :=
      limitOrphanTxSize_spec rng nNow (maxOrphanTx maxorphantx) (h.addOrphanTx nNow tx peer)
    exact ⟨pool', by simp [OrphanEvent.step, hlimit], h'⟩
  | .erase hash => by
    obtain ⟨n, pool', herase, h', -⟩ := eraseOrphanTx_spec h hash
    exact ⟨pool', by simp [OrphanEvent.step, herase], h'⟩
  | .finalize peer => by
    obtain ⟨pool', hrun, h', -⟩ := eraseOrphansFor_spec peer h
    exact ⟨pool', hrun, h'⟩
  | .blockConnected vtx => by
    obtain ⟨pool', hrun, h', -⟩ := blockConnected_spec vtx h
    exact ⟨pool', hrun, h'⟩

theorem Consistent.run :
    ∀ (events : List OrphanEvent) {pool : OrphanPool}, pool.Consistent →
      ∃ pool', OrphanEvent.run events pool = some pool' ∧ pool'.Consistent
  | [], pool, h => ⟨pool, rfl, h⟩
  | e :: es, _, h => by
    obtain ⟨pool₁, hstep, h₁⟩ := h.step e
    obtain ⟨pool', hrun, h'⟩ := Consistent.run es h₁
    exact ⟨pool', by simp [OrphanEvent.run, hstep, hrun], h'⟩

end OrphanPool

/-- In every run of the orphan pool from the empty one no `assert` fails, and
the map, the vector of positions and the index by outpoint agree. -/
theorem orphanPool_run_consistent (events : List OrphanEvent) :
    ∃ pool, OrphanEvent.run events OrphanPool.init = some pool ∧ pool.Consistent :=
  OrphanPool.Consistent.init.run events

/-! ## The sweep schedule

`LimitOrphanTxSize` sweeps only once `nNextSweep` is due.  The schedule keeps
expired orphans from staying long when no orphan expires long before the
next sweep is due (`Timely`).  Only the `TX` handler reads `GetTime()`, and
the schedule is kept while that clock never goes back. -/

/-- The clock after an event, `t` before it. -/
def OrphanEvent.clock : OrphanEvent → Int → Int
  | .orphan _ _ nNow _ _, _ => nNow
  | .erase _, t => t
  | .finalize _, t => t
  | .blockConnected _, t => t

/-- The clock after the events, `t` before them. -/
def OrphanEvent.clockAfter (t : Int) (events : List OrphanEvent) : Int :=
  events.foldl (fun t e => e.clock t) t

/-- The clock never goes back along `events`, from `t` on. -/
def OrphanEvent.ClockFrom : Int → List OrphanEvent → Prop
  | _, [] => True
  | t, e :: es => t ≤ e.clock t ∧ ClockFrom (e.clock t) es

namespace OrphanPool

/-- The sweep schedule at time `t`: the next sweep is due within
`ORPHAN_TX_EXPIRE_TIME` of `t`, and no later than `ORPHAN_TX_EXPIRE_INTERVAL`
after any orphan expires. -/
structure Timely (t : Int) (pool : OrphanPool) : Prop where
  sweep_le_time : pool.nNextSweep ≤ t + ORPHAN_TX_EXPIRE_TIME
  sweep_le_expiry : ∀ k e, pool.orphan k = some e →
    pool.nNextSweep ≤ e.nTimeExpire + ORPHAN_TX_EXPIRE_INTERVAL

theorem Timely.init : Timely 0 OrphanPool.init :=
  ⟨by simp [OrphanPool.init, ORPHAN_TX_EXPIRE_TIME], by simp [orphan, OrphanPool.init]⟩

/-- Erasing orphans keeps the schedule. -/
theorem Timely.within {t : Int} {pool pool' : OrphanPool} (h : Timely t pool)
    (hw : pool'.Within pool) (hs : pool'.nNextSweep = pool.nNextSweep) : Timely t pool' :=
  ⟨hs ▸ h.sweep_le_time, fun k e he => hs ▸ h.sweep_le_expiry k e (hw k e he)⟩

theorem addOrphanTx_nNextSweep (pool : OrphanPool) (nNow : Int) (tx : CTransaction)
    (peer : NodeId) : (addOrphanTx nNow tx peer pool).2.nNextSweep = pool.nNextSweep := by
  by_cases hnew : tx.getHash ∉ pool.mapOrphanTransactions ∧
      getTransactionWeight tx % 2 ^ 32 ≤ MAX_STANDARD_TX_WEIGHT
  · rw [addOrphanTx_of_new pool nNow tx peer hnew.1 hnew.2]
  · rw [addOrphanTx_of_not_new pool nNow tx peer hnew]

/-- A new orphan expires `ORPHAN_TX_EXPIRE_TIME` after the clock, so later
than any sweep the schedule can have due. -/
theorem Timely.addOrphanTx {t : Int} {pool : OrphanPool} (h : Timely t pool) {nNow : Int}
    (ht : t ≤ nNow) (tx : CTransaction) (peer : NodeId) :
    Timely nNow (Veribase.addOrphanTx nNow tx peer pool).2 := by
  have hsweep := addOrphanTx_nNextSweep pool nNow tx peer
  refine ⟨by rw [hsweep]; have := h.sweep_le_time; omega, fun k e he => ?_⟩
  rw [hsweep]
  rw [orphan_addOrphanTx] at he
  split at he
  · cases he
    have := h.sweep_le_time
    simp only [ORPHAN_TX_EXPIRE_INTERVAL] at this ⊢
    omega
  · exact h.sweep_le_expiry k e he

/-- The `TX` event on a pool on schedule, at a time no earlier than the clock:
the pool stays consistent and on schedule, and no orphan is left that expired
`ORPHAN_TX_EXPIRE_INTERVAL` or more before `nNow`. -/
theorem Timely.orphan_step {t : Int} {pool : OrphanPool} (hc : pool.Consistent)
    (h : Timely t pool) (tx : CTransaction) (peer : NodeId) {nNow : Int} (ht : t ≤ nNow)
    (maxorphantx : Option Int) (rng : RandRange) :
    ∃ pool', (OrphanEvent.orphan tx peer nNow maxorphantx rng).step pool = some pool' ∧
      pool'.Consistent ∧ Timely nNow pool' ∧
      ∀ k e, pool'.orphan k = some e → nNow < e.nTimeExpire + ORPHAN_TX_EXPIRE_INTERVAL := by
  have h₁ := h.addOrphanTx ht tx peer
  obtain ⟨n, pool', hlimit, hc', -, hwithin, hswept, hkept⟩ :=
    limitOrphanTxSize_spec rng nNow (maxOrphanTx maxorphantx) (hc.addOrphanTx nNow tx peer)
  refine ⟨pool', by simp [OrphanEvent.step, hlimit], hc', ?_⟩
  by_cases hsweep : (Veribase.addOrphanTx nNow tx peer pool).2.nNextSweep ≤ nNow
  · -- swept now: what is left has not expired, and the schedule is the sweep's
    obtain ⟨hdue, hfresh⟩ := hswept hsweep
    refine ⟨⟨hdue, fun k e he => (hfresh k e he).2⟩, fun k e he => ?_⟩
    have := (hfresh k e he).1
    simp only [ORPHAN_TX_EXPIRE_INTERVAL]
    omega
  · -- not due: the schedule stays, and bounds what is left
    have hnext := hkept (not_le.mp hsweep)
    have h' := h₁.within hwithin hnext
    refine ⟨h', fun k e he => ?_⟩
    have := h'.sweep_le_expiry k e he
    rw [hnext] at this
    omega

/-- Every event at a time no earlier than the clock keeps the pool consistent
and on schedule. -/
theorem Timely.step {t : Int} {pool : OrphanPool} (hc : pool.Consistent) (h : Timely t pool) :
    ∀ e : OrphanEvent, t ≤ e.clock t →
      ∃ pool', e.step pool = some pool' ∧ pool'.Consistent ∧ Timely (e.clock t) pool'
  | .orphan tx peer nNow maxorphantx rng, ht => by
    obtain ⟨pool', hstep, hc', h', -⟩ := h.orphan_step hc tx peer ht maxorphantx rng
    exact ⟨pool', hstep, hc', h'⟩
  | .erase hash, _ => by
    obtain ⟨n, pool', herase, hc', horphan, -, -, hsweep⟩ := eraseOrphanTx_spec hc hash
    exact ⟨pool', by simp [OrphanEvent.step, herase], hc', h.within (Within.of_erase horphan) hsweep⟩
  | .finalize peer, _ => by
    obtain ⟨pool', hrun, hc', hsweep, horphan⟩ := eraseOrphansFor_spec peer hc
    have hw : pool'.Within pool := fun k e he => by
      rw [horphan k] at he
      exact (Option.filter_eq_some_iff.mp he).1
    exact ⟨pool', hrun, hc', h.within hw hsweep⟩
  | .blockConnected vtx, _ => by
    obtain ⟨pool', hrun, hc', hsweep, horphan⟩ := blockConnected_spec vtx hc
    exact ⟨pool', hrun, hc', h.within (fun k e he => ((horphan k e).mp he).1) hsweep⟩

theorem Timely.run :
    ∀ (events : List OrphanEvent) {t : Int} {pool : OrphanPool}, pool.Consistent →
      Timely t pool → OrphanEvent.ClockFrom t events →
      ∃ pool', OrphanEvent.run events pool = some pool' ∧ pool'.Consistent ∧
        Timely (OrphanEvent.clockAfter t events) pool'
  | [], _, pool, hc, h, _ => ⟨pool, rfl, hc, h⟩
  | e :: es, _, _, hc, h, ⟨ht, hclock⟩ => by
    obtain ⟨pool₁, hstep, hc₁, h₁⟩ := h.step hc e ht
    obtain ⟨pool', hrun, hc', h'⟩ := Timely.run es hc₁ h₁ hclock
    exact ⟨pool', by simp [OrphanEvent.run, hstep, hrun], hc', h'⟩

end OrphanPool

/-! ## What the pool guarantees -/

open OrphanPool

/-- On every pool a run reaches, `LimitOrphanTxSize` leaves at most
`nMaxOrphans` orphans, each one an orphan that was there, and, when it sweeps,
none that expired by `nNow`. -/
theorem limitOrphanTxSize_bounds_pool (events : List OrphanEvent) (rng : RandRange) (nNow : Int)
    (nMaxOrphans : Nat) :
    ∃ pool n pool', OrphanEvent.run events OrphanPool.init = some pool ∧
      limitOrphanTxSize rng nNow nMaxOrphans pool = some (n, pool') ∧
      pool'.mapOrphanTransactions.entries.length ≤ nMaxOrphans ∧ pool'.Within pool ∧
      (pool.nNextSweep ≤ nNow → ∀ k e, pool'.orphan k = some e → nNow < e.nTimeExpire) := by
  obtain ⟨pool, hrun, h⟩ := OrphanPool.Consistent.init.run events
  obtain ⟨n, pool', hlimit, -, hsize, hwithin, hswept, -⟩ :=
    limitOrphanTxSize_spec rng nNow nMaxOrphans h
  exact ⟨pool, n, pool', hrun, hlimit, hsize, hwithin,
    fun hsweep k e he => ((hswept hsweep).2 k e he).1⟩

/-- On every pool a run reaches, `EraseOrphansFor(peer)` erases exactly the
orphans from `peer`, and keeps the others as they were. -/
theorem eraseOrphansFor_erases_peer (events : List OrphanEvent) (peer : NodeId) :
    ∃ pool pool', OrphanEvent.run events OrphanPool.init = some pool ∧
      eraseOrphansFor peer pool = some pool' ∧
      ∀ k e, pool'.orphan k = some e ↔ pool.orphan k = some e ∧ e.fromPeer ≠ peer := by
  obtain ⟨pool, hrun, h⟩ := OrphanPool.Consistent.init.run events
  obtain ⟨pool', herase, -, -, horphan⟩ := eraseOrphansFor_spec peer h
  refine ⟨pool, pool', hrun, herase, fun k e => ?_⟩
  rw [horphan k, Option.filter_eq_some_iff, bne_iff_ne]

/-- On every pool a run reaches, `BlockConnected` erases exactly the orphans
that spend an outpoint some input of the block spends, and keeps the others
as they were. -/
theorem blockConnected_erases_conflicts (events : List OrphanEvent) (vtx : List CTransaction) :
    ∃ pool pool', OrphanEvent.run events OrphanPool.init = some pool ∧
      blockConnected vtx pool = some pool' ∧
      ∀ k e, pool'.orphan k = some e ↔ pool.orphan k = some e ∧
        ∀ tx ∈ vtx, ∀ txin ∈ tx.vin, ∀ txin' ∈ e.tx.vin, txin'.prevout ≠ txin.prevout := by
  obtain ⟨pool, hrun, h⟩ := OrphanPool.Consistent.init.run events
  obtain ⟨pool', hconnected, -, -, horphan⟩ := blockConnected_spec vtx h
  exact ⟨pool, pool', hrun, hconnected, horphan⟩

/-- On every pool a run reaches, the work set the index gives for an accepted
transaction is exactly the orphans spending one of its outputs, when its
outputs can be counted in an `unsigned int`. -/
theorem orphansSpending_exact (events : List OrphanEvent) (tx : CTransaction)
    (hout : tx.vout.length ≤ 2 ^ 32) :
    ∃ pool, OrphanEvent.run events OrphanPool.init = some pool ∧
      ∀ k, k ∈ orphansSpending tx pool ↔ ∃ e, pool.orphan k = some e ∧
        ∃ txin ∈ e.tx.vin, txin.prevout.hash = tx.getHash ∧
          txin.prevout.n.toNat < tx.vout.length := by
  obtain ⟨pool, hrun, h⟩ := OrphanPool.Consistent.init.run events
  exact ⟨pool, hrun, mem_orphansSpending h tx hout⟩

/-- A transaction of hash `1` with one output. -/
def oneOutputTx : CTransaction := ⟨1, 0, [], [⟨1, []⟩], 0, uint256.arithToUint256 1⟩

/-- A transaction of hash `hash` spending output `n` of `oneOutputTx`. -/
def spendingTx (n : UInt32) (hash : Nat) : CTransaction :=
  ⟨1, 0, [⟨⟨oneOutputTx.getHash, n⟩, [], COutPoint.NULL_INDEX, []⟩], [], 0, uint256.arithToUint256 hash⟩

theorem orphansSpending_exact_one_output :
    oneOutputTx.vout.length ≤ 2 ^ 32 ∧
    ∃ pool, OrphanEvent.run [.orphan (spendingTx 0 2) 0 0 none ⟨fun _ _ => 0, fun _ _ hn => hn⟩]
        OrphanPool.init = some pool ∧
      ∀ k, k ∈ orphansSpending oneOutputTx pool ↔ ∃ e, pool.orphan k = some e ∧
        ∃ txin ∈ e.tx.vin, txin.prevout.hash = oneOutputTx.getHash ∧
          txin.prevout.n.toNat < oneOutputTx.vout.length :=
  ⟨by decide, orphansSpending_exact _ oneOutputTx (by decide)⟩

/-- In every run from the empty pool whose clock never goes back and starts at
zero or later, once the `TX` handler has added and limited at time `nNow`, no
orphan is left that expired `ORPHAN_TX_EXPIRE_INTERVAL` or more before
`nNow`: the batched sweep lets no expired orphan stay longer. -/
theorem orphanPool_expired_swept (events : List OrphanEvent)
    (hclock : OrphanEvent.ClockFrom 0 events) (tx : CTransaction) (peer : NodeId) (nNow : Int)
    (hnow : OrphanEvent.clockAfter 0 events ≤ nNow) (maxorphantx : Option Int) (rng : RandRange) :
    ∃ pool pool', OrphanEvent.run events OrphanPool.init = some pool ∧
      (OrphanEvent.orphan tx peer nNow maxorphantx rng).step pool = some pool' ∧
      ∀ k e, pool'.orphan k = some e → nNow < e.nTimeExpire + ORPHAN_TX_EXPIRE_INTERVAL := by
  obtain ⟨pool, hrun, hc, h⟩ := Timely.init.run events Consistent.init hclock
  obtain ⟨pool', hstep, -, -, hfresh⟩ := h.orphan_step hc tx peer hnow maxorphantx rng
  exact ⟨pool, pool', hrun, hstep, hfresh⟩

/-- An orphan added at time `0` expires at `ORPHAN_TX_EXPIRE_TIME`; another
one, added `ORPHAN_TX_EXPIRE_INTERVAL` after that, finds it swept. -/
theorem orphanPool_expired_swept_later :
    OrphanEvent.ClockFrom 0 [.orphan (spendingTx 0 2) 0 0 none ⟨fun _ _ => 0, fun _ _ hn => hn⟩] ∧
    OrphanEvent.clockAfter 0 [.orphan (spendingTx 0 2) 0 0 none ⟨fun _ _ => 0, fun _ _ hn => hn⟩] ≤
      ORPHAN_TX_EXPIRE_TIME + ORPHAN_TX_EXPIRE_INTERVAL ∧
    ∃ pool pool', OrphanEvent.run [.orphan (spendingTx 0 2) 0 0 none ⟨fun _ _ => 0, fun _ _ hn => hn⟩]
        OrphanPool.init = some pool ∧
      (OrphanEvent.orphan (spendingTx 1 3) 1 (ORPHAN_TX_EXPIRE_TIME + ORPHAN_TX_EXPIRE_INTERVAL) none
        ⟨fun _ _ => 0, fun _ _ hn => hn⟩).step pool = some pool' ∧
      ∀ k e, pool'.orphan k = some e →
        ORPHAN_TX_EXPIRE_TIME + ORPHAN_TX_EXPIRE_INTERVAL < e.nTimeExpire + ORPHAN_TX_EXPIRE_INTERVAL := by
  have hclock : OrphanEvent.ClockFrom 0
      [.orphan (spendingTx 0 2) 0 0 none ⟨fun _ _ => 0, fun _ _ hn => hn⟩] := ⟨le_refl 0, trivial⟩
  have hnow : OrphanEvent.clockAfter 0
      [.orphan (spendingTx 0 2) 0 0 none ⟨fun _ _ => 0, fun _ _ hn => hn⟩] ≤
        ORPHAN_TX_EXPIRE_TIME + ORPHAN_TX_EXPIRE_INTERVAL := by
    unfold ORPHAN_TX_EXPIRE_TIME ORPHAN_TX_EXPIRE_INTERVAL
    decide
  exact ⟨hclock, hnow, orphanPool_expired_swept _ hclock _ 1 _ hnow none _⟩

end Veribase
