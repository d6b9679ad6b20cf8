import Veribase.Lib.KeyedUpdate
import Veribase.Validation.ConnectBlock

/-!
# The stack of coin caches

`coins.cpp`'s `CCoinsViewCache` keeps a map of cache entries over a parent
view, which is another cache or, at the bottom, the coin database.  Each entry
carries a coin and two flags: `DIRTY` (the entry may differ from the parent)
and `FRESH` (the parent has no unspent coin there).  `FetchCoin` fills a
missing entry from the parent through `GetCoin`; `AddCoin` and `SpendCoin`
change entries in place, and `SpendCoin` drops a FRESH entry altogether;
`Flush` hands the entries to the parent's `BatchWrite`, which merges them
according to the flags of both entries; `Uncache` drops an entry with no flag.

What the stack stands for is one map from outpoints to unspent coins: the flat
`CCoinsViewCache` of `Validation.ConnectBlock`, whose `addCoin` and `spendCoin`
are what `ConnectBlock` is proved about.  `CoinsModel` is that map and the
number of layers, and `CacheOp` the operations of `coins_tests.cpp`'s
`coins_cache_simulation_test`.  The simulation is `Refines`: every layer's
flags keep the promises of `EntryOk` about the view below it, and the top
shows the model's map.  Each operation keeps it (`step_refines`), so every
allowed sequence of operations returns what the model returns
(`run_refines`), and flushing every layer leaves the model's map in the base.

The base is any view whose `BatchWrite` writes the dirty entries and whose
`GetCoin` gives only cleared coins when it gives a spent one
(`CCoinsView.Lawful`); the coin database `CCoinsViewDB` is one.
-/

namespace Veribase

open KeyedUpdate

/-! ## Entries, maps and the base view -/

/-- `CCoinsCacheEntry`: a cached coin and its flags. -/
structure CCoinsCacheEntry where
  coin : Coin
  /-- `DIRTY`: this entry may differ from the parent view's. -/
  dirty : Bool
  /-- `FRESH`: the parent view has no unspent coin here. -/
  fresh : Bool
deriving DecidableEq

/-- `CCoinsMap`: the entries of one cache, by outpoint. -/
abbrev CCoinsMap : Type := AList fun _ : COutPoint => CCoinsCacheEntry

/-- The coin, if it is not spent. -/
def unspentCoin (coin : Coin) : Option Coin := if coin.isSpent then none else some coin

/-- What a cache shows at an outpoint: the coin of its entry unless it is
spent, and what the view below shows where it has no entry. -/
def layerView (e? : Option CCoinsCacheEntry) (below : Option Coin) : Option Coin :=
  match e? with
  | some e => unspentCoin e.coin
  | none => below

/-- `CCoinsView`, the view at the bottom of the stack, over a state `σ`. -/
structure CCoinsView (σ : Type) where
  /-- `GetCoin(outpoint, coin)`: the coin, when it returns `true`. -/
  getCoin : σ → COutPoint → Option Coin
  /-- `BatchWrite(mapCoins, hashBlock)`. -/
  batchWrite : CCoinsMap → σ → σ

namespace CCoinsView

variable {σ : Type}

/-- The unspent coins of the base. -/
def view (base : CCoinsView σ) (s : σ) (o : COutPoint) : Option Coin :=
  (base.getCoin s o).bind unspentCoin

/-- What the caches above need of their base: a spent coin it gives is a
cleared one, and `BatchWrite` makes every dirty entry show and leaves the rest
of the view as it was. -/
structure Lawful (base : CCoinsView σ) : Prop where
  getCoin_spent : ∀ s o c, base.getCoin s o = some c → c.isSpent = true → c = Coin.empty
  view_batchWrite : ∀ m s o,
    base.view (base.batchWrite m s) o = layerView ((m.lookup o).filter (·.dirty)) (base.view s o)

end CCoinsView

/-- The coin database: `BatchWrite` erases a spent coin and never writes one. -/
def CoinsDB : Type := { db : COutPoint → Option Coin // ∀ o c, db o = some c → c.isSpent = false }

/-- The loop of `CCoinsViewDB::BatchWrite`: each dirty entry is erased if its
coin is spent and written otherwise. -/
def dbBatchWrite (mapCoins : CCoinsMap) (db : COutPoint → Option Coin) : COutPoint → Option Coin :=
  writeEach (fun _ old e => if e.dirty then (if e.coin.isSpent then none else some e.coin) else old)
    mapCoins.entries db

theorem dbBatchWrite_apply (mapCoins : CCoinsMap) (db : COutPoint → Option Coin) (o : COutPoint) :
    dbBatchWrite mapCoins db o = layerView ((mapCoins.lookup o).filter (·.dirty)) (db o) := by
  rw [dbBatchWrite, writeEach_apply _ mapCoins.nodupKeys]
  change _ = layerView ((mapCoins.entries.dlookup o).filter _) _
  cases mapCoins.entries.dlookup o with
  | none => rfl
  | some e =>
    cases hd : e.dirty <;> simp [Option.filter_some, hd, layerView, unspentCoin]

theorem dbBatchWrite_unspent (mapCoins : CCoinsMap) (db : CoinsDB) :
    ∀ o c, dbBatchWrite mapCoins db.1 o = some c → c.isSpent = false := by
  intro o c h
  rw [dbBatchWrite_apply] at h
  cases he : (mapCoins.lookup o).filter (·.dirty) with
  | none =>
    rw [he] at h
    exact db.2 o c h
  | some e =>
    rw [he, layerView, unspentCoin] at h
    cases hs : e.coin.isSpent with
    | true => simp [hs] at h
    | false =>
      simp only [hs, Bool.false_eq_true, if_false, Option.some.injEq] at h
      rw [← h]
      exact hs

/-- `CCoinsViewDB`. -/
def CCoinsViewDB : CCoinsView CoinsDB where
  getCoin db o := db.1 o
  batchWrite mapCoins db := ⟨dbBatchWrite mapCoins db.1, dbBatchWrite_unspent mapCoins db⟩

theorem CCoinsViewDB_view (db : CoinsDB) (o : COutPoint) : CCoinsViewDB.view db o = db.1 o := by
  change (db.1 o).bind unspentCoin = db.1 o
  cases h : db.1 o with
  | none => rfl
  | some c => simp [unspentCoin, db.2 o c h]

/-- The coin database is a lawful base. -/
theorem lawful_CCoinsViewDB : CCoinsViewDB.Lawful where
  getCoin_spent db o c h hs := by
    have hc : c.isSpent = false := db.2 o c h
    rw [hc] at hs
    cases hs
  view_batchWrite mapCoins db o := by
    rw [CCoinsViewDB_view, CCoinsViewDB_view]
    exact dbBatchWrite_apply mapCoins db.1 o

/-! ## One cache -/

namespace CacheStack

variable {σ : Type} (base : CCoinsView σ)

/-- `FetchCoin(outpoint)` of the cache `m` over the caches `rest`, with
`below` what `GetCoin` of the view under it returns and leaves there: the
cache and the caches under it after the call, and the entry found. -/
def fetchCoin (m : CCoinsMap) (o : COutPoint) (rest : List CCoinsMap)
    (below : List CCoinsMap × Option Coin) : (CCoinsMap × List CCoinsMap) × Option CCoinsCacheEntry :=
  match m.lookup o with
  | some e => ((m, rest), some e)
  | none =>
    match below with
    | (rest', none) => ((m, rest'), none)
    | (rest', some tmp) =>
      -- the parent only has an empty entry here: ours is FRESH
      let e : CCoinsCacheEntry := ⟨tmp, false, tmp.isSpent⟩
      ((m.insert o e, rest'), some e)

/-- `GetCoin(outpoint, coin)` of the view made of the caches `layers`, top
first, over the base in state `s`: every cache without an entry asks the one
under it and keeps what it gets. -/
def getCoin (s : σ) (o : COutPoint) : List CCoinsMap → List CCoinsMap × Option Coin
  | [] => ([], base.getCoin s o)
  | m :: rest =>
    let ((m', rest'), e?) := fetchCoin m o rest (getCoin s o rest)
    (m' :: rest', e?.bind fun e => unspentCoin e.coin)

/-- `AccessCoin(outpoint)` of the cache `m` over `rest`: the entry's coin, or
`coinEmpty`. -/
def accessCoin (s : σ) (o : COutPoint) (m : CCoinsMap) (rest : List CCoinsMap) :
    List CCoinsMap × Coin :=
  match fetchCoin m o rest (getCoin base s o rest) with
  | ((m', rest'), some e) => (m' :: rest', e.coin)
  | ((m', rest'), none) => (m' :: rest', Coin.empty)

/-- `HaveCoin(outpoint)` of the cache `m` over `rest`. -/
def haveCoin (s : σ) (o : COutPoint) (m : CCoinsMap) (rest : List CCoinsMap) :
    List CCoinsMap × Bool :=
  match fetchCoin m o rest (getCoin base s o rest) with
  | ((m', rest'), some e) => (m' :: rest', !e.coin.isSpent)
  | ((m', rest'), none) => (m' :: rest', false)

/-- `SpendCoin(outpoint)` of the cache `m` over `rest`: a FRESH entry is
erased, any other is cleared and marked dirty; `false` if there is none. -/
def spendCoin (s : σ) (o : COutPoint) (m : CCoinsMap) (rest : List CCoinsMap) :
    List CCoinsMap × Bool :=
  match fetchCoin m o rest (getCoin base s o rest) with
  | ((m', rest'), some e) =>
    if e.fresh then (m'.erase o :: rest', true)
    else (m'.insert o ⟨Coin.empty, true, e.fresh⟩ :: rest', true)
  | ((m', rest'), none) => (m' :: rest', false)

end CacheStack

/-- The entry `cacheCoins.emplace(outpoint)` finds, or makes empty and with
no flag. -/
def emplaceEntry (m : CCoinsMap) (o : COutPoint) : CCoinsCacheEntry :=
  (m.lookup o).getD ⟨Coin.empty, false, false⟩

/-- `AddCoin(outpoint, coin, possible_overwrite)` of the cache `m`.  It does
not fetch: the entry `emplace` finds or makes is all it looks at. -/
def addCoinEntry (m : CCoinsMap) (o : COutPoint) (coin : Coin) (possible_overwrite : Bool) :
    Faulty CCoinsMap := do
  Fault.check !coin.isSpent
  if isUnspendable coin.out.scriptPubKey then return m
  let e := emplaceEntry m o
  let fresh ← if !possible_overwrite then do
      if !e.coin.isSpent then throw (.exception "Adding new coin that replaces non-pruned entry")
      pure !e.dirty
    else pure false
  pure (m.insert o ⟨coin, true, e.fresh || fresh⟩)

/-- `Uncache(hash)`: drop the entry if it has no flag. -/
def uncache (m : CCoinsMap) (o : COutPoint) : CCoinsMap :=
  match m.lookup o with
  | some e => if !e.dirty && !e.fresh then m.erase o else m
  | none => m

/-- One turn of the loop of `CCoinsViewCache::BatchWrite`: what becomes of
the parent's entry `parent` under the child's entry `e`. -/
def batchWriteEntry (parent : Option CCoinsCacheEntry) (e : CCoinsCacheEntry) :
    Faulty (Option CCoinsCacheEntry) :=
  -- a clean entry is skipped
  if !e.dirty then pure parent
  else
    match parent with
    | none =>
      -- nothing to create for a FRESH spent entry; otherwise it moves up, FRESH if it was
      pure (if !(e.fresh && e.coin.isSpent) then some ⟨e.coin, true, e.fresh⟩ else none)
    | some p =>
      if e.fresh && !p.coin.isSpent then
        throw (.exception "FRESH flag misapplied to cache entry for base transaction with spendable outputs")
      else if p.fresh && e.coin.isSpent then pure none
      -- a normal modification keeps the parent's FRESH
      else pure (some ⟨e.coin, true, p.fresh⟩)

/-- `CCoinsViewCache::BatchWrite(mapCoins, hashBlock)` of the cache `parent`. -/
def batchWrite (mapCoins parent : CCoinsMap) : Faulty CCoinsMap :=
  updateEach (fun _ p e => batchWriteEntry p e) mapCoins.entries parent

/-! ## The stack -/

/-- The caches of `coins_cache_simulation_test`, top first, over a base in
state `base`. -/
structure CacheStack (σ : Type) where
  /-- The caches, `stack.back()` first. -/
  layers : List CCoinsMap
  /-- The state of the base view. -/
  base : σ

/-- What the test does to the stack; a cache is named by its place from the top. -/
inductive CacheOp where
  | addCoin (o : COutPoint) (coin : Coin) (possible_overwrite : Bool)
  | spendCoin (o : COutPoint)
  | getCoin (o : COutPoint)
  | accessCoin (o : COutPoint)
  | haveCoin (o : COutPoint)
  | uncache (k : Nat) (o : COutPoint)
  | flush (k : Nat)
  | push
  | pop

/-- What an operation returns that the test compares with its map. -/
inductive CacheOut where
  | done
  | getCoin (coin : Option Coin)
  | accessCoin (coin : Coin)
  | haveCoin (b : Bool)
deriving DecidableEq

namespace CacheStack

variable {σ : Type} (base : CCoinsView σ)

/-- `stack[k]->Flush()`: the cache `k` from the top gives its entries to the
`BatchWrite` of the one under it, or of the base under the last, and is left
empty. -/
def flushAt : Nat → List CCoinsMap → σ → Faulty (List CCoinsMap × σ)
  | _, [], _ => throw .outOfBounds
  | 0, [m], s => pure ([∅], base.batchWrite m s)
  | 0, m :: p :: rest, s => do
    let p' ← batchWrite m p
    pure (∅ :: p' :: rest, s)
  | k + 1, m :: rest, s => do
    let (rest', s') ← flushAt k rest s
    pure (m :: rest', s')

/-- `stack[k]->Uncache(outpoint)`. -/
def uncacheAt : Nat → COutPoint → List CCoinsMap → Faulty (List CCoinsMap)
  | _, _, [] => throw .outOfBounds
  | 0, o, m :: rest => pure (uncache m o :: rest)
  | k + 1, o, m :: rest => do
    let rest' ← uncacheAt k o rest
    pure (m :: rest')

/-- An operation on `stack.back()`, which is not there on an empty stack. -/
def onTop (S : CacheStack σ)
    (f : CCoinsMap → List CCoinsMap → Faulty (List CCoinsMap × CacheOut)) :
    Faulty (CacheStack σ × CacheOut) :=
  match S.layers with
  | [] => throw .outOfBounds
  | m :: rest => do
    let (layers, out) ← f m rest
    pure ({ S with layers }, out)

/-- One operation of the test on the stack. -/
def step (S : CacheStack σ) : CacheOp → Faulty (CacheStack σ × CacheOut)
  | .addCoin o coin possible_overwrite => S.onTop fun m rest => do
    let m' ← addCoinEntry m o coin possible_overwrite
    pure (m' :: rest, .done)
  | .spendCoin o => S.onTop fun m rest => pure ((spendCoin base S.base o m rest).1, .done)
  | .getCoin o => S.onTop fun m rest =>
    let (layers, coin) := getCoin base S.base o (m :: rest)
    pure (layers, .getCoin coin)
  | .accessCoin o => S.onTop fun m rest =>
    let (layers, coin) := accessCoin base S.base o m rest
    pure (layers, .accessCoin coin)
  | .haveCoin o => S.onTop fun m rest =>
    let (layers, b) := haveCoin base S.base o m rest
    pure (layers, .haveCoin b)
  | .uncache k o => do
    let layers ← uncacheAt k o S.layers
    pure ({ S with layers }, .done)
  | .flush k => do
    let (layers, s) ← flushAt base k S.layers S.base
    pure ({ layers, base := s }, .done)
  | .push => pure ({ S with layers := ∅ :: S.layers }, .done)
  | .pop => do
    -- flush the top, then delete it
    let (layers, s) ← flushAt base 0 S.layers S.base
    pure ({ layers := layers.tail, base := s }, .done)

/-- A sequence of operations, and what each returned. -/
def run (S : CacheStack σ) : List CacheOp → Faulty (CacheStack σ × List CacheOut)
  | [] => pure (S, [])
  | op :: ops => do
    let (S', out) ← S.step base op
    let (S'', outs) ← S'.run ops
    pure (S'', out :: outs)

end CacheStack

/-! ## What the flags promise -/

@[simp] theorem unspentCoin_eq_none {coin : Coin} : unspentCoin coin = none ↔ coin.isSpent = true := by
  cases h : coin.isSpent <;> simp [unspentCoin, h]

@[simp] theorem layerView_none (below : Option Coin) : layerView none below = below := rfl

@[simp] theorem layerView_some (e : CCoinsCacheEntry) (below : Option Coin) :
    layerView (some e) below = unspentCoin e.coin := rfl

@[simp] theorem isSpent_empty : Coin.empty.isSpent = true := rfl

theorem isSpent_of_unspentCoin_eq_some {coin c : Coin} (h : unspentCoin coin = some c) :
    c.isSpent = false := by
  unfold unspentCoin at h
  split at h
  · cases h
  · cases h
    simpa using ‹¬coin.isSpent = true›

/-- An unspent coin read through `unspentCoin` again. -/
theorem unspentCoin_bind_unspentCoin (coin : Coin) :
    (unspentCoin coin).bind unspentCoin = unspentCoin coin := by
  cases h : coin.isSpent <;> simp [unspentCoin, h]

/-- What the flags of an entry promise about the view `below` its cache: a
FRESH entry has nothing unspent below it, a clean one shows what is below, and
a spent coin in a cache is a cleared one. -/
structure EntryOk (e : CCoinsCacheEntry) (below : Option Coin) : Prop where
  fresh : e.fresh = true → below = none
  clean : e.dirty = false → unspentCoin e.coin = below
  spent : e.coin.isSpent = true → e.coin = Coin.empty

/-- Every entry of the cache `m` keeps its promises about the view `below`. -/
def LayerOk (m : CCoinsMap) (below : COutPoint → Option Coin) : Prop :=
  ∀ o e, m.lookup o = some e → EntryOk e (below o)

/-- `GetCoin` of a view that shows `v`: through `unspentCoin` it is `v`, and a
spent coin it gives is a cleared one. -/
structure Gets (r : Option Coin) (v : Option Coin) : Prop where
  view : r.bind unspentCoin = v
  spent : ∀ c, r = some c → c.isSpent = true → c = Coin.empty

theorem layerOk_empty (below : COutPoint → Option Coin) : LayerOk ∅ below := by
  intro o e h
  rw [AList.lookup_empty] at h
  cases h

/-- Setting one entry of a cache keeps the promises if the new entry keeps
its own. -/
theorem layerOk_setKey {m : CCoinsMap} {below : COutPoint → Option Coin} {o : COutPoint}
    {r : Option CCoinsCacheEntry} (hm : LayerOk m below) (hr : ∀ e, r = some e → EntryOk e (below o)) :
    LayerOk (setKey m o r) below := by
  intro o' e he
  by_cases ho : o' = o
  · subst ho
    rw [lookup_setKey_self] at he
    exact hr e he
  · rw [lookup_setKey_ne r ho] at he
    exact hm o' e he

theorem layerView_setKey (m : CCoinsMap) (o : COutPoint) (r : Option CCoinsCacheEntry)
    (below : COutPoint → Option Coin) (o' : COutPoint) :
    layerView ((setKey m o r).lookup o') (below o') =
      if o' = o then layerView r (below o) else layerView (m.lookup o') (below o') := by
  by_cases ho : o' = o
  · subst ho
    rw [lookup_setKey_self, if_pos rfl]
  · rw [lookup_setKey_ne r ho, if_neg ho]

/-! ## Stacks that keep their promises -/

namespace CacheStack

variable {σ : Type} (base : CCoinsView σ)

/-- The view the caches `layers` show over the base in state `s`. -/
def stackView (s : σ) : List CCoinsMap → COutPoint → Option Coin
  | [] => base.view s
  | m :: rest => fun o => layerView (m.lookup o) (stackView s rest o)

/-- Every cache keeps its promises about the view of the caches under it. -/
def StackOk (s : σ) : List CCoinsMap → Prop
  | [] => True
  | m :: rest => LayerOk m (stackView base s rest) ∧ StackOk s rest

/-- The caches `layers'` over `s'` are as good as `layers` over `s`: they keep
their promises, show the same view, and are as many. -/
structure Keeps (s : σ) (layers : List CCoinsMap) (s' : σ) (layers' : List CCoinsMap) : Prop where
  ok : StackOk base s' layers'
  view : stackView base s' layers' = stackView base s layers
  length : layers'.length = layers.length

/-- What `FetchCoin` of the cache `m` over `rest` leaves: caches under it as
good as before, a cache that shows the same and keeps its promises, holding
the entry returned, and no entry only where nothing is below. -/
structure Fetched (s : σ) (m : CCoinsMap) (rest : List CCoinsMap) (o : COutPoint) (m' : CCoinsMap)
    (rest' : List CCoinsMap) (e? : Option CCoinsCacheEntry) : Prop where
  below : Keeps base s rest s rest'
  ok : LayerOk m' (stackView base s rest)
  view : ∀ o', layerView (m'.lookup o') (stackView base s rest o') =
    layerView (m.lookup o') (stackView base s rest o')
  lookup : m'.lookup o = e?
  none : e? = none → stackView base s rest o = none

variable {base}

@[simp] theorem stackView_cons (s : σ) (m : CCoinsMap) (rest : List CCoinsMap) (o : COutPoint) :
    stackView base s (m :: rest) o = layerView (m.lookup o) (stackView base s rest o) := rfl

theorem Keeps.rfl' {s : σ} {layers : List CCoinsMap} (h : StackOk base s layers) :
    Keeps base s layers s layers :=
  ⟨h, rfl, rfl⟩

/-- A new top cache over caches as good as before, showing the same and
keeping its promises, keeps the stack as good as before. -/
theorem keeps_cons {s s' : σ} {m m' : CCoinsMap} {rest rest' : List CCoinsMap}
    (hk : Keeps base s rest s' rest') (hm' : LayerOk m' (stackView base s rest))
    (hv : ∀ o, layerView (m'.lookup o) (stackView base s rest o) =
      layerView (m.lookup o) (stackView base s rest o)) :
    Keeps base s (m :: rest) s' (m' :: rest') where
  ok := ⟨by rw [hk.view]; exact hm', hk.ok⟩
  view := by
    funext o
    rw [stackView_cons, stackView_cons, hk.view, hv]
  length := by simp [hk.length]

theorem Fetched.keeps {s : σ} {m m' : CCoinsMap} {rest rest' : List CCoinsMap} {o : COutPoint}
    {e? : Option CCoinsCacheEntry} (h : Fetched base s m rest o m' rest' e?) :
    Keeps base s (m :: rest) s (m' :: rest') :=
  keeps_cons h.below h.ok h.view

/-- The top shows the coin of the fetched entry, unless it is spent. -/
theorem Fetched.stackView_eq {s : σ} {m m' : CCoinsMap} {rest rest' : List CCoinsMap} {o : COutPoint}
    {e? : Option CCoinsCacheEntry} (h : Fetched base s m rest o m' rest' e?) :
    stackView base s (m :: rest) o = e?.bind fun e => unspentCoin e.coin := by
  rw [stackView_cons, ← h.view o, h.lookup]
  cases e? with
  | none => exact h.none rfl
  | some e => rfl

theorem Fetched.entryOk {s : σ} {m m' : CCoinsMap} {rest rest' : List CCoinsMap} {o : COutPoint}
    {e : CCoinsCacheEntry} (h : Fetched base s m rest o m' rest' (some e)) :
    EntryOk e (stackView base s rest o) :=
  h.ok o e h.lookup

/-- `FetchCoin` keeps the promises, given a `GetCoin` below that does. -/
theorem fetchCoin_spec {s : σ} {m : CCoinsMap} {o : COutPoint} {rest rest' : List CCoinsMap}
    {r : Option Coin} (hok : StackOk base s (m :: rest)) (hk : Keeps base s rest s rest')
    (hr : Gets r (stackView base s rest o)) {m' : CCoinsMap} {rest'' : List CCoinsMap}
    {e? : Option CCoinsCacheEntry} (hf : fetchCoin m o rest (rest', r) = ((m', rest''), e?)) :
    Fetched base s m rest o m' rest'' e? := by
  obtain ⟨hm, hrest⟩ := hok
  unfold fetchCoin at hf
  cases hl : m.lookup o with
  | some e =>
    -- the entry is there: nothing changes
    rw [hl] at hf
    cases hf
    exact ⟨Keeps.rfl' hrest, hm, fun _ => rfl, hl, fun h => by cases h⟩
  | none =>
    rw [hl] at hf
    cases r with
    | none =>
      cases hf
      exact ⟨hk, hm, fun _ => rfl, hl, fun _ => hr.view.symm⟩
    | some tmp =>
      cases hf
      -- the fetched entry is clean, and FRESH exactly when the parent's coin is spent
      have hview : unspentCoin tmp = stackView base s rest o := hr.view
      have hentry : EntryOk ⟨tmp, false, tmp.isSpent⟩ (stackView base s rest o) :=
        ⟨fun h => by rw [← hview]; simpa using h, fun _ => hview, hr.spent tmp rfl⟩
      have hok' : LayerOk (setKey m o (some ⟨tmp, false, tmp.isSpent⟩)) (stackView base s rest) :=
        layerOk_setKey hm fun e he => by cases he; exact hentry
      refine ⟨hk, hok', ?_, AList.lookup_insert m, fun h => by cases h⟩
      intro o'
      rw [show m.insert o _ = setKey m o (some _) from rfl, layerView_setKey]
      by_cases ho : o' = o
      · subst ho
        rw [if_pos rfl, hl]
        exact hview
      · rw [if_neg ho]

variable (base)

/-- **`GetCoin` down the stack** keeps the promises of every cache it fills,
and gives what the stack shows. -/
theorem getCoin_spec (hbase : base.Lawful) (s : σ) (o : COutPoint) :
    ∀ {layers : List CCoinsMap}, StackOk base s layers →
      Keeps base s layers s (getCoin base s o layers).1 ∧
        Gets (getCoin base s o layers).2 (stackView base s layers o)
  | [], _ => ⟨Keeps.rfl' trivial, ⟨rfl, hbase.getCoin_spent s o⟩⟩
  | m :: rest, hok => by
    obtain ⟨hk, hr⟩ := getCoin_spec hbase s o hok.2
    rcases hf : fetchCoin m o rest (getCoin base s o rest) with ⟨⟨m', rest''⟩, e?⟩
    have hF := fetchCoin_spec hok hk hr hf
    have hget : getCoin base s o (m :: rest) = (m' :: rest'', e?.bind fun e => unspentCoin e.coin) := by
      rw [getCoin, hf]
    rw [hget, hF.stackView_eq]
    refine ⟨hF.keeps, ⟨?_, fun c hc hs => ?_⟩⟩
    · cases e? with
      | none => rfl
      | some e => exact unspentCoin_bind_unspentCoin e.coin
    · -- a cache's `GetCoin` gives no spent coin at all
      obtain ⟨e, -, he⟩ := Option.bind_eq_some_iff.mp hc
      exact absurd hs (by simp [isSpent_of_unspentCoin_eq_some he])

/-- `FetchCoin` on the top cache: `GetCoin_spec` below it, then
`fetchCoin_spec`. -/
theorem fetchTop (hbase : base.Lawful) {s : σ} {m : CCoinsMap} {o : COutPoint} {rest : List CCoinsMap}
    (hok : StackOk base s (m :: rest)) {m' : CCoinsMap} {rest' : List CCoinsMap}
    {e? : Option CCoinsCacheEntry} (hf : fetchCoin m o rest (getCoin base s o rest) = ((m', rest'), e?)) :
    Fetched base s m rest o m' rest' e? :=
  fetchCoin_spec hok (getCoin_spec base hbase s o hok.2).1 (getCoin_spec base hbase s o hok.2).2 hf

/-! ### Reading the top -/

/-- `GetCoin` on the top cache gives what the stack shows. -/
theorem getCoin_cons_eq (hbase : base.Lawful) {s : σ} {m : CCoinsMap} {rest : List CCoinsMap}
    (o : COutPoint) (hok : StackOk base s (m :: rest)) :
    (getCoin base s o (m :: rest)).2 = stackView base s (m :: rest) o := by
  rcases hf : fetchCoin m o rest (getCoin base s o rest) with ⟨⟨m', rest'⟩, e?⟩
  rw [(fetchTop base hbase hok hf).stackView_eq, getCoin, hf]

/-- `AccessCoin` gives the coin the stack shows, or `coinEmpty`. -/
theorem accessCoin_spec (hbase : base.Lawful) {s : σ} {m : CCoinsMap} {rest : List CCoinsMap}
    (o : COutPoint) (hok : StackOk base s (m :: rest)) :
    (accessCoin base s o m rest).2 = (stackView base s (m :: rest) o).getD Coin.empty ∧
      Keeps base s (m :: rest) s (accessCoin base s o m rest).1 := by
  rcases hf : fetchCoin m o rest (getCoin base s o rest) with ⟨⟨m', rest'⟩, e?⟩
  have hF := fetchTop base hbase hok hf
  simp only [accessCoin, hf, hF.stackView_eq]
  cases e? with
  | none => exact ⟨rfl, hF.keeps⟩
  | some e =>
    refine ⟨?_, hF.keeps⟩
    -- a spent entry holds a cleared coin, which is `coinEmpty`
    cases hs : e.coin.isSpent with
    | true => simp [unspentCoin, hF.entryOk.spent hs]
    | false => simp [unspentCoin, hs]

/-- `HaveCoin` says whether the stack shows a coin. -/
theorem haveCoin_spec (hbase : base.Lawful) {s : σ} {m : CCoinsMap} {rest : List CCoinsMap}
    (o : COutPoint) (hok : StackOk base s (m :: rest)) :
    (haveCoin base s o m rest).2 = (stackView base s (m :: rest) o).isSome ∧
      Keeps base s (m :: rest) s (haveCoin base s o m rest).1 := by
  rcases hf : fetchCoin m o rest (getCoin base s o rest) with ⟨⟨m', rest'⟩, e?⟩
  have hF := fetchTop base hbase hok hf
  simp only [haveCoin, hf, hF.stackView_eq]
  cases e? with
  | none => exact ⟨rfl, hF.keeps⟩
  | some e =>
    refine ⟨?_, hF.keeps⟩
    cases hs : e.coin.isSpent <;> simp [unspentCoin, hs]

/-! ### Changing the top -/

/-- `SpendCoin` on the top cache: the outpoint shows nothing afterwards, and
nothing else changes. -/
theorem spendCoin_spec (hbase : base.Lawful) {s : σ} {m : CCoinsMap} {rest : List CCoinsMap}
    (o : COutPoint) (hok : StackOk base s (m :: rest)) :
    StackOk base s (spendCoin base s o m rest).1 ∧
      (spendCoin base s o m rest).1.length = rest.length + 1 ∧
      ∀ o', stackView base s (spendCoin base s o m rest).1 o' =
        if o' = o then none else stackView base s (m :: rest) o' := by
  rcases hf : fetchCoin m o rest (getCoin base s o rest) with ⟨⟨m', rest'⟩, e?⟩
  have hF := fetchTop base hbase hok hf
  have hview := hF.stackView_eq
  cases e? with
  | none =>
    -- nothing to spend: the outpoint showed nothing already
    simp only [spendCoin, hf]
    refine ⟨hF.keeps.ok, hF.keeps.length, fun o' => ?_⟩
    rw [hF.keeps.view]
    by_cases ho : o' = o
    · rw [if_pos ho, ho, hview]
      rfl
    · rw [if_neg ho]
  | some e =>
    -- the entry is erased if FRESH and cleared otherwise: either way it shows nothing
    have he := hF.entryOk
    have hnone : layerView (if e.fresh then none else some ⟨Coin.empty, true, e.fresh⟩)
        (stackView base s rest o) = none := by
      cases hfr : e.fresh with
      | true => simpa using he.fresh hfr
      | false => simp [unspentCoin]
    have hnew : ∀ e', (if e.fresh then none else some ⟨Coin.empty, true, e.fresh⟩) = some e' →
        EntryOk e' (stackView base s rest o) := by
      intro e' he'
      cases hfr : e.fresh <;> simp only [hfr] at he' <;> cases he'
      exact ⟨fun h => (by cases h), fun h => (by cases h), fun _ => rfl⟩
    have hset : (spendCoin base s o m rest).1 =
        setKey m' o (if e.fresh then none else some ⟨Coin.empty, true, e.fresh⟩) :: rest' := by
      cases hfr : e.fresh <;> simp [spendCoin, hf, hfr, setKey]
    rw [hset]
    refine ⟨⟨?_, hF.below.ok⟩, by simp [hF.below.length], fun o' => ?_⟩
    · rw [hF.below.view]
      exact layerOk_setKey hF.ok hnew
    rw [stackView_cons, hF.below.view, layerView_setKey]
    by_cases ho : o' = o
    · rw [if_pos ho, if_pos ho, hnone]
    · rw [if_neg ho, if_neg ho, stackView_cons, hF.view o']

end CacheStack

/-! ## `AddCoin`, `Uncache` and `BatchWrite` on one cache -/

/-- What a successful `AddCoin` of the flat view did. -/
theorem CCoinsViewCache.addCoin_eq_ok {view view' : CCoinsViewCache} {o : COutPoint} {coin : Coin}
    {possible_overwrite : Bool} (h : view.addCoin o coin possible_overwrite = .ok view') :
    coin.isSpent = false ∧
      (isUnspendable coin.out.scriptPubKey = true ∧ view' = view ∨
        isUnspendable coin.out.scriptPubKey = false ∧
          (possible_overwrite = true ∨ view.coins o = none) ∧
          view' = { view with coins := fun o' => if o' = o then some coin else view.coins o' }) := by
  unfold CCoinsViewCache.addCoin at h
  cases hs : coin.isSpent with
  | true => simp [hs] at h
  | false =>
    refine ⟨rfl, ?_⟩
    cases hu : isUnspendable coin.out.scriptPubKey with
    | true =>
      simp only [hs, hu, Bool.not_false, Fault.check_true, if_true, Fault.ok_bind] at h
      exact .inl ⟨rfl, (Except.ok.inj h).symm⟩
    | false =>
      cases hpo : possible_overwrite <;> cases hc : view.coins o <;>
        simp [hs, hu, hpo, hc, CCoinsViewCache.haveCoin] at h ⊢ <;> exact h.symm

/-- `AddCoin` of a spendable coin over a spent or missing entry, or with leave:
the entry takes the coin, dirty, and FRESH if it was or if it was clean and
there was no leave. -/
theorem addCoinEntry_of_spendable {m : CCoinsMap} {o : COutPoint} {coin : Coin}
    {possible_overwrite : Bool} (hunspent : coin.isSpent = false)
    (hspendable : isUnspendable coin.out.scriptPubKey = false)
    (hspent : possible_overwrite = false → (emplaceEntry m o).coin.isSpent = true) :
    addCoinEntry m o coin possible_overwrite =
      .ok (setKey m o (some ⟨coin, true,
        (emplaceEntry m o).fresh || (!possible_overwrite && !(emplaceEntry m o).dirty)⟩)) := by
  cases possible_overwrite with
  | true => simp [addCoinEntry, hunspent, hspendable, setKey]
  | false => simp [addCoinEntry, hunspent, hspendable, hspent rfl, setKey]

/-- **`AddCoin` on a cache** does to what it shows what the flat view's
`addCoin` does, and keeps the promises: it marks FRESH only where nothing is
below. -/
theorem addCoinEntry_spec {m : CCoinsMap} {below : COutPoint → Option Coin} (hm : LayerOk m below)
    {view view' : CCoinsViewCache} (hview : ∀ o, layerView (m.lookup o) (below o) = view.coins o)
    {o : COutPoint} {coin : Coin} {possible_overwrite : Bool}
    (hadd : view.addCoin o coin possible_overwrite = .ok view') :
    ∃ m', addCoinEntry m o coin possible_overwrite = .ok m' ∧ LayerOk m' below ∧
      ∀ o', layerView (m'.lookup o') (below o') = view'.coins o' := by
  obtain ⟨hunspent, ⟨hu, rfl⟩ | ⟨hu, hleave, rfl⟩⟩ := CCoinsViewCache.addCoin_eq_ok hadd
  · -- an unspendable coin is dropped
    exact ⟨m, by simp [addCoinEntry, hunspent, hu], hm, hview⟩
  · -- without leave the outpoint shows nothing
    have hshown : possible_overwrite = false → layerView (m.lookup o) (below o) = none := by
      intro hpo
      rw [hview]
      rcases hleave with h | h
      · rw [hpo] at h
        cases h
      · exact h
    have hspent : possible_overwrite = false → (emplaceEntry m o).coin.isSpent = true := by
      intro hpo
      have hnone := hshown hpo
      cases hl : m.lookup o with
      | none => simp [emplaceEntry, hl]
      | some e => simpa [emplaceEntry, hl] using hnone
    -- the new entry is FRESH only where nothing is below
    have hfresh : ((emplaceEntry m o).fresh || (!possible_overwrite && !(emplaceEntry m o).dirty)) = true →
        below o = none := by
      intro h
      cases hl : m.lookup o with
      | none =>
        simp only [emplaceEntry, hl, Option.getD_none, Bool.false_or, Bool.not_false, Bool.and_true,
          Bool.not_eq_eq_eq_not, Bool.not_true] at h
        simpa [hl] using hshown h
      | some e =>
        simp only [emplaceEntry, hl, Option.getD_some, Bool.or_eq_true, Bool.and_eq_true,
          Bool.not_eq_eq_eq_not, Bool.not_true] at h
        rcases h with hfe | ⟨hpo, hd⟩
        · exact (hm o e hl).fresh hfe
        · -- a clean entry shows what is below, and it showed nothing
          have hnone := hshown hpo
          rw [hl, layerView_some] at hnone
          rw [← (hm o e hl).clean hd, hnone]
    refine ⟨_, addCoinEntry_of_spendable hunspent hu hspent, layerOk_setKey hm ?_, fun o' => ?_⟩
    · intro e he
      cases he
      exact ⟨hfresh, fun h => (by cases h), fun h => (by simp [hunspent] at h)⟩
    · rw [layerView_setKey]
      by_cases ho : o' = o
      · simp [ho, unspentCoin, hunspent]
      · simp [ho, hview]

/-- `Uncache` drops only an entry that shows what is below. -/
theorem uncache_spec {m : CCoinsMap} {below : COutPoint → Option Coin} (hm : LayerOk m below)
    (o : COutPoint) :
    LayerOk (uncache m o) below ∧
      ∀ o', layerView ((uncache m o).lookup o') (below o') = layerView (m.lookup o') (below o') := by
  unfold uncache
  cases hl : m.lookup o with
  | none => exact ⟨hm, fun _ => rfl⟩
  | some e =>
    dsimp only
    by_cases hflags : (!e.dirty && !e.fresh) = true
    · rw [if_pos hflags, show m.erase o = setKey m o none from rfl]
      refine ⟨layerOk_setKey hm fun e he => (by cases he), fun o' => ?_⟩
      rw [layerView_setKey]
      by_cases ho : o' = o
      · -- the entry had no flag, so it showed what is below
        have hclean : e.dirty = false := by simpa using (Bool.and_eq_true _ _).mp hflags |>.1
        rw [if_pos ho, ho, hl, layerView_none, layerView_some, (hm o e hl).clean hclean]
      · rw [if_neg ho]
    · rw [if_neg hflags]
      exact ⟨hm, fun _ => rfl⟩

/-- One turn of `BatchWrite`: the parent's entry afterwards shows what the
child's showed over it, and keeps the promises about the view below the
parent.  The throw cannot happen: a FRESH child has nothing unspent above the
parent's view. -/
theorem batchWriteEntry_spec {parent : Option CCoinsCacheEntry} {e : CCoinsCacheEntry}
    {below : Option Coin} (he : EntryOk e (layerView parent below))
    (hp : ∀ p, parent = some p → EntryOk p below) :
    ∃ r, batchWriteEntry parent e = .ok r ∧ layerView r below = layerView (some e) (layerView parent below) ∧
      ∀ p', r = some p' → EntryOk p' below := by
  cases hd : e.dirty with
  | false =>
    -- a clean child shows what the parent shows
    refine ⟨parent, by simp [batchWriteEntry, hd], ?_, hp⟩
    rw [layerView_some, he.clean hd]
  | true =>
    cases parent with
    | none =>
      by_cases hdrop : (e.fresh && e.coin.isSpent) = true
      · -- a FRESH spent child over nothing: nothing to write
        obtain ⟨hfr, hs⟩ := (Bool.and_eq_true _ _).mp hdrop
        refine ⟨none, by simp [batchWriteEntry, hd, hdrop], ?_, fun _ h => by cases h⟩
        rw [layerView_none, layerView_some, unspentCoin_eq_none.mpr hs]
        exact he.fresh hfr
      · refine ⟨some ⟨e.coin, true, e.fresh⟩, by simp [batchWriteEntry, hd, hdrop], rfl, ?_⟩
        intro p' hp'
        cases hp'
        exact ⟨he.fresh, fun h => (by cases h), he.spent⟩
    | some p =>
      have hpok := hp p rfl
      -- the child is FRESH only over a spent parent entry
      have hnothrow : ¬ (e.fresh && !p.coin.isSpent) = true := by
        intro h
        obtain ⟨hfr, hps⟩ := (Bool.and_eq_true _ _).mp h
        have hnone := he.fresh hfr
        rw [layerView_some, unspentCoin_eq_none] at hnone
        simp [hnone] at hps
      by_cases herase : (p.fresh && e.coin.isSpent) = true
      · obtain ⟨hpf, hs⟩ := (Bool.and_eq_true _ _).mp herase
        refine ⟨none, by simp [batchWriteEntry, hd, hnothrow, herase], ?_, fun _ h => by cases h⟩
        rw [layerView_none, layerView_some, unspentCoin_eq_none.mpr hs]
        exact hpok.fresh hpf
      · refine ⟨some ⟨e.coin, true, p.fresh⟩, by simp [batchWriteEntry, hd, hnothrow, herase], rfl, ?_⟩
        intro p' hp'
        cases hp'
        exact ⟨hpok.fresh, fun h => (by cases h), he.spent⟩

/-- **`BatchWrite` into a cache**: the parent afterwards shows what the child
showed over it, and keeps its promises about the view below it. -/
theorem batchWrite_spec {mapCoins p : CCoinsMap} {below : COutPoint → Option Coin}
    (hc : LayerOk mapCoins fun o => layerView (p.lookup o) (below o)) (hp : LayerOk p below) :
    ∃ p', batchWrite mapCoins p = .ok p' ∧ LayerOk p' below ∧
      ∀ o, layerView (p'.lookup o) (below o) = layerView (mapCoins.lookup o) (layerView (p.lookup o) (below o)) := by
  obtain ⟨p', hrun, hall⟩ := updateEach_spec (fun _ p e => batchWriteEntry p e)
    (fun o r => layerView r (below o) = layerView (mapCoins.lookup o) (layerView (p.lookup o) (below o)) ∧
      ∀ e, r = some e → EntryOk e (below o))
    mapCoins.nodupKeys
    (fun o c hlook => by
      obtain ⟨r, hr, hview, hok⟩ := batchWriteEntry_spec (hc o c hlook) (hp o)
      exact ⟨r, hr, by rw [hview]; exact congrArg (layerView · _) hlook.symm, hok⟩)
    (fun o hlook => ⟨by rw [show mapCoins.lookup o = none from hlook]; rfl, hp o⟩)
  exact ⟨p', hrun, fun o e he => (hall o).2 e he, fun o => (hall o).1⟩

/-- `BatchWrite` into a lawful base: the base afterwards shows what the cache
showed over it. -/
theorem view_batchWrite_of_layerOk {σ : Type} {base : CCoinsView σ} (hbase : base.Lawful)
    {m : CCoinsMap} {s : σ} (hm : LayerOk m (base.view s)) (o : COutPoint) :
    base.view (base.batchWrite m s) o = layerView (m.lookup o) (base.view s o) := by
  rw [hbase.view_batchWrite]
  cases hl : m.lookup o with
  | none => rfl
  | some e =>
    cases hd : e.dirty with
    | true => simp [Option.filter_some, hd]
    | false =>
      -- a clean entry is not written, and it showed what the base shows
      simp only [Option.filter_some, hd, Bool.false_eq_true, if_false, layerView_none, layerView_some]
      exact ((hm o e hl).clean hd).symm

namespace CacheStack

variable {σ : Type} {base : CCoinsView σ}

/-- **`Flush` of the cache `k`** leaves the caches above it as they were and
the cache `k` empty, and the stack shows what it showed. -/
theorem flushAt_spec (hbase : base.Lawful) :
    ∀ (k : Nat) {layers : List CCoinsMap} {s : σ}, StackOk base s layers → k < layers.length →
      ∃ layers' s', flushAt base k layers s = .ok (layers', s') ∧ Keeps base s layers s' layers' ∧
        layers'.take k = layers.take k ∧ layers'[k]? = some ∅
  | _, [], _, _, hk => absurd hk (Nat.not_lt_zero _)
  | 0, [m], s, ⟨hm, _⟩, _ => by
    -- the last cache writes into the base
    refine ⟨[∅], base.batchWrite m s, rfl, ⟨⟨layerOk_empty _, trivial⟩, ?_, rfl⟩, rfl, rfl⟩
    funext o
    exact view_batchWrite_of_layerOk hbase hm o
  | 0, m :: p :: rest, s, ⟨hm, hp, hrest⟩, _ => by
    obtain ⟨p', hw, hp', hv⟩ := batchWrite_spec hm hp
    refine ⟨∅ :: p' :: rest, s, by simp [flushAt, hw], ⟨⟨layerOk_empty _, hp', hrest⟩, ?_, rfl⟩, rfl, rfl⟩
    funext o
    exact hv o
  | k + 1, m :: rest, s, ⟨hm, hrest⟩, hk => by
    obtain ⟨rest', s', hf, hkeep, htake, hget⟩ := flushAt_spec hbase k hrest (by simpa using hk)
    refine ⟨m :: rest', s', by simp [flushAt, hf], keeps_cons hkeep hm fun _ => rfl, ?_, ?_⟩
    · simp [htake]
    · simpa using hget

/-- `Uncache` on any cache keeps what the stack shows. -/
theorem uncacheAt_spec (o : COutPoint) :
    ∀ (k : Nat) {layers : List CCoinsMap} {s : σ}, StackOk base s layers → k < layers.length →
      ∃ layers', uncacheAt k o layers = .ok layers' ∧ Keeps base s layers s layers'
  | _, [], _, _, hk => absurd hk (Nat.not_lt_zero _)
  | 0, m :: rest, _, ⟨hm, hrest⟩, _ =>
    ⟨uncache m o :: rest, rfl, keeps_cons (Keeps.rfl' hrest) (uncache_spec hm o).1 (uncache_spec hm o).2⟩
  | k + 1, m :: rest, _, ⟨hm, hrest⟩, hk => by
    obtain ⟨rest', hu, hkeep⟩ := uncacheAt_spec o k hrest (by simpa using hk)
    exact ⟨m :: rest', by simp [uncacheAt, hu], keeps_cons hkeep hm fun _ => rfl⟩

end CacheStack

/-! ## The map the stack stands for -/

/-- The single map of `coins_cache_simulation_test`'s `result`, as the flat
view of `ConnectBlock`, and the number of caches. -/
structure CoinsModel where
  /-- The unspent coins. -/
  view : CCoinsViewCache
  /-- The number of caches on the stack. -/
  depth : Nat

namespace CoinsModel

/-- An operation on the map: `none` where the test would not make it (no cache
on top, no cache `k`, or an `AddCoin` the flat view refuses). -/
def step (M : CoinsModel) : CacheOp → Option (CoinsModel × CacheOut)
  | .addCoin o coin possible_overwrite =>
    if 0 < M.depth then
      match M.view.addCoin o coin possible_overwrite with
      | .ok view => some ({ M with view }, .done)
      | .error _ => none
    else none
  | .spendCoin o => if 0 < M.depth then some ({ M with view := (M.view.spendCoin o).getD M.view }, .done) else none
  | .getCoin o => if 0 < M.depth then some (M, .getCoin (M.view.coins o)) else none
  | .accessCoin o => if 0 < M.depth then some (M, .accessCoin (M.view.accessCoin o)) else none
  | .haveCoin o => if 0 < M.depth then some (M, .haveCoin (M.view.haveCoin o)) else none
  | .uncache k _ => if k < M.depth then some (M, .done) else none
  | .flush k => if k < M.depth then some (M, .done) else none
  | .push => some ({ M with depth := M.depth + 1 }, .done)
  | .pop => if 0 < M.depth then some ({ M with depth := M.depth - 1 }, .done) else none

/-- A sequence of operations on the map. -/
def run (M : CoinsModel) : List CacheOp → Option (CoinsModel × List CacheOut)
  | [] => some (M, [])
  | op :: ops => do
    let (M', out) ← M.step op
    let (M'', outs) ← M'.run ops
    pure (M'', out :: outs)

end CoinsModel

/-- `Flush` of every cache, from the top down. -/
def flushOps (n : Nat) : List CacheOp := (List.range n).map CacheOp.flush

/-! ## The stack refines the map -/

/-- What `SpendCoin` of the flat view leaves, whether or not it held the coin. -/
theorem CCoinsViewCache.spendCoin_getD_coins (view : CCoinsViewCache) (o o' : COutPoint) :
    ((view.spendCoin o).getD view).coins o' = if o' = o then none else view.coins o' := by
  unfold CCoinsViewCache.spendCoin
  by_cases hh : view.haveCoin o = true
  · simp [hh]
  · -- the view held nothing there
    have hnone : view.coins o = none := by simpa [CCoinsViewCache.haveCoin] using hh
    by_cases ho : o' = o
    · simp [hh, ho, hnone]
    · simp [hh, ho]

namespace CacheStack

variable {σ : Type} (base : CCoinsView σ)

/-- The stack stands for the model: every cache keeps its promises, there are
as many caches as the model counts, and the top shows the model's coins. -/
structure Refines (S : CacheStack σ) (M : CoinsModel) : Prop where
  ok : StackOk base S.base S.layers
  depth : S.layers.length = M.depth
  view : ∀ o, stackView base S.base S.layers o = M.view.coins o

variable {base}

theorem Refines.of_keeps {S : CacheStack σ} {M : CoinsModel} (h : Refines base S M) {s' : σ}
    {layers' : List CCoinsMap} (hk : Keeps base S.base S.layers s' layers') :
    Refines base ⟨layers', s'⟩ M :=
  ⟨hk.ok, hk.length.trans h.depth, fun o => (congrFun hk.view o).trans (h.view o)⟩

/-- A model with a cache has a stack with a top. -/
theorem Refines.exists_cons {layers : List CCoinsMap} {s : σ} {M : CoinsModel}
    (h : Refines base ⟨layers, s⟩ M) (hd : 0 < M.depth) : ∃ m rest, layers = m :: rest := by
  cases layers with
  | nil =>
    have h0 : 0 = M.depth := h.depth
    omega
  | cons m rest => exact ⟨m, rest, rfl⟩

/-- An operation on the top layer is allowed on a nonempty stack, which then
has a top. -/
theorem Refines.top_of_step {layers : List CCoinsMap} {s : σ} {M : CoinsModel}
    (h : Refines base ⟨layers, s⟩ M) {r r' : CoinsModel × CacheOut}
    (hM : (if 0 < M.depth then some r else none) = some r') :
    r = r' ∧ ∃ m rest, layers = m :: rest := by
  simp only [Option.ite_none_right_eq_some, Option.some.injEq] at hM
  exact ⟨hM.2, h.exists_cons hM.1⟩

/-! ### One operation -/

section Step

variable {m : CCoinsMap} {rest : List CCoinsMap} {s : σ} {M : CoinsModel}

theorem step_addCoin (h : Refines base ⟨m :: rest, s⟩ M) {o : COutPoint} {coin : Coin}
    {possible_overwrite : Bool} {view' : CCoinsViewCache}
    (hadd : M.view.addCoin o coin possible_overwrite = .ok view') :
    ∃ S', step base ⟨m :: rest, s⟩ (.addCoin o coin possible_overwrite) = .ok (S', .done) ∧
      Refines base S' { M with view := view' } := by
  obtain ⟨hm, hrest⟩ := h.ok
  obtain ⟨m', hadd', hm', hv'⟩ := addCoinEntry_spec hm h.view hadd
  refine ⟨⟨m' :: rest, s⟩, ?_, ⟨⟨hm', hrest⟩, h.depth, hv'⟩⟩
  simp [step, onTop, hadd']

theorem step_spendCoin (hbase : base.Lawful) (h : Refines base ⟨m :: rest, s⟩ M) (o : COutPoint) :
    ∃ S', step base ⟨m :: rest, s⟩ (.spendCoin o) = .ok (S', .done) ∧
      Refines base S' { M with view := (M.view.spendCoin o).getD M.view } := by
  obtain ⟨hok, hlen, hv⟩ := spendCoin_spec base hbase o h.ok
  refine ⟨⟨(spendCoin base s o m rest).1, s⟩, rfl, ⟨hok, hlen.trans h.depth, fun o' => ?_⟩⟩
  rw [hv o', CCoinsViewCache.spendCoin_getD_coins, h.view o']

theorem step_getCoin (hbase : base.Lawful) (h : Refines base ⟨m :: rest, s⟩ M) (o : COutPoint) :
    ∃ S', step base ⟨m :: rest, s⟩ (.getCoin o) = .ok (S', .getCoin (M.view.coins o)) ∧
      Refines base S' M := by
  refine ⟨⟨(getCoin base s o (m :: rest)).1, s⟩, ?_, h.of_keeps (getCoin_spec base hbase s o h.ok).1⟩
  rw [← h.view o, ← getCoin_cons_eq base hbase o h.ok]
  rfl

theorem step_accessCoin (hbase : base.Lawful) (h : Refines base ⟨m :: rest, s⟩ M) (o : COutPoint) :
    ∃ S', step base ⟨m :: rest, s⟩ (.accessCoin o) = .ok (S', .accessCoin (M.view.accessCoin o)) ∧
      Refines base S' M := by
  obtain ⟨hcoin, hk⟩ := accessCoin_spec base hbase o h.ok
  refine ⟨⟨(accessCoin base s o m rest).1, s⟩, ?_, h.of_keeps hk⟩
  rw [CCoinsViewCache.accessCoin, ← h.view o, ← hcoin]
  rfl

theorem step_haveCoin (hbase : base.Lawful) (h : Refines base ⟨m :: rest, s⟩ M) (o : COutPoint) :
    ∃ S', step base ⟨m :: rest, s⟩ (.haveCoin o) = .ok (S', .haveCoin (M.view.haveCoin o)) ∧
      Refines base S' M := by
  obtain ⟨hhave, hk⟩ := haveCoin_spec base hbase o h.ok
  refine ⟨⟨(haveCoin base s o m rest).1, s⟩, ?_, h.of_keeps hk⟩
  rw [CCoinsViewCache.haveCoin, ← h.view o, ← hhave]
  rfl

end Step

theorem step_uncache {layers : List CCoinsMap} {s : σ} {M : CoinsModel} (h : Refines base ⟨layers, s⟩ M)
    {k : Nat} (hk : k < M.depth) (o : COutPoint) :
    ∃ S', step base ⟨layers, s⟩ (.uncache k o) = .ok (S', .done) ∧ Refines base S' M := by
  obtain ⟨layers', hu, hkeep⟩ := uncacheAt_spec o k h.ok (h.depth ▸ hk)
  exact ⟨⟨layers', s⟩, by simp [step, hu], h.of_keeps hkeep⟩

theorem step_flush (hbase : base.Lawful) {layers : List CCoinsMap} {s : σ} {M : CoinsModel}
    (h : Refines base ⟨layers, s⟩ M) {k : Nat} (hk : k < M.depth) :
    ∃ S', step base ⟨layers, s⟩ (.flush k) = .ok (S', .done) ∧ Refines base S' M ∧
      S'.layers.take k = layers.take k ∧ S'.layers[k]? = some ∅ := by
  obtain ⟨layers', s', hf, hkeep, htake, hget⟩ := flushAt_spec hbase k h.ok (h.depth ▸ hk)
  exact ⟨⟨layers', s'⟩, by simp [step, hf], h.of_keeps hkeep, htake, hget⟩

theorem step_push {layers : List CCoinsMap} {s : σ} {M : CoinsModel} (h : Refines base ⟨layers, s⟩ M) :
    ∃ S', step base ⟨layers, s⟩ .push = .ok (S', .done) ∧
      Refines base S' { M with depth := M.depth + 1 } :=
  ⟨⟨∅ :: layers, s⟩, rfl, ⟨⟨layerOk_empty _, h.ok⟩, by simp [h.depth], h.view⟩⟩

theorem step_pop (hbase : base.Lawful) {layers : List CCoinsMap} {s : σ} {M : CoinsModel}
    (h : Refines base ⟨layers, s⟩ M) (hd : 0 < M.depth) :
    ∃ S', step base ⟨layers, s⟩ .pop = .ok (S', .done) ∧
      Refines base S' { M with depth := M.depth - 1 } := by
  obtain ⟨layers', s', hf, hkeep, -, hget⟩ := flushAt_spec hbase 0 h.ok (h.depth ▸ hd)
  -- the flushed top is empty, so deleting it shows the same
  obtain ⟨rest', rfl⟩ : ∃ rest', layers' = ∅ :: rest' := by
    cases layers' with
    | nil => cases hget
    | cons m rest' =>
      cases hget
      exact ⟨rest', rfl⟩
  refine ⟨⟨rest', s'⟩, by simp [step, hf], ⟨hkeep.ok.2, ?_, fun o => ?_⟩⟩
  · have hlen := hkeep.length
    have hdepth : layers.length = M.depth := h.depth
    simp only [List.length_cons] at hlen
    simp only
    omega
  · rw [← h.view o, ← hkeep.view]
    rfl

/-- **One operation** of an allowed sequence returns what the model returns,
and the stack goes on standing for the model. -/
theorem step_refines (hbase : base.Lawful) {S : CacheStack σ} {M : CoinsModel} (h : Refines base S M)
    {op : CacheOp} {M' : CoinsModel} {out : CacheOut} (hM : M.step op = some (M', out)) :
    ∃ S', S.step base op = .ok (S', out) ∧ Refines base S' M' := by
  obtain ⟨layers, s⟩ := S
  cases op with
  | addCoin o coin possible_overwrite =>
    simp only [CoinsModel.step] at hM
    split at hM
    · next hd =>
      split at hM
      · next view' hadd =>
        cases hM
        obtain ⟨m, rest, rfl⟩ := h.exists_cons hd
        exact step_addCoin h hadd
      · cases hM
    · cases hM
  | spendCoin o =>
    obtain ⟨hr, m, rest, rfl⟩ := h.top_of_step hM
    cases hr
    exact step_spendCoin hbase h o
  | getCoin o =>
    obtain ⟨hr, m, rest, rfl⟩ := h.top_of_step hM
    cases hr
    exact step_getCoin hbase h o
  | accessCoin o =>
    obtain ⟨hr, m, rest, rfl⟩ := h.top_of_step hM
    cases hr
    exact step_accessCoin hbase h o
  | haveCoin o =>
    obtain ⟨hr, m, rest, rfl⟩ := h.top_of_step hM
    cases hr
    exact step_haveCoin hbase h o
  | uncache k o =>
    simp only [CoinsModel.step, Option.ite_none_right_eq_some, Option.some.injEq, Prod.mk.injEq] at hM
    obtain ⟨hk, rfl, rfl⟩ := hM
    exact step_uncache h hk o
  | flush k =>
    simp only [CoinsModel.step, Option.ite_none_right_eq_some, Option.some.injEq, Prod.mk.injEq] at hM
    obtain ⟨hk, rfl, rfl⟩ := hM
    obtain ⟨S', hs, hr, -⟩ := step_flush hbase h hk
    exact ⟨S', hs, hr⟩
  | push =>
    simp only [CoinsModel.step, Option.some.injEq, Prod.mk.injEq] at hM
    obtain ⟨rfl, rfl⟩ := hM
    exact step_push h
  | pop =>
    simp only [CoinsModel.step, Option.ite_none_right_eq_some, Option.some.injEq, Prod.mk.injEq] at hM
    obtain ⟨hd, rfl, rfl⟩ := hM
    exact step_pop hbase h hd

/-- **Every allowed sequence** of operations returns what the model returns,
and leaves a stack that stands for the model. -/
theorem run_refines (hbase : base.Lawful) :
    ∀ {S : CacheStack σ} {M : CoinsModel} {ops : List CacheOp} {M' : CoinsModel} {outs : List CacheOut},
      Refines base S M → M.run ops = some (M', outs) → ∃ S', S.run base ops = .ok (S', outs) ∧ Refines base S' M'
  | S, M, [], M', outs, h, hrun => by
    simp only [CoinsModel.run, Option.some.injEq, Prod.mk.injEq] at hrun
    obtain ⟨rfl, rfl⟩ := hrun
    exact ⟨S, rfl, h⟩
  | S, M, op :: ops, M', outs, h, hrun => by
    -- the model's first step, then the rest of its run
    obtain ⟨⟨M₁, out⟩, h₁, hrest⟩ := Option.bind_eq_some_iff.mp hrun
    obtain ⟨⟨M₂, outs'⟩, h₂, hend⟩ := Option.bind_eq_some_iff.mp hrest
    cases hend
    obtain ⟨S₁, hs₁, hr₁⟩ := step_refines hbase h h₁
    obtain ⟨S₂, hs₂, hr₂⟩ := run_refines hbase hr₁ h₂
    exact ⟨S₂, by simp [run, hs₁, hs₂], hr₂⟩

/-- A stack of empty caches shows what the base shows. -/
theorem stackView_of_empty {s : σ} :
    ∀ {layers : List CCoinsMap}, (∀ i < layers.length, layers[i]? = some ∅) →
      stackView base s layers = base.view s
  | [], _ => rfl
  | m :: rest, h => by
    have hm : m = ∅ := by simpa using h 0 (by simp)
    have hrest : stackView base s rest = base.view s :=
      stackView_of_empty fun i hi => by simpa using h (i + 1) (by simp [hi])
    funext o
    rw [stackView_cons, hm, hrest, AList.lookup_empty, layerView_none]

/-- Flushing the caches `j`, `j + 1`, ... in turn, with the ones above `j`
already empty, empties them all. -/
theorem run_flush_range' (hbase : base.Lawful) {M : CoinsModel} :
    ∀ (k j : Nat) {S : CacheStack σ}, Refines base S M → j + k = M.depth →
      (∀ i < j, S.layers[i]? = some ∅) →
      ∃ S', S.run base ((List.range' j k).map CacheOp.flush) = .ok (S', List.replicate k .done) ∧
        Refines base S' M ∧ ∀ i < M.depth, S'.layers[i]? = some ∅
  | 0, j, S, h, hjk, hempty => ⟨S, rfl, h, fun i hi => hempty i (by omega)⟩
  | k + 1, j, ⟨layers, s⟩, h, hjk, hempty => by
    obtain ⟨S₁, hs₁, hr₁, htake, hget⟩ := step_flush hbase h (by omega : j < M.depth)
    -- the caches above `j` are untouched, and `j` is now empty too
    have hempty₁ : ∀ i < j + 1, S₁.layers[i]? = some ∅ := by
      intro i hi
      by_cases hij : i = j
      · rw [hij, hget]
      · have hlt : i < j := by omega
        rw [← List.getElem?_take_of_lt hlt, htake, List.getElem?_take_of_lt hlt]
        exact hempty i hlt
    obtain ⟨S₂, hs₂, hr₂, hall⟩ := run_flush_range' hbase k (j + 1) hr₁ (by omega) hempty₁
    refine ⟨S₂, ?_, hr₂, hall⟩
    simp [List.range'_succ, run, hs₁, hs₂, List.replicate_succ]

/-- **Flushing every cache** leaves the model's coins in the base. -/
theorem run_flushOps (hbase : base.Lawful) {S : CacheStack σ} {M : CoinsModel} (h : Refines base S M) :
    ∃ S', S.run base (flushOps M.depth) = .ok (S', List.replicate M.depth .done) ∧
      ∀ o, base.view S'.base o = M.view.coins o := by
  obtain ⟨S', hrun, hr, hall⟩ :=
    run_flush_range' hbase M.depth 0 h (Nat.zero_add _) fun i hi => absurd hi (Nat.not_lt_zero i)
  refine ⟨S', by rw [flushOps, List.range_eq_range']; exact hrun, fun o => ?_⟩
  rw [← hr.view o, stackView_of_empty (fun i hi => hall i (hr.depth ▸ hi))]

end CacheStack

open CacheStack in
/-- A stack of caches over a lawful base stands for one map from outpoints to
unspent coins: every allowed sequence of `AddCoin`, `SpendCoin`, `GetCoin`,
`AccessCoin`, `HaveCoin`, `Uncache` and `Flush` of any cache, pushes and pops
returns what the flat view returns, the top shows the flat view's coins
afterwards, and flushing every cache leaves those coins in the base. -/
theorem cacheStack_refines_coinsMap {σ : Type} {base : CCoinsView σ} (hbase : base.Lawful)
    {S : CacheStack σ} {M : CoinsModel} (h : Refines base S M) {ops : List CacheOp} {M' : CoinsModel}
    {outs : List CacheOut} (hrun : M.run ops = some (M', outs)) :
    ∃ S', S.run base ops = .ok (S', outs) ∧
      (∀ o, stackView base S'.base S'.layers o = M'.view.coins o) ∧
      ∃ S'', S'.run base (flushOps M'.depth) = .ok (S'', List.replicate M'.depth .done) ∧
        ∀ o, base.view S''.base o = M'.view.coins o := by
  obtain ⟨S', hs, hr⟩ := run_refines hbase h hrun
  exact ⟨S', hs, hr.view, run_flushOps hbase hr⟩

/-- The empty coin database. -/
def CoinsDB.empty : CoinsDB := ⟨fun _ => none, fun _ _ h => by cases h⟩

/-- One cache over the empty database stands for the empty map. -/
theorem refines_empty :
    CacheStack.Refines CCoinsViewDB ⟨[∅], CoinsDB.empty⟩ ⟨⟨fun _ => none, uint256.zero⟩, 1⟩ :=
  ⟨⟨layerOk_empty _, trivial⟩, rfl, fun _ => rfl⟩

/-- A coin added without leave, spent in a second cache and popped. -/
theorem cacheStack_refines_coinsMap_spend :
    ∃ M' outs, CoinsModel.run ⟨⟨fun _ => none, uint256.zero⟩, 1⟩
        [.addCoin ⟨uint256.zero, 0⟩ ⟨⟨50 * COIN, [OP_1]⟩, 1, false, false, 0⟩ false, .push,
          .spendCoin ⟨uint256.zero, 0⟩, .getCoin ⟨uint256.zero, 0⟩, .pop] = some (M', outs) ∧
      ∃ S', CacheStack.run CCoinsViewDB ⟨[∅], CoinsDB.empty⟩
          [.addCoin ⟨uint256.zero, 0⟩ ⟨⟨50 * COIN, [OP_1]⟩, 1, false, false, 0⟩ false, .push,
            .spendCoin ⟨uint256.zero, 0⟩, .getCoin ⟨uint256.zero, 0⟩, .pop] = .ok (S', outs) ∧
        (∀ o, CacheStack.stackView CCoinsViewDB S'.base S'.layers o = M'.view.coins o) ∧
        ∃ S'', S'.run CCoinsViewDB (flushOps M'.depth) = .ok (S'', List.replicate M'.depth .done) ∧
          ∀ o, CCoinsViewDB.view S''.base o = M'.view.coins o :=
  ⟨_, _, rfl, cacheStack_refines_coinsMap lawful_CCoinsViewDB refines_empty rfl⟩

end Veribase
