import Veribase.Coins.CoinsViewCache

/-!
# The memory a cache counts

Each `CCoinsViewCache` keeps `cachedCoinsUsage`, the heap memory of the coins
it holds, and adjusts it by hand wherever it changes an entry (`coins.cpp`):
`FetchCoin` adds the coin it brings in, `AddCoin` takes off the coin it
replaces and adds the new one, `SpendCoin` takes off the coin it spends,
`Uncache` the coin it drops, `BatchWrite` follows each entry it writes into
the parent, and `Flush` sets it to zero.  `DynamicMemoryUsage()` trusts it.

The counters sit beside the stack of caches of `Coins.CoinsViewCache`:
`CountedStack.step` runs the stack's own step and sets every counter as those
lines do, from the state before the step.  Whatever the stack runs, each
counter stays the sum of `Coin::DynamicMemoryUsage()` over its cache
(`countedStack_run_exact`); with the promises the flags keep, this is what
every allowed run of the caches guarantees (`countedStack_run_invariants`).

A counter is a natural number: under the invariant no subtraction goes below
zero, so `size_t` arithmetic gives the same values.
-/

namespace Veribase

open KeyedUpdate

/-! ## What a coin uses -/

/-- `memusage::MallocUsage(alloc)` on a 64-bit platform. -/
def mallocUsage (alloc : Nat) : Nat := if alloc = 0 then 0 else ((alloc + 31) >>> 4) <<< 4

/-- `Coin::DynamicMemoryUsage()`, the heap block of `out.scriptPubKey`: a
`prevector<28>` has one only above 28 bytes.  A cache receives every coin as
a copy or a deserialization, which allocates the exact size, so the capacity
is the size. -/
def Coin.dynamicMemoryUsage (c : Coin) : Nat :=
  mallocUsage (if c.out.scriptPubKey.length ≤ 28 then 0 else c.out.scriptPubKey.length)

/-- A cleared coin holds no heap block: `CScript::clear` shrinks it. -/
@[simp] theorem Coin.dynamicMemoryUsage_empty : Coin.empty.dynamicMemoryUsage = 0 := rfl

/-- The usage of an entry, or of none. -/
def entryUsage : Option CCoinsCacheEntry → Nat
  | some e => e.coin.dynamicMemoryUsage
  | none => 0

@[simp] theorem entryUsage_some (e : CCoinsCacheEntry) : entryUsage (some e) = e.coin.dynamicMemoryUsage :=
  rfl

@[simp] theorem entryUsage_none : entryUsage none = 0 := rfl

/-- The sum of `DynamicMemoryUsage()` over the coins of a cache. -/
def mapUsage (m : CCoinsMap) : Nat := (m.entries.map fun x => x.2.coin.dynamicMemoryUsage).sum

@[simp] theorem mapUsage_empty : mapUsage ∅ = 0 := rfl

/-- Taking a key out of a list of entries takes the usage of its entry out of
the sum. -/
theorem sum_usage_kerase (o : COutPoint) : ∀ l : List (Σ _ : COutPoint, CCoinsCacheEntry),
    (l.map fun x => x.2.coin.dynamicMemoryUsage).sum =
      ((l.kerase o).map fun x => x.2.coin.dynamicMemoryUsage).sum + entryUsage (l.dlookup o)
  | [] => rfl
  | ⟨o', e⟩ :: l => by
    by_cases ho : o = o'
    · subst ho
      simp [List.kerase_cons_eq, Nat.add_comm]
    · rw [List.kerase_cons_ne ho, List.dlookup_cons_ne _ _ ho, List.map_cons, List.sum_cons,
        List.map_cons, List.sum_cons, sum_usage_kerase o l]
      omega

/-- **Setting one entry** changes the sum by the usage of the new entry less
that of the old. -/
theorem mapUsage_setKey (m : CCoinsMap) (o : COutPoint) (r : Option CCoinsCacheEntry) :
    mapUsage (setKey m o r) + entryUsage (m.lookup o) = mapUsage m + entryUsage r := by
  have hsum := sum_usage_kerase o m.entries
  have hm : mapUsage m = (m.entries.map fun x => x.2.coin.dynamicMemoryUsage).sum := rfl
  cases r with
  | none =>
    change ((m.entries.kerase o).map _).sum + entryUsage (m.entries.dlookup o) = _ + 0
    omega
  | some e =>
    change (((⟨o, e⟩ :: m.entries.kerase o).map _).sum) + entryUsage (m.entries.dlookup o) = _
    rw [List.map_cons, List.sum_cons, entryUsage_some]
    dsimp only
    omega

/-- An entry's usage is part of its cache's. -/
theorem entryUsage_le_mapUsage (m : CCoinsMap) (o : COutPoint) : entryUsage (m.lookup o) ≤ mapUsage m := by
  have h := mapUsage_setKey m o none
  rw [entryUsage_none] at h
  omega

/-! ## The counters of one cache -/

/-- `cachedCoinsUsage` after `AddCoin(outpoint, coin, possible_overwrite)` of
the cache `m`: the coin of an entry already there off, the new coin on.  An
unspendable coin changes nothing. -/
def addCoinUsage (m : CCoinsMap) (o : COutPoint) (coin : Coin) (c : Nat) : Nat :=
  if isUnspendable coin.out.scriptPubKey then c
  else c - entryUsage (m.lookup o) + coin.dynamicMemoryUsage

/-- `cachedCoinsUsage` after `SpendCoin(outpoint)`, with `e?` the entry
`FetchCoin` found: its coin off, erased or cleared. -/
def spendCoinUsage (e? : Option CCoinsCacheEntry) (c : Nat) : Nat := c - entryUsage e?

/-- `cachedCoinsUsage` after `Uncache(hash)`: the coin of an entry with no
flag off. -/
def uncacheUsage (m : CCoinsMap) (o : COutPoint) (c : Nat) : Nat :=
  match m.lookup o with
  | some e => if !e.dirty && !e.fresh then c - e.coin.dynamicMemoryUsage else c
  | none => c

/-- The parent's `cachedCoinsUsage` after one turn of `BatchWrite`, with
`parent` its entry and `e` the child's: a new entry's coin on, an erased
entry's off, a modified entry's old coin off and new coin on. -/
def batchWriteEntryUsage (parent : Option CCoinsCacheEntry) (e : CCoinsCacheEntry) (c : Nat) : Nat :=
  if !e.dirty then c
  else
    match parent with
    | none => if !(e.fresh && e.coin.isSpent) then c + e.coin.dynamicMemoryUsage else c
    | some p =>
      -- the throw leaves the counter as it is
      if e.fresh && !p.coin.isSpent then c
      else if p.fresh && e.coin.isSpent then c - p.coin.dynamicMemoryUsage
      else c - p.coin.dynamicMemoryUsage + e.coin.dynamicMemoryUsage

/-- The parent's `cachedCoinsUsage` after `BatchWrite(mapCoins)`.  The keys of
`mapCoins` are distinct, so each turn finds the parent's entry as it was
before the loop. -/
def batchWriteUsage (mapCoins parent : CCoinsMap) (c : Nat) : Nat :=
  mapCoins.entries.foldl (fun c x => batchWriteEntryUsage (parent.lookup x.1) x.2 c) c

namespace CacheStack

variable {σ : Type} (base : CCoinsView σ)

/-- The counters of the caches `layers`, top first, after `GetCoin(outpoint)`
of the view they make: a cache without the entry asks the view below
(`FetchCoin`) and adds the coin it keeps. -/
def getCoinUsage (s : σ) (o : COutPoint) : List CCoinsMap → List Nat → List Nat
  | m :: rest, c :: cs =>
    match m.lookup o with
    | some _ => c :: cs
    | none =>
      match (getCoin base s o rest).2 with
      | some tmp => (c + tmp.dynamicMemoryUsage) :: getCoinUsage s o rest cs
      | none => c :: getCoinUsage s o rest cs
  | _, cs => cs

/-- The counters after `stack[k]->Flush()`: the cache `k` counts zero, and
the cache under it what its `BatchWrite` counted.  The base counts nothing. -/
def flushUsage : Nat → List CCoinsMap → List Nat → List Nat
  | 0, m :: p :: _, _ :: c :: cs => 0 :: batchWriteUsage m p c :: cs
  | 0, _, _ :: cs => 0 :: cs
  | k + 1, _ :: rest, c :: cs => c :: flushUsage k rest cs
  | _, _, cs => cs

/-- The counters after `stack[k]->Uncache(outpoint)`. -/
def uncacheAtUsage : Nat → COutPoint → List CCoinsMap → List Nat → List Nat
  | 0, o, m :: _, c :: cs => uncacheUsage m o c :: cs
  | k + 1, o, _ :: rest, c :: cs => c :: uncacheAtUsage k o rest cs
  | _, _, _, cs => cs

/-- The counters after one operation of the test, from the stack and the
counters before it. -/
def usageStep (S : CacheStack σ) (usage : List Nat) : CacheOp → List Nat
  | .addCoin o coin _ =>
    match S.layers, usage with
    | m :: _, c :: cs => addCoinUsage m o coin c :: cs
    | _, cs => cs
  | .spendCoin o =>
    match S.layers, getCoinUsage base S.base o S.layers usage with
    | m :: rest, c :: cs => spendCoinUsage (fetchCoin m o rest (getCoin base S.base o rest)).2 c :: cs
    | _, cs => cs
  | .getCoin o | .accessCoin o | .haveCoin o => getCoinUsage base S.base o S.layers usage
  | .uncache k o => uncacheAtUsage k o S.layers usage
  | .flush k => flushUsage k S.layers usage
  | .push => 0 :: usage
  | .pop => (flushUsage 0 S.layers usage).tail

end CacheStack

/-- The stack of caches with the `cachedCoinsUsage` of each, top first. -/
structure CountedStack (σ : Type) where
  /-- The caches and the base. -/
  stack : CacheStack σ
  /-- `cachedCoinsUsage` of each cache. -/
  usage : List Nat

namespace CountedStack

variable {σ : Type} (base : CCoinsView σ)

/-- One operation: the stack's own step, and the counters as `coins.cpp`
moves them. -/
def step (T : CountedStack σ) (op : CacheOp) : Faulty (CountedStack σ × CacheOut) := do
  let (S', out) ← T.stack.step base op
  pure (⟨S', CacheStack.usageStep base T.stack T.usage op⟩, out)

/-- A sequence of operations, and what each returned. -/
def run (T : CountedStack σ) : List CacheOp → Faulty (CountedStack σ × List CacheOut)
  | [] => pure (T, [])
  | op :: ops => do
    let (T', out) ← T.step base op
    let (T'', outs) ← T'.run ops
    pure (T'', out :: outs)

end CountedStack

/-! ## Each counter follows its cache -/

/-- A new entry adds its coin. -/
theorem mapUsage_insert_of_lookup_none {m : CCoinsMap} {o : COutPoint} (hl : m.lookup o = none)
    (e : CCoinsCacheEntry) : mapUsage (m.insert o e) = mapUsage m + e.coin.dynamicMemoryUsage := by
  have h := mapUsage_setKey m o (some e)
  rw [hl, entryUsage_none, entryUsage_some] at h
  exact h

/-- A successful `AddCoin` left the cache as it was, for an unspendable coin,
or gave the entry the new coin. -/
theorem addCoinEntry_eq_ok {m m' : CCoinsMap} {o : COutPoint} {coin : Coin} {possible_overwrite : Bool}
    (h : addCoinEntry m o coin possible_overwrite = .ok m') :
    (isUnspendable coin.out.scriptPubKey = true ∧ m' = m) ∨
      (isUnspendable coin.out.scriptPubKey = false ∧ ∃ f, m' = m.insert o ⟨coin, true, f⟩) := by
  unfold addCoinEntry at h
  obtain ⟨_, -, h⟩ := Fault.bind_eq_ok.mp h
  cases hu : isUnspendable coin.out.scriptPubKey with
  | true =>
    simp only [hu, if_true] at h
    exact .inl ⟨rfl, (Except.ok.inj h).symm⟩
  | false =>
    simp only [hu, Bool.false_eq_true, if_false] at h
    refine .inr ⟨rfl, ?_⟩
    -- every branch that does not throw inserts the coin
    split at h
    · split at h
      · cases h
      · exact ⟨_, by simpa using h.symm⟩
    · exact ⟨_, by simpa using h.symm⟩

/-- **`AddCoin`** counts what it puts in the cache. -/
theorem addCoinUsage_exact {m m' : CCoinsMap} {o : COutPoint} {coin : Coin} {possible_overwrite : Bool}
    (h : addCoinEntry m o coin possible_overwrite = .ok m') :
    addCoinUsage m o coin (mapUsage m) = mapUsage m' := by
  rcases addCoinEntry_eq_ok h with ⟨hu, rfl⟩ | ⟨hu, f, rfl⟩
  · simp [addCoinUsage, hu]
  · -- the old entry's coin is part of the sum it is taken from
    have hset := mapUsage_setKey m o (some ⟨coin, true, f⟩)
    have hle := entryUsage_le_mapUsage m o
    simp only [setKey, entryUsage_some] at hset
    simp only [addCoinUsage, hu, Bool.false_eq_true, if_false]
    omega

/-- **`Uncache`** counts what it drops. -/
theorem uncacheUsage_exact (m : CCoinsMap) (o : COutPoint) :
    uncacheUsage m o (mapUsage m) = mapUsage (uncache m o) := by
  unfold uncacheUsage uncache
  cases hl : m.lookup o with
  | none => rfl
  | some e =>
    dsimp only
    by_cases hflags : (!e.dirty && !e.fresh) = true
    · have hset := mapUsage_setKey m o none
      rw [hl, entryUsage_some, entryUsage_none] at hset
      rw [if_pos hflags, if_pos hflags, show m.erase o = setKey m o none from rfl]
      omega
    · rw [if_neg hflags, if_neg hflags]

/-- One turn of **`BatchWrite`** counts what it does to the parent's entry. -/
theorem batchWriteEntryUsage_exact {p : CCoinsMap} {o : COutPoint} {e : CCoinsCacheEntry}
    {b : Option CCoinsCacheEntry} (h : batchWriteEntry (p.lookup o) e = .ok b) :
    batchWriteEntryUsage (p.lookup o) e (mapUsage p) = mapUsage (setKey p o b) := by
  have hset := mapUsage_setKey p o b
  have hle := entryUsage_le_mapUsage p o
  generalize p.lookup o = r at h hset hle ⊢
  cases hd : e.dirty with
  | false =>
    -- a clean entry is skipped
    simp only [batchWriteEntry, batchWriteEntryUsage, hd, Bool.not_false, if_true] at h ⊢
    cases h
    omega
  | true =>
    cases r with
    | none =>
      -- a new entry, unless it is FRESH and spent
      simp only [batchWriteEntry, batchWriteEntryUsage, hd, Bool.not_true, Bool.false_eq_true,
        if_false, entryUsage_none] at h hset ⊢
      by_cases hnew : (!(e.fresh && e.coin.isSpent)) = true
      · simp only [hnew, if_true] at h ⊢
        cases h
        simp only [entryUsage_some] at hset
        omega
      · simp only [hnew, Bool.false_eq_true, if_false] at h ⊢
        cases h
        simp only [entryUsage_none] at hset
        omega
    | some q =>
      simp only [batchWriteEntry, batchWriteEntryUsage, hd, Bool.not_true, Bool.false_eq_true,
        if_false, entryUsage_some] at h hset hle ⊢
      by_cases hmis : (e.fresh && !q.coin.isSpent) = true
      · simp only [hmis, if_true] at h
        cases h
      · simp only [hmis, Bool.false_eq_true, if_false] at h ⊢
        by_cases hgone : (q.fresh && e.coin.isSpent) = true
        · -- a FRESH parent entry spent below is erased
          simp only [hgone, if_true] at h ⊢
          cases h
          simp only [entryUsage_none] at hset
          omega
        · simp only [hgone, Bool.false_eq_true, if_false] at h ⊢
          cases h
          simp only [entryUsage_some] at hset
          omega

/-- The loop of `BatchWrite`, over a parent that agrees with the one before
the loop at every key still to come. -/
theorem batchWriteUsage_loop (p₀ : CCoinsMap) :
    ∀ (L : List (Σ _ : COutPoint, CCoinsCacheEntry)) (p p' : CCoinsMap), L.NodupKeys →
      (∀ a ∈ L.keys, p.lookup a = p₀.lookup a) →
      updateEach (fun _ q e => batchWriteEntry q e) L p = .ok p' →
      L.foldl (fun c x => batchWriteEntryUsage (p₀.lookup x.1) x.2 c) (mapUsage p) = mapUsage p'
  | [], p, p', _, _, h => by
    cases h
    rfl
  | ⟨a, e⟩ :: rest, p, p', hnd, hagree, h => by
    obtain ⟨b, hb, hrest⟩ := Fault.bind_eq_ok.mp h
    have hnd' : rest.NodupKeys := (List.nodupKeys_cons.mp hnd).2
    -- the keys still to come are not `a`, so setting `a` keeps the agreement
    have hagree' : ∀ a' ∈ rest.keys, (setKey p a b).lookup a' = p₀.lookup a' := by
      intro a' ha'
      have hne : a' ≠ a := by
        rintro rfl
        exact List.notMem_keys_of_nodupKeys_cons hnd ha'
      rw [lookup_setKey_ne b hne]
      exact hagree a' (List.mem_cons_of_mem a ha')
    rw [List.foldl_cons, ← hagree a List.mem_cons_self, batchWriteEntryUsage_exact hb]
    exact batchWriteUsage_loop p₀ rest (setKey p a b) p' hnd' hagree' hrest

/-- **`BatchWrite` into a cache** counts what it writes. -/
theorem batchWriteUsage_exact {mapCoins p p' : CCoinsMap} (h : batchWrite mapCoins p = .ok p') :
    batchWriteUsage mapCoins p (mapUsage p) = mapUsage p' :=
  batchWriteUsage_loop p mapCoins.entries p p' mapCoins.nodupKeys (fun _ _ => rfl) h

namespace CacheStack

variable {σ : Type} (base : CCoinsView σ)

/-- **`GetCoin` down the stack**: every cache that fetches counts the coin it
keeps. -/
theorem getCoinUsage_exact (s : σ) (o : COutPoint) : ∀ layers : List CCoinsMap,
    getCoinUsage base s o layers (layers.map mapUsage) = (getCoin base s o layers).1.map mapUsage
  | [] => rfl
  | m :: rest => by
    have ih := getCoinUsage_exact s o rest
    cases hl : m.lookup o with
    | some e => simp [getCoinUsage, getCoin, fetchCoin, hl]
    | none =>
      rcases hb : getCoin base s o rest with ⟨rest', r⟩
      cases r with
      | none => simp [getCoinUsage, getCoin, fetchCoin, hl, hb, ih]
      | some tmp =>
        simp [getCoinUsage, getCoin, fetchCoin, hl, hb, ih, mapUsage_insert_of_lookup_none hl]

/-- The entry `FetchCoin` returns is the cache's entry afterwards. -/
theorem lookup_fetchCoin (m : CCoinsMap) (o : COutPoint) (rest : List CCoinsMap)
    (below : List CCoinsMap × Option Coin) :
    (fetchCoin m o rest below).1.1.lookup o = (fetchCoin m o rest below).2 := by
  unfold fetchCoin
  cases hl : m.lookup o with
  | some e => exact hl
  | none =>
    obtain ⟨rest', r⟩ := below
    cases r with
    | none => exact hl
    | some tmp => exact AList.lookup_insert m

/-- **`SpendCoin`** counts what it fetches and what it spends. -/
theorem spendCoinUsage_exact (s : σ) (o : COutPoint) (m : CCoinsMap) (rest : List CCoinsMap) :
    usageStep base ⟨m :: rest, s⟩ ((m :: rest).map mapUsage) (.spendCoin o) =
      (spendCoin base s o m rest).1.map mapUsage := by
  have hget := getCoinUsage_exact base s o (m :: rest)
  rcases hf : fetchCoin m o rest (getCoin base s o rest) with ⟨⟨m', rest'⟩, e?⟩
  have hlayers : (getCoin base s o (m :: rest)).1 = m' :: rest' := by simp [getCoin, hf]
  have hlook : m'.lookup o = e? := by simpa [hf] using lookup_fetchCoin m o rest (getCoin base s o rest)
  rw [hlayers, List.map_cons, List.map_cons] at hget
  simp only [usageStep, List.map_cons]
  rw [hget]
  simp only [hf, spendCoin, spendCoinUsage]
  cases e? with
  | none => simp
  | some e =>
    -- the spent entry is erased when FRESH and cleared otherwise; either way its coin is off
    cases hfr : e.fresh with
    | true =>
      have hset := mapUsage_setKey m' o none
      rw [hlook, entryUsage_some, entryUsage_none] at hset
      simp only [entryUsage_some, hfr, if_true, List.map_cons, List.cons.injEq, and_true]
      rw [show m'.erase o = setKey m' o none from rfl]
      omega
    | false =>
      have hset := mapUsage_setKey m' o (some ⟨Coin.empty, true, false⟩)
      rw [hlook, entryUsage_some, entryUsage_some, Coin.dynamicMemoryUsage_empty] at hset
      simp only [entryUsage_some, hfr, Bool.false_eq_true, if_false, List.map_cons, List.cons.injEq, and_true]
      rw [show m'.insert o ⟨Coin.empty, true, false⟩ = setKey m' o (some ⟨Coin.empty, true, false⟩) from rfl]
      omega

/-- `AccessCoin` leaves the caches as `GetCoin` does. -/
theorem accessCoin_layers (s : σ) (o : COutPoint) (m : CCoinsMap) (rest : List CCoinsMap) :
    (accessCoin base s o m rest).1 = (getCoin base s o (m :: rest)).1 := by
  rcases hf : fetchCoin m o rest (getCoin base s o rest) with ⟨⟨m', rest'⟩, e?⟩
  cases e? <;> simp [accessCoin, getCoin, hf]

/-- `HaveCoin` leaves the caches as `GetCoin` does. -/
theorem haveCoin_layers (s : σ) (o : COutPoint) (m : CCoinsMap) (rest : List CCoinsMap) :
    (haveCoin base s o m rest).1 = (getCoin base s o (m :: rest)).1 := by
  rcases hf : fetchCoin m o rest (getCoin base s o rest) with ⟨⟨m', rest'⟩, e?⟩
  cases e? <;> simp [haveCoin, getCoin, hf]

/-- **`Flush` of cache `k`** counts what it writes into the cache under it. -/
theorem flushUsage_exact : ∀ (k : Nat) (layers layers' : List CCoinsMap) (s s' : σ),
    flushAt base k layers s = .ok (layers', s') →
      flushUsage k layers (layers.map mapUsage) = layers'.map mapUsage
  | _, [], _, _, _, h => by simp [flushAt] at h
  | 0, [m], _, _, _, h => by
    -- the bottom cache writes into the base, which counts nothing
    cases h
    simp [flushUsage]
  | 0, m :: p :: rest, layers', _, _, h => by
    obtain ⟨p', hp, h⟩ := Fault.bind_eq_ok.mp h
    cases h
    simp [flushUsage, batchWriteUsage_exact hp]
  | k + 1, m :: rest, layers', s, s', h => by
    rw [flushAt] at h
    obtain ⟨⟨rest', s''⟩, hrest, h⟩ := Fault.bind_eq_ok.mp h
    cases h
    simp only [List.map_cons, flushUsage]
    rw [flushUsage_exact k rest rest' s _ hrest]

/-- **`Uncache` of cache `k`** takes off the coin it drops. -/
theorem uncacheAtUsage_exact : ∀ (k : Nat) (o : COutPoint) (layers layers' : List CCoinsMap),
    uncacheAt k o layers = .ok layers' →
      uncacheAtUsage k o layers (layers.map mapUsage) = layers'.map mapUsage
  | _, _, [], _, h => by simp [uncacheAt] at h
  | 0, o, m :: rest, _, h => by
    cases h
    simp [uncacheAtUsage, uncacheUsage_exact]
  | k + 1, o, m :: rest, layers', h => by
    rw [uncacheAt] at h
    obtain ⟨rest', hrest, h⟩ := Fault.bind_eq_ok.mp h
    cases h
    simp only [List.map_cons, uncacheAtUsage]
    rw [uncacheAtUsage_exact k o rest rest' hrest]

/-- An operation on the top cache succeeded, so there is a top. -/
theorem exists_cons_of_onTop {layers : List CCoinsMap} {s : σ}
    {f : CCoinsMap → List CCoinsMap → Faulty (List CCoinsMap × CacheOut)} {r : CacheStack σ × CacheOut}
    (h : onTop ⟨layers, s⟩ f = .ok r) : ∃ m rest, layers = m :: rest := by
  cases layers with
  | nil => cases h
  | cons m rest => exact ⟨m, rest, rfl⟩

/-- **One operation** moves each counter by what it does to its cache. -/
theorem usageStep_exact {S S' : CacheStack σ} {out : CacheOut} :
    ∀ op : CacheOp, S.step base op = .ok (S', out) →
      usageStep base S (S.layers.map mapUsage) op = S'.layers.map mapUsage := by
  obtain ⟨layers, s⟩ := S
  intro op h
  cases op with
  | addCoin o coin possible_overwrite =>
    obtain ⟨m, rest, rfl⟩ := exists_cons_of_onTop h
    cases hadd : addCoinEntry m o coin possible_overwrite with
    | error e => simp [step, onTop, hadd] at h
    | ok m' =>
      simp only [step, onTop, hadd, Fault.ok_bind, Fault.pure_eq, Except.ok.injEq, Prod.mk.injEq] at h
      obtain ⟨rfl, -⟩ := h
      simp [usageStep, addCoinUsage_exact hadd]
  | spendCoin o =>
    obtain ⟨m, rest, rfl⟩ := exists_cons_of_onTop h
    cases h
    exact spendCoinUsage_exact base s o m rest
  | getCoin o =>
    obtain ⟨m, rest, rfl⟩ := exists_cons_of_onTop h
    cases h
    exact getCoinUsage_exact base s o (m :: rest)
  | accessCoin o =>
    obtain ⟨m, rest, rfl⟩ := exists_cons_of_onTop h
    cases h
    show _ = (accessCoin base s o m rest).1.map mapUsage
    rw [accessCoin_layers]
    exact getCoinUsage_exact base s o (m :: rest)
  | haveCoin o =>
    obtain ⟨m, rest, rfl⟩ := exists_cons_of_onTop h
    cases h
    show _ = (haveCoin base s o m rest).1.map mapUsage
    rw [haveCoin_layers]
    exact getCoinUsage_exact base s o (m :: rest)
  | uncache k o =>
    obtain ⟨layers', hu, h⟩ := Fault.bind_eq_ok.mp h
    cases h
    exact uncacheAtUsage_exact k o layers layers' hu
  | flush k =>
    obtain ⟨⟨layers', s'⟩, hf, h⟩ := Fault.bind_eq_ok.mp h
    cases h
    exact flushUsage_exact base k layers layers' s s' hf
  | push =>
    cases h
    simp [usageStep]
  | pop =>
    -- the flushed top is deleted with its counter
    obtain ⟨⟨layers', s'⟩, hf, h⟩ := Fault.bind_eq_ok.mp h
    cases h
    simp only [usageStep, flushUsage_exact base 0 layers layers' s s' hf, List.map_tail]

end CacheStack

namespace CountedStack

variable {σ : Type} (base : CCoinsView σ)

/-- **A whole run** keeps every counter exact: whatever sequence the stack
runs without throwing, the counted stack runs it too and each counter ends as
the sum over its cache.  The induction is on the operations; one step is
`usageStep_exact`. -/
theorem countedStack_run_exact :
    ∀ {T : CountedStack σ} {ops : List CacheOp} {S' : CacheStack σ} {outs : List CacheOut},
      T.usage = T.stack.layers.map mapUsage → T.stack.run base ops = .ok (S', outs) →
        ∃ T', T.run base ops = .ok (T', outs) ∧ T'.stack = S' ∧ T'.usage = S'.layers.map mapUsage
  | T, [], S', outs, hu, h => by
    cases h
    exact ⟨T, rfl, rfl, hu⟩
  | T, op :: ops, S', outs, hu, h => by
    rw [CacheStack.run] at h
    obtain ⟨⟨S₁, out⟩, h₁, hrest⟩ := Fault.bind_eq_ok.mp h
    obtain ⟨⟨S₂, outs'⟩, h₂, hend⟩ := Fault.bind_eq_ok.mp hrest
    cases hend
    have hu₁ : CacheStack.usageStep base T.stack T.usage op = S₁.layers.map mapUsage := by
      rw [hu]
      exact CacheStack.usageStep_exact base op h₁
    obtain ⟨T₂, hrun₂, hS₂, hu₂⟩ :=
      countedStack_run_exact (T := ⟨S₁, CacheStack.usageStep base T.stack T.usage op⟩) hu₁ h₂
    refine ⟨T₂, ?_, hS₂, hu₂⟩
    simp [run, step, h₁, hrun₂]

end CountedStack

open CacheStack CountedStack in
/-- Every allowed sequence of operations on a stack of caches, from a stack
that stands for the flat map and whose counters are exact, runs to the end
without throwing (so no `BatchWrite` of a `Flush` or a pop meets a misapplied
FRESH flag), leaves every entry keeping its promises about the view under it
(`EntryOk`: a FRESH entry has no unspent coin below, a clean entry holds the
coin below), and leaves every counter the sum of `DynamicMemoryUsage()` over
its cache. -/
theorem countedStack_run_invariants {σ : Type} {base : CCoinsView σ} (hbase : base.Lawful)
    {T : CountedStack σ} {M : CoinsModel} (h : Refines base T.stack M)
    (hu : T.usage = T.stack.layers.map mapUsage) {ops : List CacheOp} {M' : CoinsModel}
    {outs : List CacheOut} (hrun : M.run ops = some (M', outs)) :
    ∃ T', T.run base ops = .ok (T', outs) ∧ StackOk base T'.stack.base T'.stack.layers ∧
      T'.usage = T'.stack.layers.map mapUsage := by
  obtain ⟨S', hs, hr⟩ := run_refines hbase h hrun
  obtain ⟨T', hT, rfl, hu'⟩ := countedStack_run_exact base hu hs
  exact ⟨T', hT, hr.ok, hu'⟩

/-- A coin whose script has a heap block, added without leave, spent in a
second cache and popped. -/
theorem countedStack_run_invariants_spend :
    ∃ M' outs, CoinsModel.run ⟨⟨fun _ => none, uint256.zero⟩, 1⟩
        [.addCoin ⟨uint256.zero, 0⟩ ⟨⟨50 * COIN, List.replicate 40 OP_1⟩, 1, false, false, 0⟩ false, .push,
          .spendCoin ⟨uint256.zero, 0⟩, .getCoin ⟨uint256.zero, 0⟩, .pop] = some (M', outs) ∧
      ∃ T', CountedStack.run CCoinsViewDB ⟨⟨[∅], CoinsDB.empty⟩, [0]⟩
          [.addCoin ⟨uint256.zero, 0⟩ ⟨⟨50 * COIN, List.replicate 40 OP_1⟩, 1, false, false, 0⟩ false, .push,
            .spendCoin ⟨uint256.zero, 0⟩, .getCoin ⟨uint256.zero, 0⟩, .pop] = .ok (T', outs) ∧
        CacheStack.StackOk CCoinsViewDB T'.stack.base T'.stack.layers ∧
        T'.usage = T'.stack.layers.map mapUsage :=
  ⟨_, _, rfl, countedStack_run_invariants lawful_CCoinsViewDB refines_empty (by simp) rfl⟩

end Veribase
