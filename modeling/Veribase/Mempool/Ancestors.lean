import Veribase.Primitives.Transaction
import Veribase.Lib.Worklist

/-!
# The ancestors of a mempool entry

`CTxMemPool::CalculateMemPoolAncestors` (`txmempool.cpp`) collects the
in-mempool ancestors of an entry and checks the package limits on the way.
It starts from the entry's parents, found through the inputs of its
transaction (`fSearchForParents`) or read from the pool's links, and then
runs a worklist: `parentHashes` is the frontier, `setAncestors` the entries
visited.  Each turn takes the least entry of the frontier, visits it, checks
the descendant limits of that ancestor and the ancestor size so far, and puts
on the frontier the parents not yet visited, checking the ancestor count
after each.

The loop is one turn of the closure search of `Lib.Worklist`
(`ancestorsLoop_turn`), so what it visits is exactly the set of transitive
in-mempool ancestors.  The limits are checked on partial counts, each no
larger than the final one, and every final count is checked at the last
turn that could change it; so the call succeeds exactly when the final
counts meet the limits (`calculateMemPoolAncestors_eq_ok_iff`), except that
two of them are only looked at during the loop: the ancestor size when the
entry has an in-mempool ancestor, and the ancestor count when some check of
it runs, which is when the entry's parents were searched and there is one,
or when some ancestor has an in-mempool parent of its own (`CountChecked`).

The loop runs on a fuel of `mapTx.size() + 1`: each turn visits an ancestor
not visited before, and the ancestors are entries of the pool.
-/

namespace Veribase

/-- What `CalculateMemPoolAncestors` reads of `CTxMemPool`, with the
`txiter`s as values of `α`, ordered as `setEntries` orders them (by txid). -/
structure TxMemPool (α : Type) [LinearOrder α] where
  mapTx : Finset α
  /-- `GetIter(txid)`. -/
  getIter : uint256 → Option α
  /-- `GetMemPoolParents(it)`. -/
  parents : α → Finset α
  /-- `GetTxSize()`. -/
  txSize : α → Nat
  /-- `GetSizeWithDescendants()`. -/
  sizeWithDescendants : α → Nat
  /-- `GetCountWithDescendants()`. -/
  countWithDescendants : α → Nat
  /-- `GetTx().GetHash().ToString()`. -/
  txHash : α → String
  /-- An iterator points into `mapTx`. -/
  getIter_mem : ∀ txid it, getIter txid = some it → it ∈ mapTx
  /-- The links only name entries of `mapTx`. -/
  parents_subset : ∀ it, parents it ⊆ mapTx

/-- Where the entry's parents come from: the inputs of `entry.GetTx()`
(`fSearchForParents`), or the pool's links of the entry, which is then in
the pool already (`mapTx.iterator_to(entry)`). -/
inductive EntryParents (α : Type) where
  | search (tx : CTransaction)
  | inPool (it : α)

namespace TxMemPool

variable {α : Type} [LinearOrder α] (pool : TxMemPool α)

/-! ## The model -/

/-- The first loop of `CalculateMemPoolAncestors`, over the inputs of the
entry's transaction: each input whose transaction is in the pool adds it to
`parentHashes`, and the count is checked after each. -/
def searchParents (limitAncestorCount : Nat) : List CTxIn → Finset α → Except String (Finset α)
  | [], parentHashes => .ok parentHashes
  | txin :: vin, parentHashes =>
    match pool.getIter txin.prevout.hash with
    | some piter =>
      let parentHashes := insert piter parentHashes
      if parentHashes.card + 1 > limitAncestorCount then
        .error s!"too many unconfirmed parents [limit: {limitAncestorCount}]"
      else searchParents limitAncestorCount vin parentHashes
    | none => searchParents limitAncestorCount vin parentHashes

/-- The inner loop of a turn, over `GetMemPoolParents(stageit)` in order:
a parent not yet visited joins `parentHashes`, and the count is checked
after each parent, new or not. -/
def addMemPoolParents (limitAncestorCount : Nat) (setAncestors : Finset α) :
    List α → Finset α → Except String (Finset α)
  | [], parentHashes => .ok parentHashes
  | phash :: rest, parentHashes =>
    let parentHashes := if phash ∉ setAncestors then insert phash parentHashes else parentHashes
    if parentHashes.card + setAncestors.card + 1 > limitAncestorCount then
      .error s!"too many unconfirmed ancestors [limit: {limitAncestorCount}]"
    else addMemPoolParents limitAncestorCount setAncestors rest parentHashes

/-- The `while (!parentHashes.empty())` loop, on a fuel. -/
def ancestorsLoop (entryTxSize limitAncestorCount limitAncestorSize limitDescendantCount
    limitDescendantSize : Nat) : Nat → Finset α → Finset α → Nat → Except String (Finset α)
  | 0, _, setAncestors, _ => .ok setAncestors
  | fuel + 1, parentHashes, setAncestors, totalSizeWithAncestors =>
    if h : parentHashes.Nonempty then
      let stageit := parentHashes.min' h
      let setAncestors := insert stageit setAncestors
      let parentHashes := parentHashes.erase stageit
      let totalSizeWithAncestors := totalSizeWithAncestors + pool.txSize stageit
      let txid := pool.txHash stageit
      if pool.sizeWithDescendants stageit + entryTxSize > limitDescendantSize then
        .error s!"exceeds descendant size limit for tx {txid} [limit: {limitDescendantSize}]"
      else if pool.countWithDescendants stageit + 1 > limitDescendantCount then
        .error s!"too many descendants for tx {txid} [limit: {limitDescendantCount}]"
      else if totalSizeWithAncestors > limitAncestorSize then
        .error s!"exceeds ancestor size limit [limit: {limitAncestorSize}]"
      else do
        let parentHashes ← addMemPoolParents limitAncestorCount setAncestors
          ((pool.parents stageit).sort (· ≤ ·)) parentHashes
        ancestorsLoop entryTxSize limitAncestorCount limitAncestorSize limitDescendantCount
          limitDescendantSize fuel parentHashes setAncestors totalSizeWithAncestors
    else .ok setAncestors

/-- `CalculateMemPoolAncestors(entry, setAncestors, ...)`: the ancestors, or
the `errString` of the limit it found exceeded.  Every caller passes an
empty `setAncestors`. -/
def calculateMemPoolAncestors (entry : EntryParents α) (entryTxSize limitAncestorCount
    limitAncestorSize limitDescendantCount limitDescendantSize : Nat) : Except String (Finset α) := do
  let parentHashes ← match entry with
    | .search tx => pool.searchParents limitAncestorCount tx.vin ∅
    | .inPool it => pure (pool.parents it)
  pool.ancestorsLoop entryTxSize limitAncestorCount limitAncestorSize limitDescendantCount
    limitDescendantSize (pool.mapTx.card + 1) parentHashes ∅ entryTxSize

/-! ## What the ancestors are -/

/-- The entry's parents in the pool. -/
def directParents : EntryParents α → Finset α
  | .search tx => (tx.vin.filterMap fun txin => pool.getIter txin.prevout.hash).toFinset
  | .inPool it => pool.parents it

/-- `a` is an in-mempool ancestor of the entry: a parent, or a parent of one. -/
def IsAncestor (entry : EntryParents α) (a : α) : Prop :=
  Worklist.Reach pool.parents (pool.directParents entry) a

theorem directParents_subset (entry : EntryParents α) : pool.directParents entry ⊆ pool.mapTx := by
  cases entry with
  | search tx =>
    intro a ha
    simp only [directParents, List.mem_toFinset, List.mem_filterMap] at ha
    obtain ⟨txin, -, hget⟩ := ha
    exact pool.getIter_mem _ _ hget
  | inPool it => exact pool.parents_subset it

theorem IsAncestor.mem_mapTx {entry : EntryParents α} {a : α} (h : pool.IsAncestor entry a) :
    a ∈ pool.mapTx :=
  Worklist.Reach.mem_of_closed (pool.directParents_subset entry) (fun x _ => pool.parents_subset x) h

open Classical in
/-- The entry's in-mempool ancestors. -/
noncomputable def ancestors (entry : EntryParents α) : Finset α :=
  pool.mapTx.filter (pool.IsAncestor entry)

@[simp] theorem mem_ancestors {entry : EntryParents α} {a : α} :
    a ∈ pool.ancestors entry ↔ pool.IsAncestor entry a := by
  simp only [ancestors, Finset.mem_filter, and_iff_right_iff_imp]
  exact IsAncestor.mem_mapTx pool

/-- A finished search gives the ancestors. -/
theorem ancestors_eq_of_inv {entry : EntryParents α} {V : Finset α}
    (h : Worklist.Inv pool.parents (pool.directParents entry) ∅ V) : pool.ancestors entry = V :=
  Finset.ext fun a => pool.mem_ancestors.trans (h.done a).symm

/-- Whether any check of the ancestor count runs: one runs for each parent
found through the inputs, and for each parent of an ancestor visited. -/
def CountChecked : EntryParents α → Prop
  | .search tx => (pool.ancestors (.search tx)).Nonempty
  | .inPool it => ∃ a ∈ pool.ancestors (.inPool it), (pool.parents a).Nonempty

/-- The package limits as `CalculateMemPoolAncestors` enforces them. -/
structure Admits (entry : EntryParents α) (entryTxSize limitAncestorCount limitAncestorSize
    limitDescendantCount limitDescendantSize : Nat) : Prop where
  descendantSize : ∀ a ∈ pool.ancestors entry, pool.sizeWithDescendants a + entryTxSize ≤ limitDescendantSize
  descendantCount : ∀ a ∈ pool.ancestors entry, pool.countWithDescendants a + 1 ≤ limitDescendantCount
  ancestorSize : (pool.ancestors entry).Nonempty →
    entryTxSize + ∑ a ∈ pool.ancestors entry, pool.txSize a ≤ limitAncestorSize
  ancestorCount : pool.CountChecked entry → (pool.ancestors entry).card + 1 ≤ limitAncestorCount

/-! ## The two inner loops -/

section ExceptLemmas

variable {ε β γ : Type}

/-- A check that throws passes only when its condition is false. -/
theorem ite_error_eq_ok_iff {c : Prop} [Decidable c] {e : ε} {x : Except ε β} {b : β} :
    (if c then .error e else x) = .ok b ↔ ¬c ∧ x = .ok b := by
  by_cases hc : c <;> simp [hc]

theorem except_bind_eq_ok_iff {x : Except ε β} {f : β → Except ε γ} {b : γ} :
    (x >>= f) = .ok b ↔ ∃ a, x = .ok a ∧ f a = .ok b := by
  cases x <;> simp [bind, Except.bind]

end ExceptLemmas

/-- **The search through the inputs** finds the parents the inputs name, and
fails exactly when, having found one, there are too many. -/
theorem searchParents_eq_ok_iff (limitAncestorCount : Nat) :
    ∀ (vin : List CTxIn) (parentHashes R : Finset α),
      pool.searchParents limitAncestorCount vin parentHashes = .ok R ↔
        R = parentHashes ∪ (vin.filterMap fun txin => pool.getIter txin.prevout.hash).toFinset ∧
          ((vin.filterMap fun txin => pool.getIter txin.prevout.hash).toFinset.Nonempty →
            R.card + 1 ≤ limitAncestorCount)
  | [], parentHashes, R => by simp [searchParents, eq_comm]
  | txin :: vin, parentHashes, R => by
    cases hget : pool.getIter txin.prevout.hash with
    | none =>
      simp only [searchParents, hget, List.filterMap_cons]
      exact searchParents_eq_ok_iff limitAncestorCount vin parentHashes R
    | some piter =>
      simp only [searchParents, hget, List.filterMap_cons, ite_error_eq_ok_iff, not_lt]
      rw [searchParents_eq_ok_iff limitAncestorCount vin]
      set F := (vin.filterMap fun txin => pool.getIter txin.prevout.hash).toFinset
      have hunion : insert piter parentHashes ∪ F =
          parentHashes ∪ (piter :: vin.filterMap fun txin => pool.getIter txin.prevout.hash).toFinset := by
        ext a
        simp [F]
      rw [hunion]
      constructor
      · rintro ⟨hnow, hR, hlater⟩
        refine ⟨hR, fun _ => ?_⟩
        by_cases hF : F.Nonempty
        · exact hlater hF
        · -- nothing found later: the last check was on this parent
          rw [Finset.not_nonempty_iff_eq_empty] at hF
          rw [hR, ← hunion, hF, Finset.union_empty]
          exact hnow
      · rintro ⟨hR, hcount⟩
        -- the check on this parent counts part of the final set
        have hle : (insert piter parentHashes).card ≤ R.card := by
          rw [hR, ← hunion]
          exact Finset.card_le_card Finset.subset_union_left
        have hfinal := hcount ⟨piter, by simp⟩
        exact ⟨by omega, hR, fun _ => hfinal⟩

/-- **The parents of a visited ancestor** join the frontier unless visited,
and the loop fails exactly when, over a nonempty list, the frontier and the
visited set end too large. -/
theorem addMemPoolParents_eq_ok_iff (limitAncestorCount : Nat) (setAncestors : Finset α) :
    ∀ (l : List α) (parentHashes R : Finset α),
      addMemPoolParents limitAncestorCount setAncestors l parentHashes = .ok R ↔
        R = parentHashes ∪ l.toFinset.filter (· ∉ setAncestors) ∧
          (l ≠ [] → R.card + setAncestors.card + 1 ≤ limitAncestorCount)
  | [], parentHashes, R => by simp [addMemPoolParents, eq_comm]
  | phash :: rest, parentHashes, R => by
    simp only [addMemPoolParents]
    set ph := if phash ∉ setAncestors then insert phash parentHashes else parentHashes
    have hunion : ph ∪ rest.toFinset.filter (· ∉ setAncestors) =
        parentHashes ∪ (phash :: rest).toFinset.filter (· ∉ setAncestors) := by
      by_cases hvis : phash ∈ setAncestors
      · ext a
        by_cases ha : a = phash
        · simp [ph, hvis, ha]
        · simp [ph, hvis, ha]
      · ext a
        simp only [ph, hvis, not_false_eq_true, if_true, Finset.mem_union, Finset.mem_insert,
          Finset.mem_filter, List.mem_toFinset, List.mem_cons]
        by_cases ha : a = phash
        · simp [ha, hvis]
        · simp [ha]
    rw [ite_error_eq_ok_iff, not_lt, addMemPoolParents_eq_ok_iff limitAncestorCount setAncestors rest,
      hunion]
    constructor
    · rintro ⟨hnow, hR, hlater⟩
      refine ⟨hR, fun _ => ?_⟩
      cases rest with
      | nil =>
        -- the last check was on this parent
        have : R = ph := by rw [hR, ← hunion]; simp
        rw [this]
        exact hnow
      | cons _ _ => exact hlater (List.cons_ne_nil _ _)
    · rintro ⟨hR, hcount⟩
      -- the check on this parent counts part of the final set
      have hle : ph.card ≤ R.card := by
        rw [hR, ← hunion]
        exact Finset.card_le_card Finset.subset_union_left
      have hfinal := hcount (List.cons_ne_nil _ _)
      exact ⟨by omega, hR, fun _ => hfinal⟩

/-- What the rest of the loop checks of the ancestors `C` once the entries
`V` are visited: the descendant limits of each ancestor still to visit, the
ancestor size if one is left, and the ancestor count if one left has a
parent. -/
structure LoopAdmits (entryTxSize limitAncestorCount limitAncestorSize limitDescendantCount
    limitDescendantSize : Nat) (C V : Finset α) : Prop where
  descendantSize : ∀ a ∈ C \ V, pool.sizeWithDescendants a + entryTxSize ≤ limitDescendantSize
  descendantCount : ∀ a ∈ C \ V, pool.countWithDescendants a + 1 ≤ limitDescendantCount
  ancestorSize : (C \ V).Nonempty → entryTxSize + ∑ a ∈ C, pool.txSize a ≤ limitAncestorSize
  ancestorCount : (∃ a ∈ C \ V, (pool.parents a).Nonempty) → C.card + 1 ≤ limitAncestorCount

/-! ## One turn of the loop -/

section Loop

-- `entry.GetTxSize()` and the four limits, as the caller passes them
variable {entryTxSize limitAncestorCount limitAncestorSize limitDescendantCount limitDescendantSize : Nat}

/-- **One turn** visits the least entry of the frontier, as `Worklist.visit`
does, and goes on exactly when that ancestor's descendant limits hold, the
ancestor size so far is within its limit, and, if it has parents, the
frontier and the visited set are within the ancestor count. -/
theorem ancestorsLoop_turn {fuel : Nat} {W V : Finset α} {total : Nat} (hW : W.Nonempty)
    {S : Finset α} :
    pool.ancestorsLoop entryTxSize limitAncestorCount limitAncestorSize limitDescendantCount
        limitDescendantSize (fuel + 1) W V total = .ok S ↔
      pool.sizeWithDescendants (W.min' hW) + entryTxSize ≤ limitDescendantSize ∧
      pool.countWithDescendants (W.min' hW) + 1 ≤ limitDescendantCount ∧
      total + pool.txSize (W.min' hW) ≤ limitAncestorSize ∧
      ((pool.parents (W.min' hW)).Nonempty →
        (Worklist.visit pool.parents W V (W.min' hW)).1.card +
          (Worklist.visit pool.parents W V (W.min' hW)).2.card + 1 ≤ limitAncestorCount) ∧
      pool.ancestorsLoop entryTxSize limitAncestorCount limitAncestorSize limitDescendantCount
        limitDescendantSize fuel (Worklist.visit pool.parents W V (W.min' hW)).1
        (Worklist.visit pool.parents W V (W.min' hW)).2 (total + pool.txSize (W.min' hW)) = .ok S := by
  -- the inner loop puts on the frontier what `visit` does
  simp only [ancestorsLoop, dif_pos hW, Worklist.visit_fst, Worklist.visit_snd, ite_error_eq_ok_iff,
    not_lt, except_bind_eq_ok_iff, addMemPoolParents_eq_ok_iff, Finset.sort_toFinset]
  set s := W.min' hW
  -- it reads the parents in order, and checks the count only if there is one
  have hne : (pool.parents s).sort (· ≤ ·) ≠ [] ↔ (pool.parents s).Nonempty := by
    rw [← List.length_pos_iff, Finset.length_sort, Finset.card_pos]
  constructor
  · rintro ⟨hsize, hcount, htotal, R, ⟨rfl, hc⟩, h⟩
    exact ⟨hsize, hcount, htotal, fun hp => hc (hne.mpr hp), h⟩
  · rintro ⟨hsize, hcount, htotal, hc, h⟩
    exact ⟨hsize, hcount, htotal, _, ⟨rfl, fun hl => hc (hne.mp hl)⟩, h⟩

/-- Nothing is left to check once every ancestor is visited. -/
theorem loopAdmits_self (C : Finset α) :
    pool.LoopAdmits entryTxSize limitAncestorCount limitAncestorSize limitDescendantCount
      limitDescendantSize C C where
  descendantSize a ha := by simp at ha
  descendantCount a ha := by simp at ha
  ancestorSize h := by simp at h
  ancestorCount h := by simp at h

section Visit

variable {P W V C : Finset α} (hI : Worklist.Inv pool.parents P W V)
  (hC : ∀ a, a ∈ C ↔ Worklist.Reach pool.parents P a) {s : α} (hs : s ∈ W)
include hI hC hs

/-- **What is left to check, across one turn**: the checks of the turn on
the ancestor it visits, and what is left after it.  The ancestor size
checked at the turn is a partial sum of the final one, and the count
checked at the turn is the final count unless a later turn adds to it. -/
theorem loopAdmits_visit :
    pool.LoopAdmits entryTxSize limitAncestorCount limitAncestorSize limitDescendantCount
        limitDescendantSize C V ↔
      pool.sizeWithDescendants s + entryTxSize ≤ limitDescendantSize ∧
      pool.countWithDescendants s + 1 ≤ limitDescendantCount ∧
      entryTxSize + ∑ a ∈ insert s V, pool.txSize a ≤ limitAncestorSize ∧
      ((pool.parents s).Nonempty →
        (Worklist.visit pool.parents W V s).1.card + (Worklist.visit pool.parents W V s).2.card + 1 ≤
          limitAncestorCount) ∧
      pool.LoopAdmits entryTxSize limitAncestorCount limitAncestorSize limitDescendantCount
        limitDescendantSize C (Worklist.visit pool.parents W V s).2 := by
  have hI' := hI.visit hs
  have hsC : s ∈ C \ V := hI.mem_sdiff_of_mem hC hs
  have hsplit : C \ V = insert s (C \ insert s V) := by
    ext a
    by_cases ha : a = s
    · subst ha
      simpa using hsC
    · simp [ha]
  have hleft : C \ insert s V ⊆ C \ V := Finset.sdiff_subset_sdiff (le_refl C) (Finset.subset_insert s V)
  -- the visited entries are ancestors, so their sizes are part of the final sum
  have hsum : ∑ a ∈ insert s V, pool.txSize a ≤ ∑ a ∈ C, pool.txSize a := by
    apply Finset.sum_le_sum_of_subset
    intro a ha
    exact (hC a).mpr (hI'.reach a (Finset.mem_union_right _ ha))
  have hcard := hI'.card_add_card_le hC
  simp only [Worklist.visit_snd] at hcard hI' ⊢
  constructor
  · intro h
    refine ⟨h.descendantSize s hsC, h.descendantCount s hsC, ?_, ?_, ⟨?_, ?_, ?_, ?_⟩⟩
    · have := h.ancestorSize ⟨s, hsC⟩
      omega
    · intro hp
      have := h.ancestorCount ⟨s, hsC, hp⟩
      omega
    · exact fun a ha => h.descendantSize a (hleft ha)
    · exact fun a ha => h.descendantCount a (hleft ha)
    · exact fun hn => h.ancestorSize (hn.mono hleft)
    · rintro ⟨a, ha, hp⟩
      exact h.ancestorCount ⟨a, hleft ha, hp⟩
  · rintro ⟨hsize, hcount, htotal, hnow, h⟩
    refine ⟨?_, ?_, ?_, ?_⟩
    · intro a ha
      rw [hsplit] at ha
      rcases Finset.mem_insert.mp ha with rfl | ha
      · exact hsize
      · exact h.descendantSize a ha
    · intro a ha
      rw [hsplit] at ha
      rcases Finset.mem_insert.mp ha with rfl | ha
      · exact hcount
      · exact h.descendantCount a ha
    · intro _
      by_cases hrest : (C \ insert s V).Nonempty
      · exact h.ancestorSize hrest
      · -- this turn visits the last ancestor: its sum is the final one
        have hCsub : C ⊆ insert s V := Finset.sdiff_eq_empty_iff_subset.mp
          (Finset.not_nonempty_iff_eq_empty.mp hrest)
        have : ∑ a ∈ C, pool.txSize a ≤ ∑ a ∈ insert s V, pool.txSize a :=
          Finset.sum_le_sum_of_subset hCsub
        omega
    · rintro ⟨a, ha, hp⟩
      rw [hsplit] at ha
      rcases Finset.mem_insert.mp ha with rfl | ha
      · rcases hI'.card_le_or_exists_next hC with hle | hlater
        · have := hnow hp
          omega
        · exact h.ancestorCount hlater
      · exact h.ancestorCount ⟨a, ha, hp⟩

end Visit

/-- **The loop** from any state of the search, on enough fuel, succeeds
exactly when what is left to check holds, and then gives the whole
closure. -/
theorem ancestorsLoop_eq_ok_iff {P C : Finset α} (hC : ∀ a, a ∈ C ↔ Worklist.Reach pool.parents P a) :
    ∀ (fuel : Nat) (W V : Finset α) (total : Nat) (S : Finset α),
      Worklist.Inv pool.parents P W V → total = entryTxSize + ∑ a ∈ V, pool.txSize a →
      (C \ V).card < fuel →
      (pool.ancestorsLoop entryTxSize limitAncestorCount limitAncestorSize limitDescendantCount
          limitDescendantSize fuel W V total = .ok S ↔
        S = C ∧ pool.LoopAdmits entryTxSize limitAncestorCount limitAncestorSize
          limitDescendantCount limitDescendantSize C V)
  | 0, _, _, _, _, _, _, hfuel => absurd hfuel (Nat.not_lt_zero _)
  | fuel + 1, W, V, total, S, hI, htotal, hfuel => by
    by_cases hW : W.Nonempty
    · have hs : W.min' hW ∈ W := Finset.min'_mem W hW
      have hfuel' := hI.card_sdiff_visit hC hs
      have htotal' : total + pool.txSize (W.min' hW) =
          entryTxSize + ∑ a ∈ insert (W.min' hW) V, pool.txSize a := by
        have hnew : W.min' hW ∉ V := (Finset.mem_sdiff.mp (hI.mem_sdiff_of_mem hC hs)).2
        rw [Finset.sum_insert hnew, htotal]
        omega
      rw [pool.ancestorsLoop_turn hW, loopAdmits_visit pool hI hC hs,
        ancestorsLoop_eq_ok_iff hC fuel _ _ _ S (hI.visit hs) htotal' (by omega), ← htotal']
      tauto
    · -- an empty frontier: the visited set is the closure
      rw [Finset.not_nonempty_iff_eq_empty] at hW
      subst hW
      have hV : V = C := Finset.ext fun a => (hI.done a).trans (hC a).symm
      subst hV
      simp only [ancestorsLoop, Finset.not_nonempty_empty, dite_false, Except.ok.injEq]
      exact ⟨fun h => ⟨h.symm, pool.loopAdmits_self V⟩, fun h => h.1.symm⟩

end Loop

/-! ## The whole call -/

theorem directParents_subset_ancestors (entry : EntryParents α) :
    pool.directParents entry ⊆ pool.ancestors entry :=
  fun _ ha => pool.mem_ancestors.mpr (Worklist.Reach.of_mem ha)

/-- An entry with an ancestor has a parent. -/
theorem directParents_nonempty {entry : EntryParents α} (h : (pool.ancestors entry).Nonempty) :
    (pool.directParents entry).Nonempty := by
  obtain ⟨a, ha⟩ := h
  obtain ⟨p, hp, -⟩ := pool.mem_ancestors.mp ha
  exact ⟨p, hp⟩

section Admits

variable {entryTxSize limitAncestorCount limitAncestorSize limitDescendantCount limitDescendantSize : Nat}

/-- The limits as enforced are what the loop checks from the start, once the
two agree on when the ancestor count is checked. -/
theorem admits_iff_loopAdmits {entry : EntryParents α}
    (hcount : (pool.CountChecked entry → (pool.ancestors entry).card + 1 ≤ limitAncestorCount) ↔
      ((∃ a ∈ pool.ancestors entry, (pool.parents a).Nonempty) →
        (pool.ancestors entry).card + 1 ≤ limitAncestorCount)) :
    pool.Admits entry entryTxSize limitAncestorCount limitAncestorSize limitDescendantCount
        limitDescendantSize ↔
      pool.LoopAdmits entryTxSize limitAncestorCount limitAncestorSize limitDescendantCount
        limitDescendantSize (pool.ancestors entry) ∅ := by
  constructor
  · intro h
    refine ⟨?_, ?_, ?_, ?_⟩ <;> simp only [Finset.sdiff_empty]
    · exact h.descendantSize
    · exact h.descendantCount
    · exact h.ancestorSize
    · exact hcount.mp h.ancestorCount
  · intro h
    refine ⟨?_, ?_, ?_, ?_⟩
    · simpa using h.descendantSize
    · simpa using h.descendantCount
    · simpa using h.ancestorSize
    · exact hcount.mpr (by simpa using h.ancestorCount)

/-- Read from the pool's links, the entry's parents are checked by the loop
alone. -/
theorem admits_inPool_iff (it : α) :
    pool.Admits (.inPool it) entryTxSize limitAncestorCount limitAncestorSize limitDescendantCount
        limitDescendantSize ↔
      pool.LoopAdmits entryTxSize limitAncestorCount limitAncestorSize limitDescendantCount
        limitDescendantSize (pool.ancestors (.inPool it)) ∅ :=
  pool.admits_iff_loopAdmits Iff.rfl

/-- Searched through the inputs, the entry's parents have had their count
checked before the loop; the final count is checked there or later, since
an ancestor that is not a parent is found through a parent with a parent. -/
theorem admits_search_iff (tx : CTransaction)
    (hparents : (pool.directParents (.search tx)).Nonempty →
      (pool.directParents (.search tx)).card + 1 ≤ limitAncestorCount) :
    pool.Admits (.search tx) entryTxSize limitAncestorCount limitAncestorSize limitDescendantCount
        limitDescendantSize ↔
      pool.LoopAdmits entryTxSize limitAncestorCount limitAncestorSize limitDescendantCount
        limitDescendantSize (pool.ancestors (.search tx)) ∅ := by
  apply pool.admits_iff_loopAdmits
  constructor
  · rintro h ⟨a, ha, -⟩
    exact h ⟨a, ha⟩
  · intro h hC
    -- all the ancestors are parents, counted before the loop, or one has a parent
    have hinit : Worklist.Inv pool.parents (pool.directParents (.search tx))
        (pool.directParents (.search tx)) ∅ := Worklist.Inv.init _
    rcases hinit.card_le_or_exists_next (fun a => pool.mem_ancestors (a := a)) with hle | hlater
    · have := hparents (pool.directParents_nonempty hC)
      simp only [Finset.card_empty] at hle
      omega
    · exact h (by simpa using hlater)

/-- Every ancestor count check the search through the inputs makes is one
the limits allow. -/
theorem Admits.searchParents {tx : CTransaction}
    (h : pool.Admits (.search tx) entryTxSize limitAncestorCount limitAncestorSize limitDescendantCount
      limitDescendantSize) :
    (pool.directParents (.search tx)).Nonempty →
      (pool.directParents (.search tx)).card + 1 ≤ limitAncestorCount := by
  intro hP
  have hC : (pool.ancestors (.search tx)).Nonempty := hP.mono (pool.directParents_subset_ancestors _)
  have hle := Finset.card_le_card (pool.directParents_subset_ancestors (.search tx))
  have := h.ancestorCount hC
  omega

end Admits

/-- **`CalculateMemPoolAncestors` is exact**: it succeeds exactly when the
entry's ancestors meet the package limits as it enforces them, and then
gives every in-mempool ancestor of the entry and nothing else. -/
theorem calculateMemPoolAncestors_eq_ok_iff (entry : EntryParents α) (entryTxSize limitAncestorCount
    limitAncestorSize limitDescendantCount limitDescendantSize : Nat) (S : Finset α) :
    pool.calculateMemPoolAncestors entry entryTxSize limitAncestorCount limitAncestorSize
        limitDescendantCount limitDescendantSize = .ok S ↔
      S = pool.ancestors entry ∧
        pool.Admits entry entryTxSize limitAncestorCount limitAncestorSize limitDescendantCount
          limitDescendantSize := by
  have hC : ∀ a, a ∈ pool.ancestors entry ↔ Worklist.Reach pool.parents (pool.directParents entry) a :=
    fun a => pool.mem_ancestors
  -- the loop runs on one more turn than the pool has entries
  have hfuel : (pool.ancestors entry \ ∅).card < pool.mapTx.card + 1 := by
    rw [Finset.sdiff_empty]
    have hsub : pool.ancestors entry ⊆ pool.mapTx := fun a ha =>
      IsAncestor.mem_mapTx pool (pool.mem_ancestors.mp ha)
    have := Finset.card_le_card hsub
    omega
  have hinit : Worklist.Inv pool.parents (pool.directParents entry) (pool.directParents entry) ∅ :=
    Worklist.Inv.init _
  have htotal : entryTxSize = entryTxSize + ∑ a ∈ (∅ : Finset α), pool.txSize a := by simp
  cases entry with
  | inPool it =>
    rw [admits_inPool_iff]
    exact pool.ancestorsLoop_eq_ok_iff hC _ _ ∅ entryTxSize S hinit htotal hfuel
  | search tx =>
    have hsearch := pool.searchParents_eq_ok_iff limitAncestorCount tx.vin ∅
    simp only [calculateMemPoolAncestors]
    cases hR : pool.searchParents limitAncestorCount tx.vin ∅ with
    | error e =>
      -- the search failed, so the parents alone are too many
      constructor
      · intro h
        cases h
      · rintro ⟨-, hadm⟩
        have hok := (hsearch _).mpr ⟨rfl, hadm.searchParents pool⟩
        rw [hR] at hok
        cases hok
    | ok R =>
      obtain ⟨hRP, hparents⟩ := (hsearch R).mp hR
      rw [Finset.empty_union] at hRP
      subst hRP
      rw [admits_search_iff pool tx hparents]
      exact pool.ancestorsLoop_eq_ok_iff hC _ _ ∅ entryTxSize S hinit htotal hfuel

/-- A pool of three entries: `0` spends `1` and `2`, which spend nothing in
the pool. -/
def twoParentPool : TxMemPool Nat where
  mapTx := {0, 1, 2}
  getIter _ := none
  parents it := if it = 0 then {1, 2} else ∅
  txSize _ := 100
  sizeWithDescendants _ := 200
  countWithDescendants _ := 2
  txHash _ := ""
  getIter_mem _ _ h := by cases h
  parents_subset it := by
    by_cases h : it = 0
    · simp [h]
    · simp [h]

/-- Two limits the call does not enforce: entry `0`, read from the pool's
links, has two ancestors, one more than an ancestor count limit of 2 allows,
and is accepted; a transaction with no input in the pool, of 200000 bytes
against an ancestor size limit of 101000, is accepted. -/
theorem calculateMemPoolAncestors_unchecked_limits :
    twoParentPool.ancestors (.inPool 0) = {1, 2} ∧
      twoParentPool.calculateMemPoolAncestors (.inPool 0) 100 2 101000 25 101000 = .ok {2, 1} ∧
    twoParentPool.ancestors (.search ⟨1, 0, [], [], 0, uint256.zero⟩) = ∅ ∧
      twoParentPool.calculateMemPoolAncestors (.search ⟨1, 0, [], [], 0, uint256.zero⟩) 200000 25
        101000 25 101000 = .ok ∅ := by
  refine ⟨?_, by decide +kernel, ?_, by decide +kernel⟩
  · apply ancestors_eq_of_inv
    refine ⟨by simp, fun a ha => Worklist.Reach.of_mem (by simpa [directParents, twoParentPool] using ha),
      by simp [directParents, twoParentPool], ?_⟩
    decide
  · apply ancestors_eq_of_inv
    refine ⟨by simp, fun a ha => by simp at ha, by simp [directParents], ?_⟩
    simp

end TxMemPool

end Veribase
