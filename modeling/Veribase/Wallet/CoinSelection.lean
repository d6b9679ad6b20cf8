import Veribase.Primitives.Transaction
import Veribase.Lib.StrictSort
import Veribase.Lib.Mask

/-!
# Coin selection: the knapsack solver

`KnapsackSolver` (`wallet/coinselection.cpp`) picks the inputs of a
transaction from groups of outputs.  It shuffles the groups and scans them
once: a group worth exactly the target is returned at once, a group worth
less than the target plus `MIN_CHANGE` is *applicable*, and the least of the
others is kept as `lowest_larger`.  If the applicable groups together are
worth the target they are returned; if they are worth less, `lowest_larger`
is, when there is one.  Otherwise `ApproximateBestSubset` searches the
applicable groups at random for a subset worth at least the target and as
little more as it finds, once for the target and again for the target plus
`MIN_CHANGE`, and the result is weighed against `lowest_larger`.

The randomness is three streams: the results of `randrange` that the shuffle
draws, and the bits that each `ApproximateBestSubset` call draws from its own
`FastRandomContext`.  `std::sort` is any sort that meets its contract
(`StrictSort.SortContract`; `descendingSort` is one).  Every theorem holds
for every stream and every such sort.

`knapsackSolver_pays` is the contract: the solver succeeds exactly when the
groups are worth the target together, and then the coins it returns are the
outputs of some of the groups and the value it returns is what those groups
are worth, at least the target.  It rests on three invariants.

* `ScanHolds`: after each group the scan has collected exactly the
  applicable ones with their total, and `lowest_larger` is one of the others.
* `BestHolds`: the best mask of `ApproximateBestSubset` is as long as the
  groups, `nBest` is what it marks, and that reaches the target.
* `PassHolds`: a pass adds a group only where the mask it builds has none
  yet, so that `nTotal` stays what that mask marks.

Amounts are `CAmount`, an `int64_t`: every sum and difference the solver
computes is taken modulo `2^64` into that range (`int64Wrap`), as the
machine does.  The invariants hold whatever the amounts: a running total is
`int64Wrap` of what it stands for.  The contract asks that the groups be
worth at most `MAX_MONEY` together and that `nTargetValue + MIN_CHANGE` stay
in the range, and only there is a wrapped total the exact one.  For a target
within `MIN_CHANGE` of the largest `int64_t` the bound wraps to a negative
amount, and the solver returns a group worth less than the target
(`knapsack_target_overflow`).
-/

namespace Veribase

open Mask StrictSort

/-! ## `CAmount` arithmetic -/

/-- A sum or difference of `int64_t` amounts: the integer result modulo
`2^64`, in `[-2^63, 2^63)`, the two's complement wrap. -/
def int64Wrap (x : Int) : Int := x.bmod (2 ^ 64)

@[simp] theorem int64Wrap_zero : int64Wrap 0 = 0 := rfl

@[simp] theorem int64Wrap_int64Wrap (x : Int) : int64Wrap (int64Wrap x) = int64Wrap x :=
  Int.bmod_bmod

@[simp] theorem int64Wrap_add_int64Wrap (x y : Int) :
    int64Wrap (x + int64Wrap y) = int64Wrap (x + y) :=
  Int.add_bmod_bmod

@[simp] theorem int64Wrap_int64Wrap_add (x y : Int) :
    int64Wrap (int64Wrap x + y) = int64Wrap (x + y) :=
  Int.bmod_add_bmod

@[simp] theorem int64Wrap_sub_int64Wrap (x y : Int) :
    int64Wrap (x - int64Wrap y) = int64Wrap (x - y) :=
  Int.sub_bmod_bmod

@[simp] theorem int64Wrap_int64Wrap_sub (x y : Int) :
    int64Wrap (int64Wrap x - y) = int64Wrap (x - y) :=
  Int.bmod_sub_bmod

/-- In the range of `int64_t` nothing wraps. -/
theorem int64Wrap_of_range {x : Int} (h : int64Range x) : int64Wrap x = x := by
  obtain ⟨hlo, hhi⟩ := h
  exact Int.bmod_eq_of_le (by norm_num; omega) (by norm_num; omega)

/-- An amount between nothing and `MAX_MONEY` does not wrap. -/
theorem int64Wrap_of_money {x : Int} (h0 : 0 ≤ x) (hmax : x ≤ MAX_MONEY) : int64Wrap x = x :=
  int64Wrap_of_range ⟨by omega, by unfold MAX_MONEY COIN at hmax; omega⟩

/-! ## Groups of outputs -/

/-- `MIN_CHANGE`: the least change a selection aims to leave. -/
def MIN_CHANGE : Int := COIN / 100

theorem MIN_CHANGE_pos : 0 < MIN_CHANGE := by decide

/-- `CInputCoin`, as the outpoint that its order and its equality compare. -/
structure CInputCoin where
  outpoint : COutPoint
deriving DecidableEq

/-- The fields of an `OutputGroup` that coin selection reads. -/
structure OutputGroup where
  m_outputs : List CInputCoin
  m_value : Int
  effective_value : Int
  fee : Int
  long_term_fee : Int
deriving DecidableEq

/-- The comparator `descending`: the larger effective value first. -/
def descending (a b : OutputGroup) : Bool := decide (a.effective_value > b.effective_value)

/-- Insertion sort by effective value, largest first, meets the contract of
`std::sort` with `descending`. -/
def descendingSort : SortContract descending where
  sort v := (v.toList.insertionSort fun a b => b.effective_value ≤ a.effective_value).toArray
  perm v := by
    rw [Array.perm_iff_toList_perm]
    simpa using List.perm_insertionSort _ v.toList
  sorted v := by
    let r : OutputGroup → OutputGroup → Prop := fun a b => b.effective_value ≤ a.effective_value
    have : Std.Total r := ⟨fun a b => le_total b.effective_value a.effective_value⟩
    have : IsTrans OutputGroup r := ⟨fun a b c hab hbc => le_trans hbc hab⟩
    simpa [descending] using List.pairwise_insertionSort r v.toList

/-- `util::insert(setCoinsRet, group.m_outputs)` and `nValueRet += group.m_value`:
what taking one more group adds to the coins and the value returned. -/
def addGroup (ret : Finset CInputCoin × Int) (group : OutputGroup) : Finset CInputCoin × Int :=
  (ret.1 ∪ group.m_outputs.toFinset, int64Wrap (ret.2 + group.m_value))

/-- Taking groups one after another returns their outputs and, wrapped, what
they are worth. -/
theorem foldl_addGroup : ∀ (groups : List OutputGroup) (coins : Finset CInputCoin) (value : Int),
    groups.foldl addGroup (coins, int64Wrap value) =
      (coins ∪ (groups.flatMap (·.m_outputs)).toFinset,
        int64Wrap (value + (groups.map (·.m_value)).sum))
  | [], coins, value => by simp
  | group :: groups, coins, value => by
    simp only [List.foldl_cons, addGroup, int64Wrap_int64Wrap_add]
    rw [foldl_addGroup groups]
    simp [Finset.union_assoc, add_assoc]

/-- From nothing, taking groups returns their outputs and their wrapped value. -/
theorem foldl_addGroup_empty (groups : List OutputGroup) :
    groups.foldl addGroup (∅, 0) =
      ((groups.flatMap (·.m_outputs)).toFinset, int64Wrap (groups.map (·.m_value)).sum) := by
  simpa using foldl_addGroup groups ∅ 0

/-- A selection of groups is worth at most all of them, in any amount that
no group has negative. -/
theorem sum_le_of_subperm (f : OutputGroup → Int) {sel groups : List OutputGroup}
    (hsub : sel.Subperm groups) (hf : ∀ group ∈ groups, 0 ≤ f group) :
    (sel.map f).sum ≤ (groups.map f).sum := by
  obtain ⟨l, hperm, hl⟩ := hsub
  rw [← (hperm.map _).sum_eq]
  exact (hl.map _).sum_le_sum (by simpa using hf)

/-- **No selection overflows.**  When no group has a negative amount and the
groups are worth at most `MAX_MONEY` together, what any selection of them is
worth is an `int64_t` amount, and the wrapped sum is the sum. -/
theorem int64Wrap_sum_of_subperm (f : OutputGroup → Int) {sel groups : List OutputGroup}
    (hsub : sel.Subperm groups) (hf : ∀ group ∈ groups, 0 ≤ f group)
    (hsum : (groups.map f).sum ≤ MAX_MONEY) :
    int64Wrap (sel.map f).sum = (sel.map f).sum := by
  have hnonneg : 0 ≤ (sel.map f).sum :=
    List.sum_nonneg (by simpa using fun g hg => hf g (hsub.subset hg))
  exact int64Wrap_of_money hnonneg ((sum_le_of_subperm f hsub hf).trans hsum)

/-! ## The shuffle -/

section Shuffle

variable {α : Type*}

/-- The loop of `Shuffle(first, last, rng)` from position `k`, for `n` more
positions: position `k` is swapped with position `k + j`, where `j` is the
`k`th result of `rng.randrange(last - first)`. -/
def shuffleLoop (randrange : Nat → Nat) (k : Nat) : Nat → Array α → Array α
  | 0, v => v
  | n + 1, v =>
    let j := randrange k
    shuffleLoop randrange (k + 1) n (if j ≠ 0 then v.swapIfInBounds k (k + j) else v)

/-- `Shuffle(v.begin(), v.end(), rng)`. -/
def shuffle (randrange : Nat → Nat) (v : Array α) : Array α :=
  shuffleLoop randrange 0 v.size v

theorem shuffleLoop_perm (randrange : Nat → Nat) :
    ∀ (k n : Nat) (v : Array α), (shuffleLoop randrange k n v).Perm v
  | _, 0, v => Array.Perm.refl v
  | k, n + 1, v => by
    rw [shuffleLoop]
    refine (shuffleLoop_perm randrange (k + 1) n _).trans ?_
    split
    · exact swapIfInBounds_perm v _ _
    · exact Array.Perm.refl v

/-- Whatever `randrange` returns, the shuffle permutes the groups. -/
theorem shuffle_perm (randrange : Nat → Nat) (l : List α) :
    (shuffle randrange l.toArray).toList.Perm l := by
  have h := shuffleLoop_perm randrange 0 l.toArray.size l.toArray
  rw [Array.perm_iff_toList_perm] at h
  simpa [shuffle] using h

end Shuffle

/-! ## The scan -/

/-- Where the scan of `KnapsackSolver` ends: at a group worth the target, or
with the applicable groups, their total and the least larger group. -/
inductive KnapsackScan where
  /-- A group worth exactly the target. -/
  | exact (group : OutputGroup)
  /-- Every group scanned. -/
  | scanned (applicable_groups : List OutputGroup) (nTotalLower : Int)
      (lowest_larger : Option OutputGroup)

/-- The loop of `KnapsackSolver` over the shuffled groups. -/
def scanGroups (nTargetValue : Int) :
    List OutputGroup → List OutputGroup → Int → Option OutputGroup → KnapsackScan
  | [], applicable_groups, nTotalLower, lowest_larger =>
    .scanned applicable_groups nTotalLower lowest_larger
  | group :: groups, applicable_groups, nTotalLower, lowest_larger =>
    if group.m_value = nTargetValue then .exact group
    else if group.m_value < int64Wrap (nTargetValue + MIN_CHANGE) then
      scanGroups nTargetValue groups (applicable_groups ++ [group])
        (int64Wrap (nTotalLower + group.m_value)) lowest_larger
    else
      -- `!lowest_larger || group.m_value < lowest_larger->m_value`
      scanGroups nTargetValue groups applicable_groups nTotalLower
        (if lowest_larger.all fun l => group.m_value < l.m_value then some group
          else lowest_larger)

section Scan

variable {nTargetValue : Int}

/-- What the scan knows after the groups `seen`: none of them is worth the
target, the applicable ones are collected in order with their wrapped total,
and `lowest_larger` is one of the others, or there are none. -/
structure ScanHolds (nTargetValue : Int) (seen applicable_groups : List OutputGroup)
    (nTotalLower : Int) (lowest_larger : Option OutputGroup) : Prop where
  not_exact : ∀ group ∈ seen, group.m_value ≠ nTargetValue
  applicable : applicable_groups =
    seen.filter fun group => group.m_value < int64Wrap (nTargetValue + MIN_CHANGE)
  total : nTotalLower = int64Wrap (applicable_groups.map (·.m_value)).sum
  larger : ∀ group, lowest_larger = some group →
    group ∈ seen ∧ int64Wrap (nTargetValue + MIN_CHANGE) ≤ group.m_value
  none_larger : lowest_larger = none →
    ∀ group ∈ seen, group.m_value < int64Wrap (nTargetValue + MIN_CHANGE)

theorem ScanHolds.nil : ScanHolds nTargetValue [] [] 0 none :=
  ⟨by simp, rfl, by simp, by simp, by simp⟩

variable {seen applicable_groups : List OutputGroup} {nTotalLower : Int}
  {lowest_larger : Option OutputGroup} {group : OutputGroup}

/-- A group not worth the target keeps every group seen not worth it. -/
theorem ScanHolds.not_exact_snoc
    (h : ScanHolds nTargetValue seen applicable_groups nTotalLower lowest_larger)
    (hne : group.m_value ≠ nTargetValue) : ∀ g ∈ seen ++ [group], g.m_value ≠ nTargetValue := by
  intro g hg
  rcases List.mem_append.mp hg with hg | hg
  · exact h.not_exact g hg
  · rw [List.mem_singleton.mp hg]
    exact hne

/-- An applicable group is collected and counted. -/
theorem ScanHolds.collect (h : ScanHolds nTargetValue seen applicable_groups nTotalLower lowest_larger)
    (hne : group.m_value ≠ nTargetValue)
    (hlt : group.m_value < int64Wrap (nTargetValue + MIN_CHANGE)) :
    ScanHolds nTargetValue (seen ++ [group]) (applicable_groups ++ [group])
      (int64Wrap (nTotalLower + group.m_value)) lowest_larger where
  not_exact := h.not_exact_snoc hne
  applicable := by rw [List.filter_append, h.applicable]; simp [hlt]
  total := by simp [h.total]
  larger g hg := (h.larger g hg).imp_left (List.mem_append_left _)
  none_larger hnone g hg := by
    rcases List.mem_append.mp hg with hg | hg
    · exact h.none_larger hnone g hg
    · rw [List.mem_singleton.mp hg]; exact hlt

/-- A larger group replaces `lowest_larger` when it is worth less, and is
passed over otherwise. -/
theorem ScanHolds.weigh (h : ScanHolds nTargetValue seen applicable_groups nTotalLower lowest_larger)
    (hne : group.m_value ≠ nTargetValue)
    (hge : ¬group.m_value < int64Wrap (nTargetValue + MIN_CHANGE)) :
    ScanHolds nTargetValue (seen ++ [group]) applicable_groups nTotalLower
      (if lowest_larger.all fun l => group.m_value < l.m_value then some group
        else lowest_larger) where
  not_exact := h.not_exact_snoc hne
  applicable := by rw [List.filter_append, h.applicable]; simp [hge]
  total := h.total
  larger g hg := by
    split at hg
    · cases hg
      exact ⟨List.mem_append_right _ (List.mem_singleton_self _), by omega⟩
    · exact (h.larger g hg).imp_left (List.mem_append_left _)
  none_larger hnone := by
    split at hnone
    · cases hnone
    · rename_i hall
      cases lowest_larger <;> simp at hall hnone

/-- **The scan.**  It stops at a group worth the target, or scans every group
keeping `ScanHolds`. -/
theorem ScanHolds.scanGroups
    (h : ScanHolds nTargetValue seen applicable_groups nTotalLower lowest_larger) :
    ∀ rest : List OutputGroup,
    (∃ g ∈ rest, g.m_value = nTargetValue ∧
      Veribase.scanGroups nTargetValue rest applicable_groups nTotalLower lowest_larger = .exact g) ∨
    ∃ app tot ll, Veribase.scanGroups nTargetValue rest applicable_groups nTotalLower lowest_larger =
      .scanned app tot ll ∧ ScanHolds nTargetValue (seen ++ rest) app tot ll := by
  intro rest
  induction rest generalizing seen applicable_groups nTotalLower lowest_larger with
  | nil => exact .inr ⟨_, _, _, rfl, by simpa using h⟩
  | cons g rest ih =>
    rw [Veribase.scanGroups]
    by_cases hexact : g.m_value = nTargetValue
    · exact .inl ⟨g, List.mem_cons_self, hexact, if_pos hexact⟩
    rw [if_neg hexact]
    -- both other branches scan the rest from `seen ++ [g]`
    have hrest : ∀ {app tot ll}, ScanHolds nTargetValue (seen ++ [g]) app tot ll →
        (∃ g' ∈ g :: rest, g'.m_value = nTargetValue ∧
          Veribase.scanGroups nTargetValue rest app tot ll = .exact g') ∨
        ∃ app' tot' ll', Veribase.scanGroups nTargetValue rest app tot ll = .scanned app' tot' ll' ∧
          ScanHolds nTargetValue (seen ++ g :: rest) app' tot' ll' := by
      intro app tot ll h'
      rcases ih h' with ⟨g', hg', hv, hs⟩ | ⟨app', tot', ll', hs, hh⟩
      · exact .inl ⟨g', List.mem_cons_of_mem _ hg', hv, hs⟩
      · exact .inr ⟨app', tot', ll', hs, by simpa using hh⟩
    split
    · exact hrest (h.collect hexact ‹_›)
    · exact hrest (h.weigh hexact ‹_›)

end Scan

/-! ## ApproximateBestSubset -/

/-- The loop state of `ApproximateBestSubset`. -/
structure SubsetSearch where
  vfIncluded : List Bool
  nTotal : Int
  fReachedTarget : Bool
  vfBest : List Bool
  nBest : Int

/-- The body of the inner loop at group `i`, worth `value`, when the pass
takes it: add it, and if that reaches the target keep the total when it is
the best so far, then take the group out again. -/
def SubsetSearch.tryGroup (nTargetValue : Int) (i : Nat) (value : Int) (s : SubsetSearch) :
    SubsetSearch :=
  let nTotal := int64Wrap (s.nTotal + value)
  let vfIncluded := s.vfIncluded.set i true
  if nTotal ≥ nTargetValue then
    { vfIncluded := vfIncluded.set i false
      nTotal := int64Wrap (nTotal - value)
      fReachedTarget := true
      vfBest := if nTotal < s.nBest then vfIncluded else s.vfBest
      nBest := if nTotal < s.nBest then nTotal else s.nBest }
  else { s with vfIncluded, nTotal }

/-- One pass over the groups from group `i` on; `test i vfIncluded[i]` is
the pass's condition (`randbool()` in the first pass, `!vfIncluded[i]` in the
second). -/
def passLoop (nTargetValue : Int) (test : Nat → Bool → Bool) :
    Nat → List OutputGroup → SubsetSearch → SubsetSearch
  | _, [], s => s
  | i, group :: groups, s =>
    passLoop nTargetValue test (i + 1) groups
      (if test i (s.vfIncluded.getD i false) then s.tryGroup nTargetValue i group.m_value else s)

/-- One repetition: the random pass, then, unless it reached the target, the
pass that adds every group left out.  The first pass draws one bit per group,
so repetition `nRep` reads the bits from `nRep * groups.size()` on. -/
def repetition (groups : List OutputGroup) (nTargetValue : Int) (randbool : Nat → Bool)
    (nRep : Nat) (vfBest : List Bool) (nBest : Int) : List Bool × Int :=
  let s : SubsetSearch := ⟨List.replicate groups.length false, 0, false, vfBest, nBest⟩
  let s := passLoop nTargetValue (fun i _ => randbool (nRep * groups.length + i)) 0 groups s
  let s := if s.fReachedTarget then s
    else passLoop nTargetValue (fun _ included => !included) 0 groups s
  (s.vfBest, s.nBest)

/-- `for (nRep = 0; nRep < iterations && nBest != nTargetValue; nRep++)`, from
repetition `nRep` with `n` repetitions left. -/
def repLoop (groups : List OutputGroup) (nTargetValue : Int) (randbool : Nat → Bool) :
    Nat → Nat → List Bool → Int → List Bool × Int
  | _, 0, vfBest, nBest => (vfBest, nBest)
  | nRep, n + 1, vfBest, nBest =>
    if nBest ≠ nTargetValue then
      let best := repetition groups nTargetValue randbool nRep vfBest nBest
      repLoop groups nTargetValue randbool (nRep + 1) n best.1 best.2
    else (vfBest, nBest)

/-- `ApproximateBestSubset(groups, nTotalLower, nTargetValue, vfBest, nBest,
iterations)`, returning `(vfBest, nBest)`; `randbool` is its
`FastRandomContext`. -/
def approximateBestSubset (groups : List OutputGroup) (nTotalLower nTargetValue : Int)
    (randbool : Nat → Bool) (iterations : Nat) : List Bool × Int :=
  repLoop groups nTargetValue randbool 0 iterations (List.replicate groups.length true) nTotalLower

section Subset

variable (groups : List OutputGroup) (nTargetValue : Int)

/-- The best selection so far: as long as the groups, worth `nBest` once
wrapped, and reaching the target. -/
structure BestHolds (vfBest : List Bool) (nBest : Int) : Prop where
  length : vfBest.length = groups.length
  total : nBest = int64Wrap ((maskSelect vfBest groups).map (·.m_value)).sum
  reaches : nTargetValue ≤ nBest

/-- The state of a repetition: the best selection, and the selection being
built, worth `nTotal` once wrapped. -/
structure SearchHolds (s : SubsetSearch) : Prop where
  best : BestHolds groups nTargetValue s.vfBest s.nBest
  length : s.vfIncluded.length = groups.length
  total : s.nTotal = int64Wrap ((maskSelect s.vfIncluded groups).map (·.m_value)).sum

/-- What a pass keeps from group `i` on: no group from `i` on that the pass
may take is in the selection yet. -/
structure PassHolds (test : Nat → Bool → Bool) (i : Nat) (s : SubsetSearch) : Prop
    extends SearchHolds groups nTargetValue s where
  fresh : ∀ j, i ≤ j → test j true = true → s.vfIncluded.getD j false = false

variable {groups nTargetValue}

theorem BestHolds.of_le {nTargetValue' : Int} {vfBest : List Bool} {nBest : Int}
    (h : BestHolds groups nTargetValue vfBest nBest) (hle : nTargetValue' ≤ nTargetValue) :
    BestHolds groups nTargetValue' vfBest nBest :=
  ⟨h.length, h.total, le_trans hle h.reaches⟩

/-- The second pass may take any group left out. -/
theorem SearchHolds.secondPass {s : SubsetSearch} (h : SearchHolds groups nTargetValue s) :
    PassHolds groups nTargetValue (fun _ included => !included) 0 s :=
  ⟨h, by simp⟩

/-- **One step of a pass.**  Trying group `i`, not yet in the selection,
keeps the invariant: the selection it builds is worth `nTotal` plus the
group, and a total that reaches the target is what `vfIncluded` then marks. -/
theorem PassHolds.tryGroup {test : Nat → Bool → Bool} {i : Nat} {s : SubsetSearch}
    (h : PassHolds groups nTargetValue test i s) (hi : i < groups.length)
    (hfalse : s.vfIncluded.getD i false = false) :
    PassHolds groups nTargetValue test (i + 1) (s.tryGroup nTargetValue i groups[i].m_value) := by
  have hm : i < s.vfIncluded.length := h.length ▸ hi
  have hmi : s.vfIncluded[i] = false := by rwa [List.getD_eq_getElem _ _ hm] at hfalse
  have hsum := sum_maskSelect_set_true (·.m_value) s.vfIncluded groups i hm hi hmi
  -- taking the group out again gives back the selection it was added to
  have hrestore : (s.vfIncluded.set i true).set i false = s.vfIncluded := by
    rw [List.set_set, ← hmi, List.set_getElem_self]
  have hfresh : ∀ j, i + 1 ≤ j → test j true = true →
      (s.vfIncluded.set i true).getD j false = false := by
    intro j hj htest
    rw [List.getD_eq_getElem?_getD, List.getElem?_set_ne (by omega), ← List.getD_eq_getElem?_getD]
    exact h.fresh j (by omega) htest
  have hlen : (s.vfIncluded.set i true).length = groups.length := by rw [List.length_set, h.length]
  have htotal : int64Wrap (s.nTotal + groups[i].m_value) =
      int64Wrap ((maskSelect (s.vfIncluded.set i true) groups).map (·.m_value)).sum := by
    rw [hsum, h.total, int64Wrap_int64Wrap_add]
  -- when the total reaches the target the group is taken out again, whatever is kept
  have hback : ∀ {vfBest nBest}, BestHolds groups nTargetValue vfBest nBest →
      PassHolds groups nTargetValue test (i + 1)
        ⟨(s.vfIncluded.set i true).set i false,
          int64Wrap (int64Wrap (s.nTotal + groups[i].m_value) - groups[i].m_value),
          true, vfBest, nBest⟩ :=
    fun hbest => ⟨⟨hbest, by rw [hrestore, h.length], by simp [hrestore, h.total]⟩,
      fun j hj htest => by simpa [hrestore] using h.fresh j (by omega) htest⟩
  rw [SubsetSearch.tryGroup]
  split_ifs with hreach hbetter
  · exact hback ⟨hlen, htotal, hreach⟩
  · exact hback h.best
  · exact ⟨⟨h.best, hlen, htotal⟩, hfresh⟩

/-- **A pass.**  From group `i` to the end, the search keeps its invariant. -/
theorem PassHolds.passLoop {test : Nat → Bool → Bool} :
    ∀ (rest : List OutputGroup) {i : Nat} {s : SubsetSearch}, rest = groups.drop i →
      PassHolds groups nTargetValue test i s →
      SearchHolds groups nTargetValue (Veribase.passLoop nTargetValue test i rest s)
  | [], _, _, _, h => h.toSearchHolds
  | group :: rest, i, s, hrest, h => by
    have hi : i < groups.length := by
      by_contra hi
      rw [List.drop_eq_nil_of_le (by omega)] at hrest
      cases hrest
    rw [List.drop_eq_getElem_cons hi, List.cons.injEq] at hrest
    obtain ⟨rfl, hrest⟩ := hrest
    rw [Veribase.passLoop]
    refine PassHolds.passLoop rest hrest ?_
    split
    · rename_i htest
      -- the pass takes group `i` only when it is not in the selection yet
      cases hinc : s.vfIncluded.getD i false
      · exact h.tryGroup hi hinc
      · rw [hinc] at htest
        have := h.fresh i le_rfl htest
        rw [hinc] at this
        cases this
    · exact ⟨h.toSearchHolds, fun j hj => h.fresh j (by omega)⟩

/-- A repetition keeps the best selection. -/
theorem BestHolds.repetition (randbool : Nat → Bool) (nRep : Nat) {vfBest : List Bool}
    {nBest : Int} (h : BestHolds groups nTargetValue vfBest nBest) :
    BestHolds groups nTargetValue (Veribase.repetition groups nTargetValue randbool nRep vfBest nBest).1
      (Veribase.repetition groups nTargetValue randbool nRep vfBest nBest).2 := by
  have hstart : PassHolds groups nTargetValue (fun i _ => randbool (nRep * groups.length + i)) 0
      ⟨List.replicate groups.length false, 0, false, vfBest, nBest⟩ :=
    ⟨⟨h, by simp, by simp [maskSelect_replicate_false]⟩,
      fun j _ _ => by
        rw [List.getD_eq_getElem?_getD, List.getElem?_replicate]
        split <;> rfl⟩
  have hfirst := hstart.passLoop groups (by simp)
  rw [Veribase.repetition]
  split
  · exact hfirst.best
  · exact (hfirst.secondPass.passLoop groups (by simp)).best

/-- The repetitions keep the best selection. -/
theorem BestHolds.repLoop (randbool : Nat → Bool) :
    ∀ (nRep n : Nat) {vfBest : List Bool} {nBest : Int}, BestHolds groups nTargetValue vfBest nBest →
      BestHolds groups nTargetValue (Veribase.repLoop groups nTargetValue randbool nRep n vfBest nBest).1
        (Veribase.repLoop groups nTargetValue randbool nRep n vfBest nBest).2
  | _, 0, _, _, h => h
  | nRep, n + 1, _, _, h => by
    rw [Veribase.repLoop]
    split
    · exact BestHolds.repLoop randbool (nRep + 1) n (h.repetition randbool nRep)
    · exact h

/-- **ApproximateBestSubset.**  Started from every group, worth
`nTotalLower`, it ends on a selection of the groups worth `nBest`, at least
the target. -/
theorem approximateBestSubset_best (randbool : Nat → Bool) (iterations : Nat) {nTotalLower : Int}
    (htotal : nTotalLower = int64Wrap (groups.map (·.m_value)).sum)
    (hreach : nTargetValue ≤ nTotalLower) :
    BestHolds groups nTargetValue
      (approximateBestSubset groups nTotalLower nTargetValue randbool iterations).1
      (approximateBestSubset groups nTotalLower nTargetValue randbool iterations).2 :=
  BestHolds.repLoop randbool 0 iterations
    ⟨by simp, by rw [maskSelect_replicate_true, htotal], hreach⟩

end Subset

/-! ## KnapsackSolver -/

/-- The end of `KnapsackSolver`: `lowest_larger` when the search found no
subset close enough to the target or `lowest_larger` is worth no more than the
best one, and otherwise the groups the best mask marks. -/
def knapsackChoose (nTargetValue : Int) (applicable_groups : List OutputGroup)
    (lowest_larger : Option OutputGroup) (best : List Bool × Int) : Bool × Finset CInputCoin × Int :=
  match lowest_larger with
  | some group =>
    if (best.2 ≠ nTargetValue ∧ best.2 < int64Wrap (nTargetValue + MIN_CHANGE)) ∨
        group.m_value ≤ best.2 then
      (true, addGroup (∅, 0) group)
    else (true, (maskSelect best.1 applicable_groups).foldl addGroup (∅, 0))
  | none => (true, (maskSelect best.1 applicable_groups).foldl addGroup (∅, 0))

/-- The stochastic approximation of `KnapsackSolver`, when the applicable
groups are worth more than the target together: sort them, search for the
target and, unless that hit it, for the target plus `MIN_CHANGE`. -/
def knapsackApproximate (S : SortContract descending) (randbool₁ randbool₂ : Nat → Bool)
    (nTargetValue : Int) (applicable_groups : List OutputGroup) (nTotalLower : Int)
    (lowest_larger : Option OutputGroup) : Bool × Finset CInputCoin × Int :=
  let applicable_groups := (S.sort applicable_groups.toArray).toList
  let best := approximateBestSubset applicable_groups nTotalLower nTargetValue randbool₁ 1000
  let best := if best.2 ≠ nTargetValue ∧ nTotalLower ≥ int64Wrap (nTargetValue + MIN_CHANGE) then
      approximateBestSubset applicable_groups nTotalLower (int64Wrap (nTargetValue + MIN_CHANGE))
        randbool₂ 1000
    else best
  knapsackChoose nTargetValue applicable_groups lowest_larger best

/-- `KnapsackSolver(nTargetValue, groups, setCoinsRet, nValueRet)`, returning
the result with `setCoinsRet` and `nValueRet`.  `randrange` is the shuffle's
`FastRandomContext`, `randbool₁` and `randbool₂` those of the two
`ApproximateBestSubset` calls. -/
def knapsackSolver (S : SortContract descending) (randrange : Nat → Nat)
    (randbool₁ randbool₂ : Nat → Bool) (nTargetValue : Int) (groups : List OutputGroup) :
    Bool × Finset CInputCoin × Int :=
  match scanGroups nTargetValue (shuffle randrange groups.toArray).toList [] 0 none with
  | .exact group => (true, addGroup (∅, 0) group)
  | .scanned applicable_groups nTotalLower lowest_larger =>
    if nTotalLower = nTargetValue then (true, applicable_groups.foldl addGroup (∅, 0))
    else if nTotalLower < nTargetValue then
      match lowest_larger with
      | none => (false, ∅, 0)
      | some group => (true, addGroup (∅, 0) group)
    else knapsackApproximate S randbool₁ randbool₂ nTargetValue applicable_groups nTotalLower
      lowest_larger

section Solver

variable {nTargetValue : Int} {pool : List OutputGroup}

/-- A selection of the groups `pool` that pays the target, returned as the
solver returns it. -/
def Pays (nTargetValue : Int) (pool : List OutputGroup) (ret : Bool × Finset CInputCoin × Int) :
    Prop :=
  ∃ sel : List OutputGroup, sel.Subperm pool ∧ nTargetValue ≤ (sel.map (·.m_value)).sum ∧
    ret = (true, sel.foldl addGroup (∅, 0))

/-- One larger group pays. -/
theorem pays_single {group : OutputGroup} (hmem : group ∈ pool)
    (hle : nTargetValue ≤ group.m_value) : Pays nTargetValue pool (true, addGroup (∅, 0) group) :=
  ⟨[group], (List.singleton_sublist.mpr hmem).subperm, by simpa using hle, rfl⟩

/-- The end of the solver pays, from a best mask that reaches the target or
from `lowest_larger`. -/
theorem knapsackChoose_pays {applicable_groups : List OutputGroup}
    {lowest_larger : Option OutputGroup} {best : List Bool × Int}
    (hvalue : ∀ group ∈ pool, 0 ≤ group.m_value) (hsum : (pool.map (·.m_value)).sum ≤ MAX_MONEY)
    (happ : applicable_groups.Subperm pool)
    (hbest : BestHolds applicable_groups nTargetValue best.1 best.2)
    (hlarger : ∀ group, lowest_larger = some group →
      group ∈ pool ∧ nTargetValue + MIN_CHANGE ≤ group.m_value) :
    Pays nTargetValue pool (knapsackChoose nTargetValue applicable_groups lowest_larger best) := by
  have hsel := (maskSelect_sublist best.1 applicable_groups).subperm.trans happ
  have hmarked : Pays nTargetValue pool
      (true, (maskSelect best.1 applicable_groups).foldl addGroup (∅, 0)) := by
    refine ⟨_, hsel, ?_, rfl⟩
    -- what the best mask marks does not wrap, so `nBest` is what it is worth
    rw [← int64Wrap_sum_of_subperm _ hsel hvalue hsum, ← hbest.total]
    exact hbest.reaches
  unfold knapsackChoose
  cases lowest_larger with
  | none => exact hmarked
  | some group =>
    obtain ⟨hmem, hge⟩ := hlarger group rfl
    dsimp only
    split
    · exact pays_single hmem (by linarith [MIN_CHANGE_pos])
    · exact hmarked

/-- **The stochastic branch pays.**  Whichever selection it keeps, the best
mask of either search or `lowest_larger`, it is worth at least the target. -/
theorem knapsackApproximate_pays (S : SortContract descending) (randbool₁ randbool₂ : Nat → Bool)
    {applicable_groups : List OutputGroup} {nTotalLower : Int} {lowest_larger : Option OutputGroup}
    (hvalue : ∀ group ∈ pool, 0 ≤ group.m_value) (hsum : (pool.map (·.m_value)).sum ≤ MAX_MONEY)
    (hbound : int64Wrap (nTargetValue + MIN_CHANGE) = nTargetValue + MIN_CHANGE)
    (happ : applicable_groups.Sublist pool)
    (htotal : nTotalLower = int64Wrap (applicable_groups.map (·.m_value)).sum)
    (hmore : nTargetValue < nTotalLower)
    (hlarger : ∀ group, lowest_larger = some group →
      group ∈ pool ∧ nTargetValue + MIN_CHANGE ≤ group.m_value) :
    Pays nTargetValue pool (knapsackApproximate S randbool₁ randbool₂ nTargetValue
      applicable_groups nTotalLower lowest_larger) := by
  have hsorted : (S.sort applicable_groups.toArray).toList.Perm applicable_groups := by
    have h := S.perm applicable_groups.toArray
    rw [Array.perm_iff_toList_perm] at h
    simpa using h
  have hsub := hsorted.subperm.trans happ.subperm
  have htotal' : nTotalLower =
      int64Wrap ((S.sort applicable_groups.toArray).toList.map (·.m_value)).sum := by
    rw [htotal, (hsorted.map _).sum_eq]
  unfold knapsackApproximate
  dsimp only
  split
  · -- the second search, for the target plus `MIN_CHANGE`, is kept
    rename_i hsecond
    have hle : nTargetValue ≤ int64Wrap (nTargetValue + MIN_CHANGE) := by
      rw [hbound]; linarith [MIN_CHANGE_pos]
    exact knapsackChoose_pays hvalue hsum hsub
      ((approximateBestSubset_best randbool₂ 1000 htotal' hsecond.2).of_le hle) hlarger
  · exact knapsackChoose_pays hvalue hsum hsub
      (approximateBestSubset_best randbool₁ 1000 htotal' hmore.le) hlarger

/-- A selection that pays from one pool pays from any permutation of it. -/
theorem Pays.of_perm {pool' : List OutputGroup} {ret : Bool × Finset CInputCoin × Int}
    (h : Pays nTargetValue pool ret) (hperm : pool.Perm pool') : Pays nTargetValue pool' ret :=
  let ⟨sel, hsub, hreach, hret⟩ := h
  ⟨sel, hsub.trans hperm.subperm, hreach, hret⟩

/-- **Every run of the solver** on groups worth at most `MAX_MONEY`, with a
bound `nTargetValue + MIN_CHANGE` that does not wrap, returns a selection of
the groups that pays the target, or fails on groups that cannot pay it
together. -/
theorem knapsackSolver_pays_or_fails (S : SortContract descending) (randrange : Nat → Nat)
    (randbool₁ randbool₂ : Nat → Bool) (nTargetValue : Int) (groups : List OutputGroup)
    (hvalue : ∀ group ∈ groups, 0 ≤ group.m_value)
    (hsum : (groups.map (·.m_value)).sum ≤ MAX_MONEY)
    (hbound : int64Wrap (nTargetValue + MIN_CHANGE) = nTargetValue + MIN_CHANGE) :
    Pays nTargetValue groups (knapsackSolver S randrange randbool₁ randbool₂ nTargetValue groups) ∨
    ((groups.map (·.m_value)).sum < nTargetValue ∧
      knapsackSolver S randrange randbool₁ randbool₂ nTargetValue groups = (false, ∅, 0)) := by
  set shuffled := (shuffle randrange groups.toArray).toList with hshuffled_def
  have hperm : shuffled.Perm groups := shuffle_perm randrange groups
  have hvalue' : ∀ group ∈ shuffled, 0 ≤ group.m_value := fun g hg => hvalue g (hperm.subset hg)
  have hsum' : (shuffled.map (·.m_value)).sum ≤ MAX_MONEY := by rwa [(hperm.map _).sum_eq]
  rw [knapsackSolver, ← hshuffled_def]
  rcases ScanHolds.nil.scanGroups shuffled with ⟨group, hmem, hval, hscan⟩ |
    ⟨applicable_groups, nTotalLower, lowest_larger, hscan, hholds⟩
  · rw [hscan]
    exact .inl ((pays_single hmem hval.ge).of_perm hperm)
  rw [hscan]
  rw [List.nil_append] at hholds
  have happ : applicable_groups.Sublist shuffled := hholds.applicable ▸ List.filter_sublist
  -- the total of the applicable groups does not wrap
  have htotal : nTotalLower = (applicable_groups.map (·.m_value)).sum := by
    rw [hholds.total, int64Wrap_sum_of_subperm _ happ.subperm hvalue' hsum']
  have hlarger : ∀ group, lowest_larger = some group →
      group ∈ shuffled ∧ nTargetValue + MIN_CHANGE ≤ group.m_value := by
    rw [← hbound]
    exact hholds.larger
  dsimp only
  split_ifs with hexact hless
  · -- the applicable groups are worth the target together
    exact .inl (Pays.of_perm ⟨applicable_groups, happ.subperm,
      by rw [← htotal, hexact], rfl⟩ hperm)
  · cases hll : lowest_larger with
    | none =>
      -- without a larger group every group is applicable, and together they fall short
      have hall : applicable_groups = shuffled := by
        rw [hholds.applicable, List.filter_eq_self]
        simpa using hholds.none_larger hll
      refine .inr ⟨?_, rfl⟩
      rw [← (hperm.map _).sum_eq, ← hall, ← htotal]
      omega
    | some group =>
      obtain ⟨hmem, hge⟩ := hlarger group hll
      exact .inl ((pays_single hmem (by linarith [MIN_CHANGE_pos])).of_perm hperm)
  · exact .inl ((knapsackApproximate_pays S randbool₁ randbool₂ hvalue' hsum' hbound happ
      hholds.total (by omega) hlarger).of_perm hperm)

end Solver

/-- **KnapsackSolver pays exactly when the groups can.**  For groups with no
negative value worth at most `MAX_MONEY` together, every `int64_t` target
whose sum with `MIN_CHANGE` stays in the range, every outcome of the shuffle
and of both searches and every sort that meets the contract of `descending`:
the solver succeeds if and only if the groups are worth the target together,
and then `setCoinsRet` is the set of outputs of some of the groups,
`nValueRet` is what those groups are worth, and that is at least the
target. -/
theorem knapsackSolver_pays (S : SortContract descending) (randrange : Nat → Nat)
    (randbool₁ randbool₂ : Nat → Bool) (nTargetValue : Int) {groups : List OutputGroup}
    (hvalue : ∀ group ∈ groups, 0 ≤ group.m_value)
    (hsum : (groups.map (·.m_value)).sum ≤ MAX_MONEY)
    (htarget : int64Range nTargetValue) (hchange : nTargetValue + MIN_CHANGE < 2 ^ 63) :
    let ret := knapsackSolver S randrange randbool₁ randbool₂ nTargetValue groups
    (ret.1 = true ↔ nTargetValue ≤ (groups.map (·.m_value)).sum) ∧
    (ret.1 = true → ∃ sel : List OutputGroup, sel.Subperm groups ∧
      ret.2.1 = (sel.flatMap (·.m_outputs)).toFinset ∧ ret.2.2 = (sel.map (·.m_value)).sum ∧
      nTargetValue ≤ ret.2.2) := by
  intro ret
  -- the bound the scan compares with is an `int64_t` amount
  have hbound : int64Wrap (nTargetValue + MIN_CHANGE) = nTargetValue + MIN_CHANGE :=
    int64Wrap_of_range ⟨by linarith [htarget.1, MIN_CHANGE_pos], hchange⟩
  rcases knapsackSolver_pays_or_fails S randrange randbool₁ randbool₂ nTargetValue groups hvalue
    hsum hbound with ⟨sel, hsub, hreach, hret⟩ | ⟨hless, hret⟩
  · have hle := sum_le_of_subperm (·.m_value) hsub hvalue
    rw [foldl_addGroup_empty, int64Wrap_sum_of_subperm _ hsub hvalue hsum] at hret
    simp only [ret, hret, true_iff]
    exact ⟨le_trans hreach hle, fun _ => ⟨sel, hsub, rfl, rfl, hreach⟩⟩
  · simp only [ret, hret, Bool.false_eq_true, false_iff, false_implies, and_true]
    omega

/-- The contract on two groups, the first worth the target. -/
theorem knapsackSolver_pays_two_groups :
    (∀ group ∈ [⟨[], 3, 3, 0, 0⟩, ⟨[], 5, 5, 0, 0⟩], 0 ≤ OutputGroup.m_value group) ∧
    ([⟨[], 3, 3, 0, 0⟩, ⟨[], 5, 5, 0, 0⟩].map OutputGroup.m_value).sum ≤ MAX_MONEY ∧
    int64Range 3 ∧ 3 + MIN_CHANGE < 2 ^ 63 ∧
    let ret := knapsackSolver descendingSort (fun _ => 0) (fun _ => true) (fun _ => true) 3
      [⟨[], 3, 3, 0, 0⟩, ⟨[], 5, 5, 0, 0⟩]
    (ret.1 = true ↔ 3 ≤ ([⟨[], 3, 3, 0, 0⟩, ⟨[], 5, 5, 0, 0⟩].map OutputGroup.m_value).sum) ∧
    (ret.1 = true → ∃ sel : List OutputGroup,
      sel.Subperm [⟨[], 3, 3, 0, 0⟩, ⟨[], 5, 5, 0, 0⟩] ∧
      ret.2.1 = (sel.flatMap (·.m_outputs)).toFinset ∧ ret.2.2 = (sel.map (·.m_value)).sum ∧
      3 ≤ ret.2.2) := by
  have hvalue : ∀ group ∈ [(⟨[], 3, 3, 0, 0⟩ : OutputGroup), ⟨[], 5, 5, 0, 0⟩],
      0 ≤ group.m_value := by decide
  have hsum : ([(⟨[], 3, 3, 0, 0⟩ : OutputGroup), ⟨[], 5, 5, 0, 0⟩].map OutputGroup.m_value).sum ≤
      MAX_MONEY := by unfold MAX_MONEY COIN; decide
  have htarget : int64Range 3 := by unfold int64Range; decide
  have hchange : (3 : Int) + MIN_CHANGE < 2 ^ 63 := by unfold MIN_CHANGE COIN; decide
  exact ⟨hvalue, hsum, htarget, hchange,
    knapsackSolver_pays descendingSort _ _ _ 3 hvalue hsum htarget hchange⟩

/-- With the largest `int64_t` target, `nTargetValue + MIN_CHANGE` wraps to a
negative amount.  The one group, worth `1`, is then not applicable but
larger, the applicable groups are worth nothing, and the solver returns that
group: it succeeds with less than the target, whatever the sort and the
outcomes of the searches, on positive values far below `MAX_MONEY`. -/
theorem knapsack_target_overflow :
    ∃ nTargetValue : Int, ∃ groups : List OutputGroup,
      0 < nTargetValue ∧ int64Range nTargetValue ∧ (∀ group ∈ groups, 0 < group.m_value) ∧
      (groups.map (·.m_value)).sum ≤ MAX_MONEY ∧ (groups.map (·.m_value)).sum < nTargetValue ∧
      ∀ (S : SortContract descending) (randbool₁ randbool₂ : Nat → Bool),
        knapsackSolver S (fun _ => 0) randbool₁ randbool₂ nTargetValue groups = (true, ∅, 1) :=
  ⟨2 ^ 63 - 1, [⟨[], 1, 1, 0, 0⟩], by decide, by unfold int64Range; decide, by decide,
    by unfold MAX_MONEY COIN; decide, by decide, fun _ _ _ => rfl⟩

end Veribase
