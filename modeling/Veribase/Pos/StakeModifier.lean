import Veribase.Chain.BlockIndex
import Veribase.Consensus.Params
import Veribase.Lib.StrictSort

/-!
# The stake modifier

`ComputeNextStakeModifier` (`pos.cpp`) gives each block the 64-bit modifier
that later kernels hash.  When the previous block opens a new modifier
interval, it collects the blocks of the last selection interval as
`(time, hash)` candidates, shuffles them with `GetRand`, sorts them, and runs
64 rounds of `SelectBlockFromCandidates`; each round contributes the entropy
bit of the block it selects.

The shuffle is random and `std::sort` is unstable, yet every node must agree
on the modifier.  They do because the comparator of the `sort` call, the
timestamp and then the eight 32-bit words of the hash from the most
significant, is a strict total order on `(time, hash)` pairs
(`candidateLess_irrefl`, `candidateLess_trans`, `candidateLess_trichotomous`).
`std::sort` is modelled by its contract (`SortContract`): any function
returning a sorted permutation.  A total order leaves one sorted permutation,
so the sorted candidates do not depend on the shuffle
(`sortedCandidates_rand`), and neither does anything computed from them
(`computeNextStakeModifier_rand`).

Each round selects what a plain description says (`RoundChoice`): of the
candidates not selected before and no later than the round's stop, the first
with the least selection hash, or the first unselected candidate when none is
that early.  The loop reaches it in two phases: before anything is selected it
skips selected candidates and takes the first other one, whatever its time
(`selectLoop_skip`, `selectLoop_first`); after, it scans up to the stop for a
strictly smaller hash (`selectLoop_selected`), which ends on the first least
one (`scanBest_isFirstMin`).  On sorted, distinct candidates all in the block
index, every one of the `min(64, N)` rounds succeeds, the selected blocks are
distinct, and the modifier is their entropy bits in round order
(`selectionRounds_choices`, with the record of the rounds in `RoundsSoFar`).

Walks along `pprev` are bounded by a fuel argument: callers pass
`nHeight + 1`, the number of blocks from an entry back to genesis.
-/

namespace Veribase

open StrictSort ByteStream

/-! ## Selection intervals -/

/-- `GetStakeModifierSelectionIntervalSection(nSection)`, for the sections
`0 ≤ nSection < 64` the rounds use. -/
def getStakeModifierSelectionIntervalSection (params : Params) (nSection : Nat) : Int :=
  (params.nModifierInterval * 63).tdiv (63 + (63 - (nSection : Int)) * ( MODIFIER_INTERVAL_RATIO - 1))

/-- `GetStakeModifierSelectionInterval()`: the 64 sections together. -/
def getStakeModifierSelectionInterval (params : Params) : Int :=
  ((List.range 64).map (getStakeModifierSelectionIntervalSection params)).sum

/-! ## The last modifier -/

/-- `GetLastStakeModifier(pindex, nStakeModifier, nModifierTime)`: walk back
while the block has a predecessor and generated no modifier, then return the
modifier and time of the block reached, or fail if it generated none. -/
def getLastStakeModifier (m : BlockMap) : Nat → CBlockIndex → Option (UInt64 × Int)
  | 0, _ => none
  | fuel + 1, pindex =>
      match m.prev pindex with
      | some pprev =>
          if !pindex.generatedStakeModifier then getLastStakeModifier m fuel pprev
          else some (pindex.nStakeModifier, pindex.getBlockTime)
      | none =>
          if pindex.generatedStakeModifier then some (pindex.nStakeModifier, pindex.getBlockTime)
          else none

/-! ## Candidates and their order -/

/-- The candidate loop: push `(GetBlockTime(), GetBlockHash())` and step to
`pprev` while the block is no older than `nSelectionIntervalStart`. -/
def collectCandidates (m : BlockMap) (nSelectionIntervalStart : Int) :
    Nat → Option CBlockIndex → Array (Int × uint256) → Array (Int × uint256)
  | 0, _, v => v
  | _ + 1, none, v => v
  | fuel + 1, some pindex, v =>
      if pindex.getBlockTime ≥ nSelectionIntervalStart then
        collectCandidates m nSelectionIntervalStart fuel (m.prev pindex)
          (v.push (pindex.getBlockTime, pindex.getBlockHash))
      else v

/-- The comparator of the `sort` call: timestamps, then the words of the
block hashes from `pa[7]` down to `pa[0]`. -/
def candidateLess (a b : Int × uint256) : Bool :=
  if a.1 ≠ b.1 then decide (a.1 < b.1) else lexLt a.2.getDataPtr b.2.getDataPtr 8

theorem candidateLess_irrefl (a : Int × uint256) : candidateLess a a = false := by
  simp [candidateLess, lexLt_irrefl]

theorem candidateLess_trans {a b c : Int × uint256} (hab : candidateLess a b = true)
    (hbc : candidateLess b c = true) : candidateLess a c = true := by
  unfold candidateLess at hab hbc ⊢
  by_cases h1 : a.1 = b.1 <;> by_cases h2 : b.1 = c.1
  · -- one timestamp: the hash words decide all three comparisons
    rw [if_neg (not_not.2 h1)] at hab
    rw [if_neg (not_not.2 h2)] at hbc
    rw [if_neg (not_not.2 (h1.trans h2))]
    exact lexLt_trans _ _ _ 8 hab hbc
  · rw [if_pos h2, decide_eq_true_eq] at hbc
    rw [h1, if_pos h2, decide_eq_true_eq]
    exact hbc
  · rw [if_pos h1, decide_eq_true_eq] at hab
    rw [← h2, if_pos h1, decide_eq_true_eq]
    exact hab
  · rw [if_pos h1, decide_eq_true_eq] at hab
    rw [if_pos h2, decide_eq_true_eq] at hbc
    have hac : a.1 < c.1 := Int.lt_trans hab hbc
    rw [if_pos (Int.ne_of_lt hac), decide_eq_true_eq]
    exact hac

/-- The comparator separates any two distinct candidates: a tie on the time
and on all eight words is a tie on the hash. -/
theorem candidateLess_trichotomous : Trichotomous candidateLess := by
  intro a b
  unfold candidateLess
  by_cases ht : a.1 = b.1
  · simp only [ht, ne_eq, not_true_eq_false, if_false]
    rcases lexLt_trichotomy a.2.getDataPtr b.2.getDataPtr 8 with h | h | h
    · exact Or.inl h
    · exact Or.inr (Or.inl h)
    · exact Or.inr (Or.inr (Prod.ext ht (uint256.eq_of_getDataPtr h)))
  · have ht' : ¬ b.1 = a.1 := fun h => ht h.symm
    simp only [ht, ht', ne_eq, not_false_eq_true, if_true, decide_eq_true_eq]
    rcases Int.lt_or_gt_of_ne ht with h | h
    · exact Or.inl h
    · exact Or.inr (Or.inl h)

/-- The shuffle `for (i = size - 1; i > 1; --i) swap(v[i], v[GetRand(i)])`
followed by `std::sort` with `candidateLess`. -/
def sortedCandidates (rand : Nat → Nat) (S : SortContract candidateLess)
    (v : Array (Int × uint256)) : Array (Int × uint256) :=
  S.sort (swapLoop rand 1 (v.size - 1) v)

/-- **The sorted candidates do not depend on the shuffle.** -/
theorem sortedCandidates_rand (rand rand' : Nat → Nat) (S : SortContract candidateLess)
    (v : Array (Int × uint256)) : sortedCandidates rand S v = sortedCandidates rand' S v :=
  S.sort_eq_of_perm candidateLess_trichotomous
    ((swapLoop_perm rand 1 _ v).trans (swapLoop_perm rand' 1 _ v).symm)

/-! ## Selection rounds -/

/-- The selection hash: the hash of the block's proof hash and the previous
modifier, divided by `2^32` for a proof-of-stake block so that stake blocks
win over work blocks. -/
def selectionHash (H : Hashers) (pindex : CBlockIndex) (nStakeModifierPrev : UInt64) : Nat :=
  let hashProof := if pindex.isProofOfStake then pindex.hashProofOfStake else pindex.getBlockHash
  let hashSelection :=
    (H.Hash (hashProof.data ++ leBytes 8 nStakeModifierPrev.toNat)).uintToArith256
  if pindex.isProofOfStake then hashSelection >>> 32 else hashSelection

/-- The loop of `SelectBlockFromCandidates` with its state `(fSelected,
hashBest, pindexSelected)`: `none` is the error return on a candidate missing
from the block index, and a later block past the interval stops the loop. -/
def selectLoop (H : Hashers) (m : BlockMap) (mapSelectedBlocks : List uint256)
    (nSelectionIntervalStop : Int) (nStakeModifierPrev : UInt64) :
    List (Int × uint256) → Bool × Nat × Option CBlockIndex →
      Option (Bool × Nat × Option CBlockIndex)
  | [], st => some st
  | item :: rest, (fSelected, hashBest, pindexSelected) =>
      match m item.2 with
      | none => none
      | some pindex =>
          if fSelected && pindex.getBlockTime > nSelectionIntervalStop then
            some (fSelected, hashBest, pindexSelected)
          else if mapSelectedBlocks.contains pindex.getBlockHash then
            selectLoop H m mapSelectedBlocks nSelectionIntervalStop nStakeModifierPrev rest
              (fSelected, hashBest, pindexSelected)
          else
            let hashSelection := selectionHash H pindex nStakeModifierPrev
            if fSelected && hashSelection < hashBest then
              selectLoop H m mapSelectedBlocks nSelectionIntervalStop nStakeModifierPrev rest
                (true, hashSelection, some pindex)
            else if !fSelected then
              selectLoop H m mapSelectedBlocks nSelectionIntervalStop nStakeModifierPrev rest
                (true, hashSelection, some pindex)
            else
              selectLoop H m mapSelectedBlocks nSelectionIntervalStop nStakeModifierPrev rest
                (fSelected, hashBest, pindexSelected)

/-- `SelectBlockFromCandidates(...)`: the selected block, or `none` when the
function returns false. -/
def selectBlockFromCandidates (H : Hashers) (m : BlockMap)
    (vSortedByTimestamp : Array (Int × uint256)) (mapSelectedBlocks : List uint256)
    (nSelectionIntervalStop : Int) (nStakeModifierPrev : UInt64) : Option CBlockIndex :=
  match selectLoop H m mapSelectedBlocks nSelectionIntervalStop nStakeModifierPrev
      vSortedByTimestamp.toList (false, 0, none) with
  | some (true, _, pindexSelected) => pindexSelected
  | _ => none

/-- Rounds `nRound, nRound + 1, …` of the selection, `k` of them, over the
state `(nStakeModifierNew, nSelectionIntervalStop, mapSelectedBlocks)`. -/
def selectionRounds (H : Hashers) (params : Params) (m : BlockMap)
    (vSortedByTimestamp : Array (Int × uint256)) (nStakeModifier : UInt64) :
    Nat → Nat → UInt64 × Int × List uint256 → Option (UInt64 × Int × List uint256)
  | _, 0, st => some st
  | nRound, k + 1, (nStakeModifierNew, nSelectionIntervalStop, mapSelectedBlocks) =>
      let stop := nSelectionIntervalStop + getStakeModifierSelectionIntervalSection params nRound
      match selectBlockFromCandidates H m vSortedByTimestamp mapSelectedBlocks stop
          nStakeModifier with
      | none => none
      | some pindex =>
          selectionRounds H params m vSortedByTimestamp nStakeModifier (nRound + 1) k
            (nStakeModifierNew ||| (pindex.getStakeEntropyBit.toUInt64 <<< nRound.toUInt64),
              stop, pindex.getBlockHash :: mapSelectedBlocks)

/-! ## The next modifier -/

/-- `ComputeNextStakeModifier(pindexCurrent, nStakeModifier,
fGeneratedStakeModifier)`: `none` for the error returns, otherwise the
modifier and whether this block generated it.  `rand i` is what `GetRand(i)`
returns to the shuffle, and `S` is `std::sort`. -/
def computeNextStakeModifier (H : Hashers) (params : Params) (m : BlockMap)
    (rand : Nat → Nat) (S : SortContract candidateLess) (pindexCurrent : CBlockIndex) :
    Option (UInt64 × Bool) :=
  match m.prev pindexCurrent with
  | none => some (0, true)
  | some pindexPrev =>
      match getLastStakeModifier m (pindexPrev.nHeight.toNat + 1) pindexPrev with
      | none => none
      | some (nStakeModifier, nModifierTime) =>
          -- not a new interval: keep the current modifier
          if nModifierTime.tdiv params.nModifierInterval ≥
              pindexPrev.getBlockTime.tdiv params.nModifierInterval then
            some (nStakeModifier, false)
          else
            let nSelectionIntervalStart :=
              pindexPrev.getBlockTime.tdiv params.nModifierInterval * params.nModifierInterval -
                getStakeModifierSelectionInterval params
            let vCandidates := collectCandidates m nSelectionIntervalStart
              (pindexPrev.nHeight.toNat + 1) (some pindexPrev) #[]
            let vSorted := sortedCandidates rand S vCandidates
            match selectionRounds H params m vSorted nStakeModifier 0 (min 64 vSorted.size)
                (0, nSelectionIntervalStart, []) with
            | none => none
            | some (nStakeModifierNew, _, _) => some (nStakeModifierNew, true)

/-- **The stake modifier is deterministic.**  Two runs of
`ComputeNextStakeModifier` on the same block index that differ only in what
`GetRand` returns to the shuffle return the same success flag, modifier and
generation flag. -/
theorem computeNextStakeModifier_rand (H : Hashers) (params : Params) (m : BlockMap)
    (rand₁ rand₂ : Nat → Nat) (S : SortContract candidateLess) (pindexCurrent : CBlockIndex) :
    computeNextStakeModifier H params m rand₁ S pindexCurrent =
      computeNextStakeModifier H params m rand₂ S pindexCurrent := by
  simp only [computeNextStakeModifier, sortedCandidates_rand rand₁ rand₂ S]

/-! ## What a round selects -/

/-- The candidate pair `(GetBlockTime(), GetBlockHash())` of a block. -/
def candidateOf (p : CBlockIndex) : Int × uint256 := (p.getBlockTime, p.getBlockHash)

/-- The candidates not yet in `mapSelectedBlocks`, in order. -/
def unselectedOf (mapSelectedBlocks : List uint256) (ps : List CBlockIndex) : List CBlockIndex :=
  ps.filter fun p => !mapSelectedBlocks.contains p.getBlockHash

section Round

variable (H : Hashers) (m : BlockMap) (mapSelectedBlocks : List uint256) (stop : Int)
  (nStakeModifierPrev : UInt64)

/-- Once a block is selected, the loop keeps the first least selection hash
among the unselected candidates up to the stop, and ends at the first
candidate past it. -/
theorem selectLoop_selected :
    ∀ (ps : List CBlockIndex), (∀ p ∈ ps, m p.getBlockHash = some p) → ∀ b : CBlockIndex,
      selectLoop H m mapSelectedBlocks stop nStakeModifierPrev (ps.map candidateOf)
          (true, selectionHash H b nStakeModifierPrev, some b) =
        let r := scanBest (fun q => selectionHash H q nStakeModifierPrev) b
          (unselectedOf mapSelectedBlocks (ps.takeWhile fun q => q.getBlockTime ≤ stop))
        some (true, selectionHash H r nStakeModifierPrev, some r)
  | [], _, b => rfl
  | p :: ps, hmap, b => by
    have hp : m p.getBlockHash = some p := hmap p List.mem_cons_self
    have hps : ∀ q ∈ ps, m q.getBlockHash = some q := fun q hq => hmap q (List.mem_cons_of_mem _ hq)
    have ih := selectLoop_selected ps hps
    simp only [List.map_cons, selectLoop, candidateOf, hp, Bool.true_and]
    by_cases hlate : stop < p.getBlockTime
    · -- the loop breaks; nothing is left below the stop
      have htake : (p :: ps).takeWhile (fun q => decide (q.getBlockTime ≤ stop)) = [] :=
        List.takeWhile_cons_of_neg (by simpa using hlate)
      simp [hlate, htake, unselectedOf, scanBest_nil]
    · have htake : (p :: ps).takeWhile (fun q => decide (q.getBlockTime ≤ stop)) =
          p :: ps.takeWhile (fun q => decide (q.getBlockTime ≤ stop)) :=
        List.takeWhile_cons_of_pos (by simpa using hlate)
      simp only [gt_iff_lt, hlate, decide_false, Bool.false_eq_true, if_false, htake]
      by_cases hsel : mapSelectedBlocks.contains p.getBlockHash = true
      · -- an already selected candidate is skipped
        have hu : unselectedOf mapSelectedBlocks (p :: ps.takeWhile fun q => q.getBlockTime ≤ stop) =
            unselectedOf mapSelectedBlocks (ps.takeWhile fun q => q.getBlockTime ≤ stop) :=
          List.filter_cons_of_neg (by simpa using hsel)
        rw [if_pos hsel, hu]
        exact ih b
      · have hu : unselectedOf mapSelectedBlocks (p :: ps.takeWhile fun q => q.getBlockTime ≤ stop) =
            p :: unselectedOf mapSelectedBlocks (ps.takeWhile fun q => q.getBlockTime ≤ stop) :=
          List.filter_cons_of_pos (by simpa using hsel)
        rw [if_neg hsel, hu, scanBest_cons]
        -- a strictly smaller hash replaces the best, a tie does not
        by_cases hlt : selectionHash H p nStakeModifierPrev < selectionHash H b nStakeModifierPrev
        · rw [if_pos (decide_eq_true hlt), if_pos hlt]
          exact ih p
        · rw [if_neg (by simpa using hlt), if_neg (by decide), if_neg hlt]
          exact ih b

/-- Before anything is selected, the loop skips the selected candidates,
whatever their time. -/
theorem selectLoop_skip :
    ∀ (pre : List CBlockIndex), (∀ p ∈ pre, m p.getBlockHash = some p) →
      (∀ p ∈ pre, mapSelectedBlocks.contains p.getBlockHash = true) →
      ∀ (rest : List (Int × uint256)) (hashBest : Nat) (pindexSelected : Option CBlockIndex),
        selectLoop H m mapSelectedBlocks stop nStakeModifierPrev (pre.map candidateOf ++ rest)
            (false, hashBest, pindexSelected) =
          selectLoop H m mapSelectedBlocks stop nStakeModifierPrev rest (false, hashBest, pindexSelected)
  | [], _, _, _, _, _ => rfl
  | p :: pre, hmap, hsel, rest, hashBest, pindexSelected => by
    simp only [List.map_cons, List.cons_append, selectLoop, candidateOf, hmap p List.mem_cons_self,
      Bool.false_and, Bool.false_eq_true, if_false, hsel p List.mem_cons_self, if_true]
    exact selectLoop_skip pre (fun q hq => hmap q (List.mem_cons_of_mem _ hq))
      (fun q hq => hsel q (List.mem_cons_of_mem _ hq)) rest hashBest pindexSelected

/-- The first unselected candidate is selected, whatever its time. -/
theorem selectLoop_first {u : CBlockIndex} (hu : m u.getBlockHash = some u)
    (hunsel : mapSelectedBlocks.contains u.getBlockHash = false) (rest : List (Int × uint256))
    (hashBest : Nat) (pindexSelected : Option CBlockIndex) :
    selectLoop H m mapSelectedBlocks stop nStakeModifierPrev (candidateOf u :: rest)
        (false, hashBest, pindexSelected) =
      selectLoop H m mapSelectedBlocks stop nStakeModifierPrev rest
        (true, selectionHash H u nStakeModifierPrev, some u) := by
  simp only [selectLoop, candidateOf, hu, hunsel, Bool.false_and, Bool.not_false, Bool.false_eq_true,
    if_false, if_true]

end Round

/-- What a round should select from candidates sorted by time, given the
blocks already selected: of the unselected candidates no later than `stop`,
the first with the least selection hash, or, when there is none, the first
unselected candidate. -/
def RoundChoice (key : CBlockIndex → Nat) (stop : Int) (mapSelectedBlocks : List uint256)
    (ps : List CBlockIndex) (p : CBlockIndex) : Prop :=
  if (unselectedOf mapSelectedBlocks ps).filter (fun q => q.getBlockTime ≤ stop) = [] then
    (unselectedOf mapSelectedBlocks ps).head? = some p
  else IsFirstMin key ((unselectedOf mapSelectedBlocks ps).filter fun q => q.getBlockTime ≤ stop) p

theorem unselectedOf_filter (mapSelectedBlocks : List uint256) (stop : Int) (ps : List CBlockIndex) :
    unselectedOf mapSelectedBlocks (ps.filter fun q => q.getBlockTime ≤ stop) =
      (unselectedOf mapSelectedBlocks ps).filter fun q => q.getBlockTime ≤ stop := by
  simp only [unselectedOf, List.filter_filter, Bool.and_comm]

section Round

variable (H : Hashers) (m : BlockMap) (mapSelectedBlocks : List uint256) (stop : Int)
  (nStakeModifierPrev : UInt64)

/-- **A round selects its choice.**  Over candidates sorted by time, all in
the block index, a round that has an unselected candidate left returns the
block `RoundChoice` describes. -/
theorem selectBlockFromCandidates_choice (ps : List CBlockIndex)
    (hmap : ∀ p ∈ ps, m p.getBlockHash = some p)
    (hsorted : ps.Pairwise fun p q => p.getBlockTime ≤ q.getBlockTime)
    (hleft : unselectedOf mapSelectedBlocks ps ≠ []) :
    ∃ p, selectBlockFromCandidates H m (ps.map candidateOf).toArray mapSelectedBlocks stop
        nStakeModifierPrev = some p ∧
      RoundChoice (fun q => selectionHash H q nStakeModifierPrev) stop mapSelectedBlocks ps p := by
  -- the first unselected candidate `u` splits the list
  obtain ⟨u, U, hU⟩ := List.exists_cons_of_ne_nil hleft
  obtain ⟨pre, post, rfl, hpre, hu, hpost⟩ := List.filter_eq_cons_iff.mp hU
  simp only [Bool.not_eq_eq_eq_not, Bool.not_true, Bool.not_eq_false] at hpre hu
  have hmem : ∀ p ∈ pre ++ u :: post, m p.getBlockHash = some p := hmap
  rw [List.pairwise_append, List.pairwise_cons] at hsorted
  obtain ⟨-, ⟨hupost, hsortpost⟩, -⟩ := hsorted
  have htake := takeWhile_eq_filter_of_sorted (fun q : CBlockIndex => q.getBlockTime) stop hsortpost
  have hunpost : unselectedOf mapSelectedBlocks (post.takeWhile fun q => q.getBlockTime ≤ stop) =
      U.filter fun q => q.getBlockTime ≤ stop := by
    rw [htake, unselectedOf_filter]
    unfold unselectedOf
    rw [hpost]
  refine ⟨scanBest (fun q => selectionHash H q nStakeModifierPrev) u
    (U.filter fun q => q.getBlockTime ≤ stop), ?_, ?_⟩
  · unfold selectBlockFromCandidates
    rw [List.toList_toArray, List.map_append, List.map_cons,
      selectLoop_skip H m mapSelectedBlocks stop nStakeModifierPrev pre
        (fun p hp => hmem p (by simp [hp])) hpre,
      selectLoop_first H m mapSelectedBlocks stop nStakeModifierPrev (hmem u (by simp)) hu,
      selectLoop_selected H m mapSelectedBlocks stop nStakeModifierPrev post
        (fun p hp => hmem p (by simp [hp])) u, hunpost]
  · unfold RoundChoice
    rw [hU]
    by_cases hlate : stop < u.getBlockTime
    · -- `u` is already past the stop, and so is everything after it
      have hnone : (U.filter fun q => q.getBlockTime ≤ stop) = [] := by
        rw [List.filter_eq_nil_iff]
        intro q hq hqs
        have hq' : q ∈ post := by
          rw [← hpost] at hq
          exact List.mem_of_mem_filter hq
        have := hupost q hq'
        simp at hqs
        omega
      rw [List.filter_cons_of_neg (by simpa using hlate), hnone, if_pos rfl]
      rfl
    · rw [List.filter_cons_of_pos (by simpa using hlate), if_neg (List.cons_ne_nil _ _)]
      exact scanBest_isFirstMin _ u _

end Round

/-! ## The rounds -/

/-- The stop after `r` rounds: `nSelectionIntervalStart` plus the sections of
rounds `0` to `r - 1`. -/
def roundStop (params : Params) (nSelectionIntervalStart : Int) (r : Nat) : Int :=
  nSelectionIntervalStart + ((List.range r).map (getStakeModifierSelectionIntervalSection params)).sum

theorem roundStop_succ (params : Params) (nSelectionIntervalStart : Int) (r : Nat) :
    roundStop params nSelectionIntervalStart (r + 1) =
      roundStop params nSelectionIntervalStart r + getStakeModifierSelectionIntervalSection params r := by
  simp only [roundStop, List.range_succ, List.map_append, List.sum_append, List.map_cons, List.map_nil,
    List.sum_cons, List.sum_nil, add_zero, add_assoc]

/-- The modifier holds the entropy bit of the `r`-th chosen block at bit `r`,
and zeros above the chosen blocks. -/
def ModBits (nStakeModifier : UInt64) (chosen : List CBlockIndex) : Prop :=
  ∀ j < 64, nStakeModifier.toNat.testBit j =
    decide (∃ h : j < chosen.length, chosen[j].getStakeEntropyBit = 1)

theorem getStakeEntropyBit_toNat_le (p : CBlockIndex) : p.getStakeEntropyBit.toNat ≤ 1 := by
  unfold CBlockIndex.getStakeEntropyBit
  have h2 : p.nFlags.toNat &&& CBlockIndex.BLOCK_STAKE_ENTROPY.toNat ≤ 2 := Nat.and_le_right
  rw [UInt32.toNat_shiftRight, UInt32.toNat_and, Nat.shiftRight_eq_div_pow]
  have h1 : (1 : UInt32).toNat % 32 = 1 := rfl
  rw [h1]
  omega

/-- One round's bit: OR-ing the entropy bit of the next block in at its
round keeps the modifier's bits those of the chosen blocks. -/
theorem ModBits.push {mod : UInt64} {chosen : List CBlockIndex} (h : ModBits mod chosen)
    (hlen : chosen.length < 64) (p : CBlockIndex) :
    ModBits (mod ||| p.getStakeEntropyBit.toUInt64 <<< chosen.length.toUInt64) (chosen ++ [p]) := by
  have hbit := getStakeEntropyBit_toNat_le p
  have hshift : (p.getStakeEntropyBit.toUInt64 <<< chosen.length.toUInt64).toNat =
      p.getStakeEntropyBit.toNat * 2 ^ chosen.length := by
    rw [UInt64.toNat_shiftLeft, UInt32.toNat_toUInt64, Nat.shiftLeft_eq,
      show chosen.length.toUInt64.toNat % 64 = chosen.length by simp; omega]
    apply Nat.mod_eq_of_lt
    calc p.getStakeEntropyBit.toNat * 2 ^ chosen.length ≤ 1 * 2 ^ 63 :=
          Nat.mul_le_mul hbit (Nat.pow_le_pow_right (by decide) (by omega))
      _ < 2 ^ 64 := by decide
  intro j hj
  rw [UInt64.toNat_or, Nat.testBit_or, h j hj, hshift]
  rw [Nat.testBit_mul_two_pow]
  -- the new bit sits at `chosen.length`, the old ones below it
  rcases Nat.lt_trichotomy j chosen.length with hlt | rfl | hgt
  · have hlt' : j < (chosen ++ [p]).length := by simp; omega
    simp only [hlt, exists_true_left, List.getElem_append_left hlt, hlt', not_le.mpr hlt,
      decide_false, Bool.false_and, Bool.or_false]
  · have hbit0 : p.getStakeEntropyBit.toNat.testBit 0 = decide (p.getStakeEntropyBit = 1) := by
      rw [Nat.testBit_zero]
      apply decide_eq_decide.mpr
      rw [← UInt32.toNat_inj]
      show _ ↔ _ = 1
      omega
    simp [hbit0]
  · have hgt' : ¬j < (chosen ++ [p]).length := by simp; omega
    have hgt'' : ¬j < chosen.length := by omega
    simp only [hgt', hgt'', IsEmpty.exists_iff, decide_false, Bool.false_or, Bool.and_eq_false_iff]
    right
    rw [Nat.testBit_eq_false_of_lt]
    calc p.getStakeEntropyBit.toNat < 2 := by omega
      _ ≤ 2 ^ (j - chosen.length) := Nat.le_self_pow (by omega) 2

theorem unselectedOf_reverse (mapSelectedBlocks : List uint256) (ps : List CBlockIndex) :
    unselectedOf mapSelectedBlocks.reverse ps = unselectedOf mapSelectedBlocks ps := by
  simp only [unselectedOf, List.contains_reverse]

theorem RoundChoice.reverse {key : CBlockIndex → Nat} {stop : Int} {mapSelectedBlocks : List uint256}
    {ps : List CBlockIndex} {p : CBlockIndex}
    (h : RoundChoice key stop mapSelectedBlocks.reverse ps p) : RoundChoice key stop mapSelectedBlocks ps p := by
  unfold RoundChoice at h ⊢
  rwa [unselectedOf_reverse] at h

/-- A round's choice is a candidate not selected before. -/
theorem RoundChoice.mem_unselected {key : CBlockIndex → Nat} {stop : Int}
    {mapSelectedBlocks : List uint256} {ps : List CBlockIndex} {p : CBlockIndex}
    (h : RoundChoice key stop mapSelectedBlocks ps p) : p ∈ unselectedOf mapSelectedBlocks ps := by
  unfold RoundChoice at h
  split at h
  · exact List.mem_of_mem_head? h
  · exact List.mem_of_mem_filter h.mem

/-- While fewer blocks are selected than there are distinct candidates, one
is left. -/
theorem unselectedOf_ne_nil {ps chosen : List CBlockIndex}
    (hnodup : (ps.map CBlockIndex.getBlockHash).Nodup) (hlen : chosen.length < ps.length) :
    unselectedOf (chosen.map CBlockIndex.getBlockHash) ps ≠ [] := by
  intro hnil
  have hsub : ps.map CBlockIndex.getBlockHash ⊆ chosen.map CBlockIndex.getBlockHash := by
    intro h hh
    obtain ⟨p, hp, rfl⟩ := List.mem_map.mp hh
    have hsel := List.filter_eq_nil_iff.mp hnil p hp
    simpa using hsel
  have := hnodup.length_le_of_subset hsub
  simp only [List.length_map] at this
  omega

/-- What the first rounds have done: `chosen` are the blocks they selected,
in round order, each the choice of its round, pairwise distinct and all
candidates, and the modifier holds their entropy bits. -/
structure RoundsSoFar (H : Hashers) (params : Params) (nStakeModifier : UInt64)
    (nSelectionIntervalStart : Int) (ps chosen : List CBlockIndex) (nStakeModifierNew : UInt64) :
    Prop where
  mem : ∀ p ∈ chosen, p ∈ ps
  nodup : (chosen.map CBlockIndex.getBlockHash).Nodup
  choice : ∀ r (hr : r < chosen.length),
    RoundChoice (fun q => selectionHash H q nStakeModifier)
      (roundStop params nSelectionIntervalStart (r + 1))
      ((chosen.take r).map CBlockIndex.getBlockHash) ps chosen[r]
  bits : ModBits nStakeModifierNew chosen

section Rounds

variable {H : Hashers} {params : Params} {nStakeModifier : UInt64} {nSelectionIntervalStart : Int}
  {ps : List CBlockIndex}

theorem RoundsSoFar.nil : RoundsSoFar H params nStakeModifier nSelectionIntervalStart ps [] 0 where
  mem := by simp
  nodup := List.nodup_nil
  choice := by simp
  bits := by
    intro j _
    simp

/-- One more round keeps the record. -/
theorem RoundsSoFar.push {chosen : List CBlockIndex} {mod : UInt64} {p : CBlockIndex}
    (h : RoundsSoFar H params nStakeModifier nSelectionIntervalStart ps chosen mod)
    (hp : RoundChoice (fun q => selectionHash H q nStakeModifier)
      (roundStop params nSelectionIntervalStart (chosen.length + 1))
      (chosen.map CBlockIndex.getBlockHash) ps p)
    (hlen : chosen.length < 64) :
    RoundsSoFar H params nStakeModifier nSelectionIntervalStart ps (chosen ++ [p])
      (mod ||| p.getStakeEntropyBit.toUInt64 <<< chosen.length.toUInt64) where
  mem := by
    intro q hq
    rcases List.mem_append.mp hq with hq | hq
    · exact h.mem q hq
    · rw [List.mem_singleton.mp hq]
      exact List.mem_of_mem_filter hp.mem_unselected
  nodup := by
    have hnew : p.getBlockHash ∉ chosen.map CBlockIndex.getBlockHash := by
      have := (List.mem_filter.mp hp.mem_unselected).2
      simpa using this
    rw [List.map_append, List.map_singleton, List.nodup_append]
    exact ⟨h.nodup, List.nodup_singleton _, by simpa using hnew⟩
  choice := by
    intro r hr
    rw [List.length_append, List.length_singleton] at hr
    rcases Nat.lt_or_ge r chosen.length with hr' | hr'
    · rw [List.getElem_append_left hr', List.take_append_of_le_length (le_of_lt hr')]
      exact h.choice r hr'
    · have hrl : r = chosen.length := by omega
      subst hrl
      rw [List.getElem_concat_length rfl, List.take_left']
      exact hp
      rfl
  bits := h.bits.push hlen p

variable (H params) (m : BlockMap) (nStakeModifier nSelectionIntervalStart)

/-- **The run of the rounds.**  From the record of the rounds so far, `k`
more rounds succeed while they stay below 64 and below the number of
candidates, and extend the record. -/
theorem selectionRounds_run (hmap : ∀ p ∈ ps, m p.getBlockHash = some p)
    (hnodup : (ps.map CBlockIndex.getBlockHash).Nodup)
    (hsorted : ps.Pairwise fun p q => p.getBlockTime ≤ q.getBlockTime) :
    ∀ (k : Nat) (chosen : List CBlockIndex) (mod : UInt64), chosen.length + k ≤ min 64 ps.length →
      RoundsSoFar H params nStakeModifier nSelectionIntervalStart ps chosen mod →
      ∃ chosen' mod', chosen'.length = chosen.length + k ∧
        RoundsSoFar H params nStakeModifier nSelectionIntervalStart ps chosen' mod' ∧
        selectionRounds H params m (ps.map candidateOf).toArray nStakeModifier chosen.length k
            (mod, roundStop params nSelectionIntervalStart chosen.length,
              (chosen.map CBlockIndex.getBlockHash).reverse) =
          some (mod', roundStop params nSelectionIntervalStart chosen'.length,
            (chosen'.map CBlockIndex.getBlockHash).reverse)
  | 0, chosen, mod, _, hso => ⟨chosen, mod, rfl, hso, rfl⟩
  | k + 1, chosen, mod, hk, hso => by
    -- this round has an unselected candidate and selects its choice
    have hleft : unselectedOf (chosen.map CBlockIndex.getBlockHash).reverse ps ≠ [] := by
      rw [unselectedOf_reverse]
      exact unselectedOf_ne_nil hnodup (by omega)
    obtain ⟨p, hsel, hchoice⟩ := selectBlockFromCandidates_choice H m _
      (roundStop params nSelectionIntervalStart (chosen.length + 1)) nStakeModifier ps hmap hsorted hleft
    have hso' := hso.push hchoice.reverse (by omega)
    obtain ⟨chosen', mod', hlen, hso'', hrun⟩ :=
      selectionRounds_run hmap hnodup hsorted k (chosen ++ [p]) _ (by simp; omega) hso'
    refine ⟨chosen', mod', by simp at hlen; omega, hso'', ?_⟩
    rw [selectionRounds, ← roundStop_succ, hsel]
    simpa only [List.length_append, List.length_singleton, List.map_append, List.map_singleton,
      List.reverse_append, List.reverse_singleton, List.singleton_append] using hrun

/-- **The selection rounds of `ComputeNextStakeModifier`.**  Over candidates
sorted by time, pairwise distinct and all in the block index, every one of
the `min(64, N)` rounds succeeds: round `r` selects the choice `RoundChoice`
describes among the blocks the rounds before left, the selected blocks are
pairwise distinct, and bit `r` of the new modifier is the entropy bit of the
block of round `r`, with the bits past the last round zero. -/
theorem selectionRounds_choices (hmap : ∀ p ∈ ps, m p.getBlockHash = some p)
    (hnodup : (ps.map CBlockIndex.getBlockHash).Nodup)
    (hsorted : ps.Pairwise fun p q => p.getBlockTime ≤ q.getBlockTime) :
    ∃ chosen nStakeModifierNew, chosen.length = min 64 ps.length ∧
      RoundsSoFar H params nStakeModifier nSelectionIntervalStart ps chosen nStakeModifierNew ∧
      selectionRounds H params m (ps.map candidateOf).toArray nStakeModifier 0 (min 64 ps.length)
          (0, nSelectionIntervalStart, []) =
        some (nStakeModifierNew, roundStop params nSelectionIntervalStart chosen.length,
          (chosen.map CBlockIndex.getBlockHash).reverse) := by
  obtain ⟨chosen, mod, hlen, hso, hrun⟩ :=
    selectionRounds_run H params nStakeModifier nSelectionIntervalStart m hmap hnodup hsorted
      (min 64 ps.length) [] 0 (by simp) RoundsSoFar.nil
  refine ⟨chosen, mod, by simpa using hlen, hso, ?_⟩
  simpa [roundStop] using hrun

end Rounds

/-- One candidate, stored under the hash `7`. -/
def loneCandidate : CBlockIndex :=
  { CBlockIndex.ofHeader CBlockHeader.null with phashBlock := some (uint256.arithToUint256 7) }

theorem selectionRounds_choices_lone :
    (∀ p ∈ [loneCandidate], BlockMap.ofList [loneCandidate] p.getBlockHash = some p) ∧
      ([loneCandidate].map CBlockIndex.getBlockHash).Nodup ∧
      [loneCandidate].Pairwise (fun p q => p.getBlockTime ≤ q.getBlockTime) ∧
      ∃ chosen nStakeModifierNew, chosen.length = min 64 [loneCandidate].length ∧
        RoundsSoFar ⟨fun _ => uint256.zero, fun _ => uint256.zero⟩
          (vericoinParams uint256.zero uint256.zero uint256.zero []) 0 0 [loneCandidate] chosen
          nStakeModifierNew ∧
        selectionRounds ⟨fun _ => uint256.zero, fun _ => uint256.zero⟩
            (vericoinParams uint256.zero uint256.zero uint256.zero []) (BlockMap.ofList [loneCandidate])
            ([loneCandidate].map candidateOf).toArray 0 0 (min 64 [loneCandidate].length) (0, 0, []) =
          some (nStakeModifierNew,
            roundStop (vericoinParams uint256.zero uint256.zero uint256.zero []) 0 chosen.length,
            (chosen.map CBlockIndex.getBlockHash).reverse) := by
  have hmap : ∀ p ∈ [loneCandidate], BlockMap.ofList [loneCandidate] p.getBlockHash = some p := by
    decide
  have hnodup : ([loneCandidate].map CBlockIndex.getBlockHash).Nodup := by simp
  have hsorted : [loneCandidate].Pairwise (fun p q => p.getBlockTime ≤ q.getBlockTime) := by simp
  exact ⟨hmap, hnodup, hsorted, selectionRounds_choices _ _ 0 0 _ hmap hnodup hsorted⟩

end Veribase
