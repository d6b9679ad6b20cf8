import Veribase.Pos.StakeModifier
import Veribase.Pos.Weight
import Veribase.Script.Interpreter
import Veribase.Validation.CheckBlock

/-!
# The stake kernel

A proof-of-stake block proves its right to exist with its coinstake: the
hash of the first input's previous output, together with a stake modifier
chosen by the protocol, must fall below the target scaled by the coins'
weight (`CheckStakeKernelHash`, `pos.cpp`).  `CheckProofOfStake` finds the
previous transaction through the transaction index, checks the input script,
and runs the kernel check.

The modifier is the first one generated a selection interval after the block
holding the staked output (`GetKernelStakeModifier`).  The walk forward from
that block cannot follow `pprev`, so the code splices two sources: the
active chain's `Next` up to the fork point, and a temporary vector `tmpChain`
of the blocks from `pindexPrev` down to the fork, reversed.  Two of its
properties matter here.  When `pindexPrev` is on the active chain the walk
follows `Next`, past `pindexPrev` if the active chain goes further; and in
`tmpChain` the element `tmpChain[n++]` is read *before* the test
`n > tmpChain.size()`, so a walk that runs through the vector reads one
element past its end.

`referenceKernelStakeModifier` is what the walk is meant to compute: the same
search over the ancestors of `pindexPrev`.

The weight of the stake reads the active chain too: it is computed at the
height of `ChainActive().Tip()->pprev`, not at the block's own.
-/

namespace Veribase

/-! ## The forward walk of `GetKernelStakeModifier` -/

section Walk

variable (m : BlockMap) (chainActive : CChain)

/-- The loop that fills `tmpChain`: while fewer than `nDepth` blocks are in
and `it` is not on the active chain, push `it` and step to `it->pprev`.
`k` counts the iterations left. -/
def tmpChainLoop : Nat → Option CBlockIndex → List CBlockIndex → Faulty (List CBlockIndex)
  | 0, _, tmpChain => pure tmpChain
  | k + 1, it, tmpChain => do
      let e ← Fault.deref it
      if chainActive.contains e then pure tmpChain
      else tmpChainLoop k (m.prev e) (tmpChain ++ [e])

/-- The block after `pindex` and the new `n`: `tmpChain[n++]` once `pindex`
is at least the height below the first block of `tmpChain`, and
`ChainActive().Next(pindex)` before. -/
def kernelWalkNext (tmpChain : List CBlockIndex) (pindex : CBlockIndex) (n : Nat) :
    Faulty (Option CBlockIndex × Nat) :=
  match tmpChain with
  | first :: _ =>
      if pindex.nHeight ≥ first.nHeight - 1 then do
        let p ← Fault.index tmpChain n
        pure (some p, n + 1)
      else pure (chainActive.next m pindex, n)
  | [] => pure (chainActive.next m pindex, n)

/-- The `while` loop of `GetKernelStakeModifier`: step forward until the
modifier time reaches `nTarget`, updating it at each block that generated a
modifier.  `none` is the return at the best block.  On a well-formed index
every step raises the height or `n`, so `fuel` of the active chain's length
plus `tmpChain`'s plus one is never used up. -/
def kernelWalk (tmpChain : List CBlockIndex) (nTarget : Int) :
    Nat → CBlockIndex → Nat → Int → Faulty (Option UInt64)
  | 0, pindex, _, nStakeModifierTime =>
      if nStakeModifierTime < nTarget then pure none else pure (some pindex.nStakeModifier)
  | fuel + 1, pindex, n, nStakeModifierTime =>
      if nStakeModifierTime < nTarget then do
        let (next, n) ← kernelWalkNext m chainActive tmpChain pindex n
        match next with
        | none => pure none
        | some p =>
            if n > tmpChain.length then pure none
            else
              kernelWalk tmpChain nTarget fuel p n
                (if p.generatedStakeModifier then p.getBlockTime else nStakeModifierTime)
      else pure (some pindex.nStakeModifier)

/-- `GetKernelStakeModifier(pindexPrev, hashBlockFrom, ...)`: `none` for a
`false` return, otherwise the modifier.  `tmpChain.reserve(nDepth)` throws
`std::length_error` for a negative depth. -/
def getKernelStakeModifier (params : Params) (pindexPrev : Option CBlockIndex)
    (hashBlockFrom : uint256) : Faulty (Option UInt64) :=
  match m hashBlockFrom with
  | none => pure none
  | some pindexFrom => do
      let nStakeModifierSelectionInterval := getStakeModifierSelectionInterval params
      let prev ← Fault.deref pindexPrev
      let nDepth := prev.nHeight - (pindexFrom.nHeight - 1)
      if nDepth < 0 then throw (.exception "vector::reserve")
      let tmpChain ← tmpChainLoop m chainActive nDepth.toNat (some prev) []
      let tmpChain := tmpChain.reverse
      kernelWalk m chainActive tmpChain (pindexFrom.getBlockTime + nStakeModifierSelectionInterval)
        (chainActive.vChain.length + tmpChain.length + 1) pindexFrom 0 pindexFrom.getBlockTime

end Walk

/-! ## The specification of the walk -/

/-- The ancestors of `pindex` above height `h`, lowest first, with `fuel`
bounding the steps back. -/
def ancestorsAbove (m : BlockMap) (h : Int) : Nat → CBlockIndex → List CBlockIndex
  | 0, _ => []
  | fuel + 1, pindex =>
      if pindex.nHeight > h then
        match m.prev pindex with
        | some pprev => ancestorsAbove m h fuel pprev ++ [pindex]
        | none => [pindex]
      else []

/-- The search along a list of blocks: the modifier of the block where the
modifier time reaches `nTarget`, or `none` when the list ends first. -/
def referenceWalk (nTarget : Int) : List CBlockIndex → CBlockIndex → Int → Option UInt64
  | blocks, pindex, nStakeModifierTime =>
      if nStakeModifierTime < nTarget then
        match blocks with
        | [] => none
        | p :: rest =>
            referenceWalk nTarget rest p
              (if p.generatedStakeModifier then p.getBlockTime else nStakeModifierTime)
      else some pindex.nStakeModifier

/-- What `GetKernelStakeModifier` is meant to compute: the search over
`pindexPrev->GetAncestor(h)` for `h` from above `pindexFrom` up to
`pindexPrev`. -/
def referenceKernelStakeModifier (m : BlockMap) (params : Params) (pindexPrev : CBlockIndex)
    (hashBlockFrom : uint256) : Option UInt64 :=
  match m hashBlockFrom with
  | none => none
  | some pindexFrom =>
      referenceWalk (pindexFrom.getBlockTime + getStakeModifierSelectionInterval params)
        (ancestorsAbove m pindexFrom.nHeight (pindexPrev.nHeight.toNat + 1) pindexPrev)
        pindexFrom pindexFrom.getBlockTime

/-! ## The walk on a side branch

When `pindexPrev` and `pindexFrom` are off the active chain, the loop that
fills `tmpChain` collects every block from `pindexPrev` down to `pindexFrom`,
and the walk reads the reversed vector from its start: its first read is
`pindexFrom` itself, which changes nothing, and every later read is the next
block up.  The walk therefore is the reference search, until the reference
runs out of blocks: there the code reads `tmpChain[tmpChain.size()]`
(`getKernelStakeModifier_sideBranch`). -/

/-- Entries from the top down, each one's `pprev` the next, one height
below it. -/
def LinkedDown (m : BlockMap) : List CBlockIndex → Prop
  | [] => True
  | [_] => True
  | y :: z :: rest => m.prev y = some z ∧ y.nHeight = z.nHeight + 1 ∧ LinkedDown m (z :: rest)

/-- A branch from `pindexFrom` up to `pindexPrev` that leaves the active
chain at or below `pindexFrom`: `above` holds the entries above
`pindexFrom`, from `pindexPrev` down. -/
structure SideBranch (m : BlockMap) (chainActive : CChain) (pindexFrom pindexPrev : CBlockIndex)
    (above : List CBlockIndex) : Prop where
  linked : LinkedDown m (above ++ [pindexFrom])
  top : (above ++ [pindexFrom]).head? = some pindexPrev
  off_chain : ∀ y ∈ above ++ [pindexFrom], chainActive.contains y = false
  from_nonneg : 0 ≤ pindexFrom.nHeight

/-- The walk's result once `tmpChain` is used up: the read past its end. -/
def readPastEnd : Option UInt64 → Faulty (Option UInt64)
  | some nStakeModifier => .ok (some nStakeModifier)
  | none => .error .outOfBounds

section Linked

variable {m : BlockMap}

theorem LinkedDown.tail {y : CBlockIndex} {rest : List CBlockIndex} (h : LinkedDown m (y :: rest)) :
    LinkedDown m rest := by
  cases rest with
  | nil => trivial
  | cons z rest => exact h.2.2

/-- The top of a linked run is as many heights above its bottom `b` as there
are entries above `b`. -/
theorem LinkedDown.height_head (b : CBlockIndex) :
    ∀ (down : List CBlockIndex) (y : CBlockIndex), LinkedDown m (down ++ [b]) →
      (down ++ [b]).head? = some y → y.nHeight = b.nHeight + down.length
  | [], y, _, htop => by
      cases htop
      simp
  | d :: ds, y, hlinked, htop => by
      cases htop
      obtain ⟨z, hz⟩ : ∃ z, (ds ++ [b]).head? = some z := by cases ds <;> simp
      have hstep : d.nHeight = z.nHeight + 1 := by
        cases ds <;> simp at hz <;> subst hz <;> exact hlinked.2.1
      have hz_height := LinkedDown.height_head b ds z hlinked.tail hz
      simp only [List.length_cons]
      omega

/-- No entry of a linked run is below its bottom. -/
theorem LinkedDown.le_height (b : CBlockIndex) :
    ∀ (down : List CBlockIndex), LinkedDown m (down ++ [b]) →
      ∀ x ∈ down ++ [b], b.nHeight ≤ x.nHeight
  | [], _, x, hx => by
      simp at hx
      subst hx
      exact le_rfl
  | d :: ds, hlinked, x, hx => by
      rcases List.mem_cons.mp hx with rfl | hx
      · have := LinkedDown.height_head b (x :: ds) x hlinked rfl
        omega
      · exact LinkedDown.le_height b ds hlinked.tail x hx

/-- The search above `b` along a linked run is the run above `b`, lowest
first. -/
theorem ancestorsAbove_linked (b : CBlockIndex) :
    ∀ (down : List CBlockIndex) (fuel : Nat) (y : CBlockIndex), LinkedDown m (down ++ [b]) →
      (down ++ [b]).head? = some y → down.length < fuel →
      ancestorsAbove m b.nHeight fuel y = down.reverse := by
  intro down
  induction down with
  | nil =>
    intro fuel y _ htop hfuel
    obtain ⟨fuel, rfl⟩ : ∃ f, fuel = f + 1 := ⟨fuel - 1, by simp at hfuel; omega⟩
    cases htop
    simp [ancestorsAbove]
  | cons d ds ih =>
    intro fuel y hlinked htop hfuel
    obtain ⟨fuel, rfl⟩ : ∃ f, fuel = f + 1 := ⟨fuel - 1, by simp at hfuel; omega⟩
    cases htop
    obtain ⟨z, hz⟩ : ∃ z, (ds ++ [b]).head? = some z := by cases ds <;> simp
    have hprev : m.prev d = some z := by
      cases ds <;> simp at hz <;> subst hz <;> exact hlinked.1
    have hheight := LinkedDown.height_head b (d :: ds) d hlinked rfl
    have habove : d.nHeight > b.nHeight := by simp at hheight; omega
    simp only [ancestorsAbove, if_pos habove, hprev,
      ih fuel z hlinked.tail hz (by simp at hfuel; omega)]
    simp

end Linked

section SideWalk

variable (m : BlockMap) (chainActive : CChain)

/-- Off the active chain, the loop pushes the whole linked run. -/
theorem tmpChainLoop_linked :
    ∀ (down acc : List CBlockIndex), LinkedDown m down →
      (∀ y ∈ down, chainActive.contains y = false) →
      tmpChainLoop m chainActive down.length down.head? acc = .ok (acc ++ down)
  | [], acc, _, _ => by simp [tmpChainLoop]
  | y :: rest, acc, hlinked, hoff => by
      have hy : chainActive.contains y = false := hoff y List.mem_cons_self
      have hrest := tmpChainLoop_linked rest (acc ++ [y]) hlinked.tail
        (fun x hx => hoff x (List.mem_cons_of_mem y hx))
      -- the next pointer is `pprev`, which is the next entry while there is one
      cases rest with
      | nil => simp [tmpChainLoop, hy]
      | cons z rest =>
          simp only [List.length_cons, List.head?_cons]
          rw [tmpChainLoop]
          simp only [Fault.deref_some, Fault.ok_bind, hy, Bool.false_eq_true, if_false, hlinked.1]
          simpa using hrest

/-- Once `pindex` is at least the height below the first block of
`tmpChain`, the next block is read from `tmpChain`. -/
theorem kernelWalkNext_tmpChain {tmpChain : List CBlockIndex} {x0 pindex : CBlockIndex}
    (hx0 : tmpChain.head? = some x0) (hheight : x0.nHeight - 1 ≤ pindex.nHeight) (n : Nat) :
    kernelWalkNext m chainActive tmpChain pindex n =
      (Fault.index tmpChain n >>= fun p => pure (some p, n + 1)) := by
  cases tmpChain with
  | nil => simp at hx0
  | cons first rest =>
      simp only [List.head?_cons, Option.some.injEq] at hx0
      subst hx0
      simp [kernelWalkNext, hheight]

/-- **The walk through `tmpChain` is the reference search, with a read past
the end.**  From any position `n` of a vector whose blocks are all at least
its first one's height, the walk gives what the search over the rest of the
vector gives, and reads `tmpChain[tmpChain.size()]` where the search runs out. -/
theorem kernelWalk_tmpChain {tmpChain : List CBlockIndex} {x0 : CBlockIndex}
    (hx0 : tmpChain.head? = some x0) (hheight : ∀ x ∈ tmpChain, x0.nHeight - 1 ≤ x.nHeight)
    (nTarget : Int) :
    ∀ (fuel : Nat) (pindex : CBlockIndex) (n : Nat) (time : Int),
      tmpChain.length < n + fuel → x0.nHeight - 1 ≤ pindex.nHeight → n ≤ tmpChain.length →
      kernelWalk m chainActive tmpChain nTarget fuel pindex n time =
        readPastEnd (referenceWalk nTarget (tmpChain.drop n) pindex time)
  | 0, _, n, _, hfuel, _, hn => by omega
  | fuel + 1, pindex, n, time, hfuel, hpindex, hn => by
      by_cases htime : time < nTarget
      · rw [kernelWalk, if_pos htime, kernelWalkNext_tmpChain m chainActive hx0 hpindex]
        rcases Nat.lt_or_ge n tmpChain.length with hlt | hge
        · -- a read inside the vector, and the walk goes on from the block read
          have hnext : tmpChain[n] ∈ tmpChain := List.getElem_mem hlt
          have hwalk := kernelWalk_tmpChain hx0 hheight nTarget fuel tmpChain[n] (n + 1)
            (if tmpChain[n].generatedStakeModifier then tmpChain[n].getBlockTime else time)
            (by omega) (hheight _ hnext) hlt
          rw [Fault.index_of_lt hlt, List.drop_eq_getElem_cons hlt, referenceWalk, if_pos htime]
          simpa [Nat.not_lt.mpr hlt] using hwalk
        · -- the read past the end
          have hend : n = tmpChain.length := by omega
          subst hend
          rw [Fault.index_of_le le_rfl, List.drop_length, referenceWalk, if_pos htime]
          rfl
      · rw [kernelWalk, if_neg htime]
        unfold referenceWalk
        rw [if_neg htime]
        rfl

/-- Reading the start block again leaves the search where it was: its
modifier time is the start time. -/
theorem referenceWalk_revisit (nTarget : Int) (p : CBlockIndex) (rest : List CBlockIndex) :
    referenceWalk nTarget (p :: rest) p p.getBlockTime = referenceWalk nTarget rest p p.getBlockTime := by
  by_cases htime : p.getBlockTime < nTarget
  · rw [referenceWalk, if_pos htime, ite_self]
  · rw [referenceWalk, if_neg htime]
    unfold referenceWalk
    rw [if_neg htime]

/-- **On a side branch the walk is the reference search, or reads past
`tmpChain`.**  When `pindexFrom` and every block up to `pindexPrev` are off
the active chain, `GetKernelStakeModifier` returns the modifier the search
over the ancestors of `pindexPrev` finds, and where that search finds none
it reads `tmpChain[tmpChain.size()]`. -/
theorem getKernelStakeModifier_sideBranch (params : Params) {hashBlockFrom : uint256}
    {pindexFrom pindexPrev : CBlockIndex} {above : List CBlockIndex}
    (hfrom : m hashBlockFrom = some pindexFrom)
    (hside : SideBranch m chainActive pindexFrom pindexPrev above) :
    getKernelStakeModifier m chainActive params (some pindexPrev) hashBlockFrom =
      readPastEnd (referenceKernelStakeModifier m params pindexPrev hashBlockFrom) := by
  have hheight := LinkedDown.height_head pindexFrom above pindexPrev hside.linked hside.top
  have hnonneg := hside.from_nonneg
  -- `nDepth` counts the blocks from `pindexFrom` to `pindexPrev`, all pushed
  have hreserve : ¬ pindexPrev.nHeight - (pindexFrom.nHeight - 1) < 0 := by omega
  have hdepth : (pindexPrev.nHeight - (pindexFrom.nHeight - 1)).toNat =
      (above ++ [pindexFrom]).length := by
    simp only [List.length_append, List.length_singleton]
    omega
  have hloop := tmpChainLoop_linked m chainActive (above ++ [pindexFrom]) [] hside.linked
    hside.off_chain
  rw [hside.top, List.nil_append] at hloop
  have hup : (above ++ [pindexFrom]).reverse = pindexFrom :: above.reverse := by simp
  -- the reversed vector starts at `pindexFrom`, and no block of it is lower
  have hle : ∀ x ∈ pindexFrom :: above.reverse, pindexFrom.nHeight - 1 ≤ x.nHeight := by
    intro x hx
    have hx' : x ∈ above ++ [pindexFrom] := by
      simp only [List.mem_cons, List.mem_reverse] at hx
      simp only [List.mem_append, List.mem_singleton]
      tauto
    have := LinkedDown.le_height pindexFrom above hside.linked x hx'
    omega
  have hwalk := kernelWalk_tmpChain m chainActive
    (rfl : (pindexFrom :: above.reverse).head? = some pindexFrom) hle
    (pindexFrom.getBlockTime + getStakeModifierSelectionInterval params)
    (chainActive.vChain.length + (pindexFrom :: above.reverse).length + 1) pindexFrom 0
    pindexFrom.getBlockTime (by omega) (by omega) (Nat.zero_le _)
  have hanc := ancestorsAbove_linked pindexFrom above (pindexPrev.nHeight.toNat + 1) pindexPrev
    hside.linked hside.top (by omega)
  simp only [getKernelStakeModifier, hfrom, Fault.deref_some, Fault.ok_bind, if_neg hreserve,
    hdepth, hloop, hup]
  rw [hwalk, List.drop_zero, referenceWalk_revisit]
  simp only [referenceKernelStakeModifier, hfrom, hanc]

end SideWalk

/-- Vericoin parameters with the limit `2^236` for both kinds of block and
the genesis block under the key `1`. -/
def smallParams : Params :=
  vericoinParams (uint256.arithToUint256 (2 ^ 236)) (uint256.arithToUint256 (2 ^ 236))
    (uint256.arithToUint256 1) []

/-- An entry of the small index: key `k`, predecessor `kprev`, height `h`,
time `t`. -/
def smallEntry (k : Nat) (kprev : Option Nat) (h : Int) (t : UInt32) : CBlockIndex :=
  { CBlockIndex.ofHeader CBlockHeader.null with
    phashBlock := some (uint256.arithToUint256 k)
    pprev := kprev.map uint256.arithToUint256
    nHeight := h
    nTime := t }

/-- The genesis block `1` on the active chain, and a branch `2 ← 3` off it,
both blocks too early for a new modifier. -/
def sideMap : BlockMap :=
  BlockMap.ofList [smallEntry 1 none 0 0, smallEntry 2 (some 1) 1 0, smallEntry 3 (some 2) 2 0]

/-- Staking from block `2` for block `3`'s successor: the search finds no
modifier, and the walk reads past `tmpChain`. -/
theorem getKernelStakeModifier_sideBranch_short :
    sideMap (uint256.arithToUint256 2) = some (smallEntry 2 (some 1) 1 0) ∧
    SideBranch sideMap ⟨[uint256.arithToUint256 1]⟩ (smallEntry 2 (some 1) 1 0)
      (smallEntry 3 (some 2) 2 0) [smallEntry 3 (some 2) 2 0] ∧
    getKernelStakeModifier sideMap ⟨[uint256.arithToUint256 1]⟩ smallParams
        (some (smallEntry 3 (some 2) 2 0)) (uint256.arithToUint256 2) =
      readPastEnd (referenceKernelStakeModifier sideMap smallParams (smallEntry 3 (some 2) 2 0)
        (uint256.arithToUint256 2)) :=
  have hside : SideBranch sideMap ⟨[uint256.arithToUint256 1]⟩ (smallEntry 2 (some 1) 1 0)
      (smallEntry 3 (some 2) 2 0) [smallEntry 3 (some 2) 2 0] :=
    ⟨⟨by decide, by decide, trivial⟩, rfl, by decide, by decide⟩
  ⟨by decide, hside, getKernelStakeModifier_sideBranch sideMap ⟨[uint256.arithToUint256 1]⟩ smallParams
    (by decide) hside⟩

example : referenceKernelStakeModifier sideMap smallParams (smallEntry 3 (some 2) 2 0)
      (uint256.arithToUint256 2) = none ∧
    getKernelStakeModifier sideMap ⟨[uint256.arithToUint256 1]⟩ smallParams
      (some (smallEntry 3 (some 2) 2 0)) (uint256.arithToUint256 2) = .error .outOfBounds := by
  decide

/-! ## The kernel hash -/

/-- The computations of the kernel checks: they may fault, and they read and
write the average-weight cache. -/
abbrev KernelM := StateT StakeWeightCache Faulty

/-- A computation on the cache alone, inside the kernel checks. -/
def liftCache {α : Type} (x : StateM StakeWeightCache α) : KernelM α :=
  fun cache => pure (x.run cache)

/-- A possible fault inside the kernel checks. -/
def liftFaulty {α : Type} (x : Faulty α) : KernelM α := StateT.lift x

/-- The serialized kernel: `nStakeModifier`, the time of the block holding
the staked output, the offset of its transaction, that transaction's time,
the output index and the coinstake's time. -/
def kernelBytes (nStakeModifier : UInt64) (nTimeBlockFrom nTxPrevOffset nTimeTxPrev n nTimeTx : UInt32) :
    List UInt8 :=
  ByteStream.leBytes 8 nStakeModifier.toNat ++ ByteStream.leBytes 4 nTimeBlockFrom.toNat ++
    ByteStream.leBytes 4 nTxPrevOffset.toNat ++ ByteStream.leBytes 4 nTimeTxPrev.toNat ++
    ByteStream.leBytes 4 n.toNat ++ ByteStream.leBytes 4 nTimeTx.toNat

section Kernel

variable (H : Hashers) (IsVericoin : Bool) (params : Params) (m : BlockMap) (chainActive : CChain)

/-- The comparison that ends `CheckStakeKernelHash`: the kernel hash with
modifier `nStakeModifier`, when it is at most the weighted target. -/
def kernelHashMeetsTarget (nStakeModifier : UInt64) (nTimeBlockFrom nTxPrevOffset : UInt32)
    (txPrev : CTransaction) (prevout : COutPoint) (nTimeTx : UInt32)
    (bnCoinDayWeight bnTargetPerCoinDay : Int) : Option uint256 :=
  let hashProofOfStake := H.Hash (kernelBytes nStakeModifier nTimeBlockFrom nTxPrevOffset
    txPrev.nTime prevout.n nTimeTx)
  if (hashProofOfStake.uintToArith256 : Int) > bnCoinDayWeight * bnTargetPerCoinDay then none
  else some hashProofOfStake

/-- `CheckStakeKernelHash(nBits, pindexPrev, blockFrom, nTxPrevOffset, txPrev,
prevout, nTimeTx, hashProofOfStake)`: the proof-of-stake hash when the
kernel meets the target, `none` for a `false` return. -/
def checkStakeKernelHash (nBits : UInt32) (pindexPrev : Option CBlockIndex)
    (blockFrom : CBlockHeader) (nTxPrevOffset : UInt32) (txPrev : CTransaction)
    (prevout : COutPoint) (nTimeTx : UInt32) : KernelM (Option uint256) :=
  if nTimeTx < txPrev.nTime then pure none
  else if (blockFrom.nTime.toNat : Int) + params.nStakeMinAge > nTimeTx.toNat then pure none
  else do
    let bnTargetPerCoinDay := bigNumSetCompact nBits
    let txout ← liftFaulty (Fault.index txPrev.vout prevout.n.toNat)
    let nValueIn := txout.nValue
    -- the weight is taken at `ChainActive().Tip()->pprev`
    let tip ← liftFaulty (Fault.deref (chainActive.tip.bind m))
    let tipPrev ← liftFaulty (Fault.deref (m.prev tip))
    let weight ← liftCache (getWeight params m txPrev.nTime.toNat nTimeTx.toNat nValueIn tipPrev)
    let bnCoinDayWeight := ((nValueIn * weight).tdiv COIN).tdiv (24 * 60 * 60)
    let modifier ← liftFaulty (getKernelStakeModifier m chainActive params pindexPrev
      (blockFrom.getHash H IsVericoin))
    pure (modifier.bind fun nStakeModifier =>
      kernelHashMeetsTarget H nStakeModifier blockFrom.nTime nTxPrevOffset txPrev prevout nTimeTx
        bnCoinDayWeight bnTargetPerCoinDay)

/-- What the transaction index gives for a transaction hash: the header of
the block holding it, its offset in the block file after the header, and the
transaction read from disk. -/
structure TxIndexEntry where
  /-- The header read at the transaction's block position. -/
  header : CBlockHeader
  /-- `postx.nTxOffset`. -/
  nTxOffset : UInt32
  txPrev : CTransaction

/-- `g_txindex`, null when the index is off. -/
abbrev TxIndex := Option (uint256 → Option TxIndexEntry)

/-- The stake checks: a rejection with its reason, above `KernelM`, so that
the cache keeps what a rejected call wrote to it. -/
abbrev StakeM := ExceptT BlockError KernelM

/-- A possible fault inside the stake checks. -/
def StakeM.fault {α : Type} (x : Faulty α) : StakeM α := ExceptT.lift (liftFaulty x)

/-- `CheckProofOfStake(state, pindexPrev, tx, nBits, hashProofOfStake)`:
`scriptEnv tx nIn amount` is the interpreter with the signature checker of
input `nIn` of `tx`. -/
def checkProofOfStake (scriptEnv : CTransaction → Nat → Int → ScriptEnv) (txindex : TxIndex)
    (pindexPrev : Option CBlockIndex) (tx : CTransaction) (nBits : UInt32) : StakeM uint256 := do
  Checks.rejectIfT (!tx.isCoinStake) (.failed "CheckProofOfStake() : called on non-coinstake")
  let txin ← StakeM.fault (Fault.index tx.vin 0)
  let some index := txindex
    | throw (.failed "CheckProofOfStake() : transaction index not available")
  let some entry := index txin.prevout.hash
    | throw (.failed "CheckProofOfStake() : tx index not found")
  Checks.rejectIfT (entry.txPrev.getHash != txin.prevout.hash)
    (.failed "CheckProofOfStake() : txid mismatch in CheckProofOfStake()")
  -- the previous output is read at the peer's index before any bounds check
  let prevOut ← StakeM.fault (Fault.index entry.txPrev.vout txin.prevout.n.toNat)
  let verified ← StakeM.fault (verifyScript (scriptEnv tx 0 prevOut.nValue) txin.scriptSig
    prevOut.scriptPubKey txin.scriptWitness SCRIPT_VERIFY_P2SH).run
  Checks.rejectIfT (!verified.isOk) (.invalid .BLOCK_CONSENSUS "invalid-pos-script")
  let kernel ← ExceptT.lift (checkStakeKernelHash H IsVericoin params m chainActive nBits pindexPrev
    entry.header (entry.nTxOffset + UInt32.ofNat CBlockHeader.NORMAL_SERIALIZE_SIZE) entry.txPrev
    txin.prevout tx.nTime)
  match kernel with
  | none => throw (.invalid .BLOCK_CONSENSUS "check-kernel-failed")
  | some hashProofOfStake => pure hashProofOfStake

end Kernel

end Veribase
