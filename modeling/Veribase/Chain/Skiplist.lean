import Veribase.Lib.Fault
import Veribase.Lib.Ancestry

/-!
# The skip list of the block index

Every `CBlockIndex` has, besides `pprev`, a pointer `pskip` further back, set
by `BuildSkip` to the ancestor at `GetSkipHeight(nHeight)`.  `GetAncestor`
walks back to a height and takes `pskip` whenever the skip does not overshoot
and is not worse than the skip of the parent (`chain.cpp`).

The entries are of any type `ι`, with the three fields the code reads
(`BlockTree`).  A tree is well formed (`BlockTree.Wf`) when the heights go up
by one along `pprev` from roots at height zero and every `pskip` is what
`BuildSkip` computes from the tree.  On such a tree `GetAncestor(h)` is the
walk along `pprev` (`getAncestor_eq_walk`).  The argument does not look at
the heuristic: whichever pointer the walk takes lands on an ancestor of the
right height, because every `pskip` does (`SkipOk`), which is itself
`GetAncestor` on a lower entry; so the two are proved together by induction
on the height (`skipOk_of_wf`).
-/

namespace Veribase

open Ancestry

/-- `InvertLowestOne(n)`: `n & (n - 1)`, the lowest set bit cleared.  It is
only applied to non-negative values. -/
def invertLowestOne (n : Nat) : Nat := n &&& (n - 1)

/-- `GetSkipHeight(height)`: the height `pskip` jumps back to. -/
def getSkipHeight (height : Int) : Int :=
  if height < 2 then 0
  else if height.toNat &&& 1 ≠ 0 then (invertLowestOne (invertLowestOne (height.toNat - 1)) : Int) + 1
  else invertLowestOne height.toNat

theorem invertLowestOne_le (n : Nat) : invertLowestOne n ≤ n - 1 := Nat.and_le_right

/-- The skip height is below the height, from height one on. -/
theorem getSkipHeight_lt {height : Int} (h : 1 ≤ height) : getSkipHeight height < height := by
  unfold getSkipHeight
  split
  · omega
  · split
    · have h1 := invertLowestOne_le (height.toNat - 1)
      have h2 := invertLowestOne_le (invertLowestOne (height.toNat - 1))
      omega
    · have := invertLowestOne_le height.toNat
      omega

theorem getSkipHeight_nonneg (height : Int) : 0 ≤ getSkipHeight height := by
  unfold getSkipHeight
  split
  · exact le_refl 0
  · split <;> omega

/-- The fields of `CBlockIndex` that the skip list reads: the two pointers
and the height. -/
structure BlockTree (ι : Type) where
  pprev : ι → Option ι
  pskip : ι → Option ι
  nHeight : ι → Int

namespace BlockTree

variable {ι : Type} (t : BlockTree ι)

/-- The loop of `GetAncestor(height)` from `pindexWalk` at `heightWalk`:
follow `pskip` if the skip lands at `height`, or above it and the parent's
skip is not better; otherwise `assert(pindexWalk->pprev)` and step back.
`GetAncestor` enters it with `height ≥ 0` only, which keeps the walk above
height zero, where every skip goes down. -/
def getAncestorWalk (height : Int) (hheight : 0 ≤ height) (pindexWalk : ι) (heightWalk : Int) :
    Faulty ι :=
  if heightWalk > height then
    let heightSkip := getSkipHeight heightWalk
    let heightSkipPrev := getSkipHeight (heightWalk - 1)
    if hskip : (t.pskip pindexWalk).isSome ∧
        (heightSkip = height ∨
          (heightSkip > height ∧ ¬(heightSkipPrev < heightSkip - 2 ∧ heightSkipPrev ≥ height))) then
      getAncestorWalk height hheight ((t.pskip pindexWalk).get hskip.1) heightSkip
    else
      match t.pprev pindexWalk with
      | some pprev => getAncestorWalk height hheight pprev (heightWalk - 1)
      | none => .error .assertion
  else .ok pindexWalk
termination_by (heightWalk - height).toNat
decreasing_by
  · have := @getSkipHeight_lt heightWalk (by omega)
    have := hskip.2
    omega
  · omega

/-- `GetAncestor(height)`: null outside `0 .. nHeight`, else the walk. -/
def getAncestor (pindex : ι) (height : Int) : Faulty (Option ι) :=
  if hout : height > t.nHeight pindex ∨ height < 0 then .ok none
  else some <$> t.getAncestorWalk height (by omega) pindex (t.nHeight pindex)

/-- `BuildSkip()`: `pskip = pprev->GetAncestor(GetSkipHeight(nHeight))`, for
an entry with a parent; what it leaves in `pskip`. -/
def buildSkip (i : ι) : Faulty (Option ι) :=
  match t.pprev i with
  | some pprev => t.getAncestor pprev (getSkipHeight (t.nHeight i))
  | none => .ok (t.pskip i)

/-- A block-index tree: heights go up by one along `pprev` from roots at
height zero, and every `pskip` is what `BuildSkip` computes. -/
structure Wf : Prop where
  nHeight_pprev : Graded t.pprev t.nHeight
  nHeight_root : ∀ i, t.pprev i = none → t.nHeight i = 0
  buildSkip : ∀ i, t.buildSkip i = .ok (t.pskip i)

/-! ## `GetAncestor` is the walk along `pprev` -/

/-- The `pskip` of an entry above height zero points at its ancestor at
`GetSkipHeight(nHeight)`.  The walk never reads the `pskip` of a root. -/
def SkipOk (i : ι) : Prop :=
  0 < t.nHeight i → ∀ s, t.pskip i = some s →
    walk t.pprev (t.nHeight i - getSkipHeight (t.nHeight i)).toNat i = some s

variable {t}

/-- Walking `a + b` steps is walking `a`, then `b`. -/
theorem walk_eq_of_split {a b : ℕ} {i j k : ι} (hij : walk t.pprev a i = some j)
    (hjk : walk t.pprev b j = some k) : walk t.pprev (a + b) i = some k := by
  rw [walk_add, hij]
  exact hjk

/-- **The loop of `GetAncestor` lands on the ancestor.**  From an entry at
its own height above `height`, each turn moves to an ancestor at the height
the turn records, by `pskip` or by `pprev`, so the loop ends on the ancestor
at `height`.  Induction on the distance left, given sound skips below. -/
theorem getAncestorWalk_eq (hwf : t.Wf) {height : Int} (hheight : 0 ≤ height) :
    ∀ (n : ℕ) (p : ι), (t.nHeight p - height).toNat = n → height ≤ t.nHeight p →
      (∀ q, t.nHeight q ≤ t.nHeight p → t.SkipOk q) →
      ∃ a, walk t.pprev n p = some a ∧ t.getAncestorWalk height hheight p (t.nHeight p) = .ok a := by
  intro n
  induction n using Nat.strong_induction_on with
  | _ n ih =>
  intro p hn hle hskips
  rw [getAncestorWalk]
  by_cases hgt : t.nHeight p > height
  · rw [if_pos hgt]
    dsimp only
    split
    · -- `pskip` leads to the ancestor at the skip height, still at or above `height`
      next hskip =>
      have hge : height ≤ getSkipHeight (t.nHeight p) := by
        rcases hskip.2 with h | ⟨h, -⟩ <;> omega
      have hlt := @getSkipHeight_lt (t.nHeight p) (by omega)
      generalize hsget : (t.pskip p).get hskip.1 = s
      have hs := hskips p (le_refl _) (by omega) s (by rw [← hsget, Option.some_get])
      have hsh : t.nHeight s = getSkipHeight (t.nHeight p) := by
        have := height_walk hwf.nHeight_pprev hs
        omega
      have hskips' : ∀ q, t.nHeight q ≤ t.nHeight s → t.SkipOk q := fun q hq => hskips q (by omega)
      obtain ⟨a, hwa, hrun⟩ := ih (getSkipHeight (t.nHeight p) - height).toNat (by omega) s
        (by rw [hsh]) (by omega) hskips'
      rw [hsh] at hrun
      refine ⟨a, ?_, hrun⟩
      rw [show n = (t.nHeight p - getSkipHeight (t.nHeight p)).toNat +
        (getSkipHeight (t.nHeight p) - height).toNat by omega]
      exact walk_eq_of_split hs hwa
    · -- `pprev` leads one height down; a root cannot be above `height`
      cases hprev : t.pprev p with
      | none =>
        have := hwf.nHeight_root p hprev
        omega
      | some q =>
        have hq := hwf.nHeight_pprev p q hprev
        have hskips' : ∀ r, t.nHeight r ≤ t.nHeight q → t.SkipOk r := fun r hr => hskips r (by omega)
        obtain ⟨a, hwa, hrun⟩ := ih (t.nHeight q - height).toNat (by omega) q rfl (by omega) hskips'
        rw [show t.nHeight p - 1 = t.nHeight q by omega]
        refine ⟨a, ?_, hrun⟩
        rw [show n = 1 + (t.nHeight q - height).toNat by omega]
        exact walk_eq_of_split (by rw [walk_succ, hprev]; rfl) hwa
  · -- the walk is already at `height`
    rw [if_neg hgt]
    have hn0 : n = 0 := by omega
    subst hn0
    exact ⟨p, rfl, rfl⟩

/-- `GetAncestor` within range, given sound skips at and below the entry. -/
theorem getAncestor_of_skipOk (hwf : t.Wf) {p : ι} {height : Int} (h0 : 0 ≤ height)
    (hle : height ≤ t.nHeight p) (hskips : ∀ q, t.nHeight q ≤ t.nHeight p → t.SkipOk q) :
    ∃ a, walk t.pprev (t.nHeight p - height).toNat p = some a ∧ t.getAncestor p height = .ok (some a) := by
  obtain ⟨a, hwa, hrun⟩ := getAncestorWalk_eq hwf h0 _ p rfl hle hskips
  refine ⟨a, hwa, ?_⟩
  unfold getAncestor
  rw [dif_neg (by omega), hrun]
  rfl

/-- **Every skip pointer is sound.**  `BuildSkip` set it with `GetAncestor`
on the parent, whose walk reads only skips of lower entries: induction on
the height. -/
theorem skipOk_of_wf (hwf : t.Wf) : ∀ i, t.SkipOk i := by
  suffices h : ∀ n : ℕ, ∀ i, t.nHeight i ≤ n → t.SkipOk i from
    fun i => h (t.nHeight i).toNat i (by omega)
  intro n
  induction n with
  | zero => intro i hi hpos; omega
  | succ n ih =>
    intro i hi hpos s hs
    cases hprev : t.pprev i with
    | none =>
      have := hwf.nHeight_root i hprev
      omega
    | some q =>
      have hq := hwf.nHeight_pprev i q hprev
      have hlt := @getSkipHeight_lt (t.nHeight i) (by omega)
      have hnn := getSkipHeight_nonneg (t.nHeight i)
      -- the parent's walk to the skip height reads only skips below the parent
      obtain ⟨a, hwa, hrun⟩ := getAncestor_of_skipOk (p := q) hwf hnn (by omega)
        (fun r hr => ih r (by omega))
      have hbuild := hwf.buildSkip i
      rw [buildSkip, hprev] at hbuild
      dsimp only at hbuild
      rw [hrun, hs] at hbuild
      cases hbuild
      rw [show (t.nHeight i - getSkipHeight (t.nHeight i)).toNat =
        1 + (t.nHeight q - getSkipHeight (t.nHeight i)).toNat by omega]
      exact walk_eq_of_split (by rw [walk_succ, hprev]; rfl) hwa

/-- In a well-formed tree, `GetAncestor` in range follows `pprev` down to the
asked height. -/
theorem getAncestor_of_wf (hwf : t.Wf) {p : ι} {height : Int} (h0 : 0 ≤ height)
    (hle : height ≤ t.nHeight p) :
    ∃ a, walk t.pprev (t.nHeight p - height).toNat p = some a ∧ t.getAncestor p height = .ok (some a) :=
  getAncestor_of_skipOk hwf h0 hle (fun q _ => skipOk_of_wf hwf q)

/-- **The skip list agrees with the parent walk.**  On a block-index tree,
`GetAncestor(h)` is null for a height below zero or above the entry, and
otherwise the entry reached by following `pprev` `nHeight - h` times; it
never trips its `assert`. -/
theorem getAncestor_eq_walk (hwf : t.Wf) (b : ι) (h : Int) :
    ((h < 0 ∨ h > t.nHeight b) → t.getAncestor b h = .ok none) ∧
      (0 ≤ h → h ≤ t.nHeight b →
        ∃ a, walk t.pprev (t.nHeight b - h).toNat b = some a ∧ t.getAncestor b h = .ok (some a)) := by
  refine ⟨fun hout => ?_, fun h0 hle => getAncestor_of_wf hwf h0 hle⟩
  unfold getAncestor
  rw [dif_pos (by omega)]

section Genesis

variable {t : BlockTree ι} {g : ι} (hwf : t.Wf) (hgen : ∀ i, Below t.pprev g i)
include hwf hgen

/-- A single genesis, below every entry, is a root, at height zero. -/
theorem nHeight_genesis : t.nHeight g = 0 :=
  hwf.nHeight_root g (up_eq_none_of_below_all hwf.nHeight_pprev hgen)

theorem nHeight_nonneg (i : ι) : 0 ≤ t.nHeight i := by
  have hle := (hgen i).height_le hwf.nHeight_pprev
  rwa [nHeight_genesis hwf hgen] at hle

end Genesis

end BlockTree

/-- Three entries at heights `0`, `1` and `2`, both upper ones skipping to
the first, as `BuildSkip` sets them. -/
def threeChain : BlockTree (Fin 3) where
  pprev i := if i = 0 then none else some (i - 1)
  pskip i := if i = 0 then none else some 0
  nHeight i := i.val

theorem threeChain_wf : threeChain.Wf := by
  refine ⟨?_, ?_, ?_⟩
  · unfold Graded
    decide
  · decide
  · intro i
    fin_cases i
    · rfl
    · simp [BlockTree.buildSkip, threeChain, BlockTree.getAncestor, getSkipHeight]
      rw [BlockTree.getAncestorWalk]
      simp
    · -- the walk from height one takes the skip to height zero
      simp [BlockTree.buildSkip, threeChain, BlockTree.getAncestor, getSkipHeight, invertLowestOne]
      rw [BlockTree.getAncestorWalk]
      simp [getSkipHeight]
      rw [BlockTree.getAncestorWalk]
      simp

/-- From the top of the three-entry chain, `GetAncestor(0)` is the first
entry, two parents back. -/
theorem getAncestor_eq_walk_threeChain :
    threeChain.Wf ∧ threeChain.getAncestor 2 0 = .ok (some 0) := by
  obtain ⟨a, hwa, hrun⟩ := (BlockTree.getAncestor_eq_walk threeChain_wf 2 0).2 (by decide) (by decide)
  have hwalk : walk threeChain.pprev (threeChain.nHeight 2 - 0).toNat 2 = some 0 := by decide
  rw [hwalk] at hwa
  cases hwa
  exact ⟨threeChain_wf, hrun⟩

end Veribase
