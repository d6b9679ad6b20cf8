import Veribase.Chain.Skiplist

/-!
# Fork points

`LastCommonAncestor(pa, pb)` (`chain.cpp`) brings the higher of two entries
down to the other's height with `GetAncestor`, then steps both back in
lockstep until they meet.  `CChain::SetTip` fills `vChain` with the branch of
the new tip, writing from the tip down only until it meets an entry already
there, and `CChain::FindFork` walks an entry down until the chain contains it.

In a well-formed tree with a single genesis both compute the deepest common
ancestor of `Lib.Ancestry`.  The lockstep walk from equal heights stops at
the first meeting point (`stepBoth_of_meet`), which is the deepest common
ancestor (`isDeepestCommon_of_meet`).  Every chain that `SetTip` builds holds
the whole branch of its tip (`SetBy.holds`), because the entries it keeps
agree with the new branch at every height below the first one that does
(`AgreesBelow`); so `Contains` means "is below the tip" (`contains_iff`),
and the walk of `FindFork` stops at the deepest common ancestor of the entry
and the tip.  Each loop runs on fuel, and the bounds here say that it never
runs out.
-/

namespace Veribase

open Ancestry

variable {ι : Type}

namespace BlockTree

variable (t : BlockTree ι)

/-- The first half of `LastCommonAncestor`: the higher entry is replaced by
its ancestor at the other's height. -/
def equalise (pa pb : ι) : Faulty (Option ι × Option ι) :=
  if t.nHeight pa > t.nHeight pb then (fun a => (a, some pb)) <$> t.getAncestor pa (t.nHeight pb)
  else if t.nHeight pb > t.nHeight pa then (fun b => (some pa, b)) <$> t.getAncestor pb (t.nHeight pa)
  else .ok (some pa, some pb)

variable [DecidableEq ι]

/-- The loop of `LastCommonAncestor`: `while (pa != pb && pa && pb)` both
step to their parents; `none` once the fuel is spent. -/
def stepBoth : ℕ → Option ι → Option ι → Option (Option ι × Option ι)
  | 0, _, _ => none
  | fuel + 1, some a, some b =>
    if a ≠ b then stepBoth fuel (t.pprev a) (t.pprev b) else some (some a, some b)
  | _ + 1, pa, pb => some (pa, pb)

/-- `LastCommonAncestor(pa, pb)` for two entries, with `assert(pa == pb)`
after the loop. -/
def lastCommonAncestor (fuel : ℕ) (pa pb : ι) : Option (Faulty (Option ι)) :=
  match t.equalise pa pb with
  | .error e => some (.error e)
  | .ok (pa, pb) =>
    (t.stepBoth fuel pa pb).map fun r => do
      Fault.check (decide (r.1 = r.2))
      pure r.1

variable {t}

/-- The lockstep walk from two entries stops where their walks first meet,
after as many steps as it took. -/
theorem stepBoth_of_meet {x y c : ι} {k : ℕ} (hx : walk t.pprev k x = some c)
    (hy : walk t.pprev k y = some c) (hfirst : ∀ k' < k, walk t.pprev k' x ≠ walk t.pprev k' y)
    {fuel : ℕ} (hfuel : k < fuel) : t.stepBoth fuel (some x) (some y) = some (some c, some c) := by
  induction k generalizing x y fuel with
  | zero =>
    cases hx
    cases hy
    obtain ⟨fuel, rfl⟩ : ∃ f, fuel = f + 1 := ⟨fuel - 1, by omega⟩
    simp [stepBoth]
  | succ k ih =>
    rw [walk_succ] at hx hy
    cases hpx : t.pprev x with
    | none => rw [hpx] at hx; cases hx
    | some x' =>
      cases hpy : t.pprev y with
      | none => rw [hpy] at hy; cases hy
      | some y' =>
        rw [hpx] at hx
        rw [hpy] at hy
        have hne : x ≠ y := fun h => hfirst 0 (Nat.succ_pos k) (by rw [h])
        obtain ⟨fuel, rfl⟩ : ∃ f, fuel = f + 1 := ⟨fuel - 1, by omega⟩
        rw [stepBoth, if_pos hne, hpx, hpy]
        refine ih hx hy (fun k' hk' => ?_) (by omega)
        have := hfirst (k' + 1) (by omega)
        rwa [walk_succ, walk_succ, hpx, hpy] at this

/-! ## Over a tree with a single genesis -/

section Genesis

variable {g : ι} (hwf : t.Wf) (hgen : ∀ i, Below t.pprev g i)
include hwf hgen

omit [DecidableEq ι] in
/-- The first half of `LastCommonAncestor` leaves two entries at the lower
of the two heights, each below the entry it came from. -/
theorem equalise_spec (pa pb : ι) :
    ∃ x y, t.equalise pa pb = .ok (some x, some y) ∧ Below t.pprev x pa ∧ Below t.pprev y pb ∧
      t.nHeight x = min (t.nHeight pa) (t.nHeight pb) ∧ t.nHeight y = t.nHeight x := by
  have hg := hwf.nHeight_pprev
  unfold equalise
  split_ifs with hab hba
  · obtain ⟨a, hwa, hrun⟩ := getAncestor_of_wf hwf (nHeight_nonneg hwf hgen pb) (le_of_lt hab)
    have hha := height_walk hg hwa
    exact ⟨a, pb, by rw [hrun]; rfl, ⟨_, hwa⟩, Below.refl pb, by omega, by omega⟩
  · obtain ⟨b, hwb, hrun⟩ := getAncestor_of_wf hwf (nHeight_nonneg hwf hgen pa) (le_of_lt hba)
    have hhb := height_walk hg hwb
    exact ⟨pa, b, by rw [hrun]; rfl, Below.refl pa, ⟨_, hwb⟩, by omega, by omega⟩
  · exact ⟨pa, pb, rfl, Below.refl pa, Below.refl pb, by omega, by omega⟩

/-- From two entries at one height, each below one of `a` and `b` and no
lower than any of their common ancestors, the lockstep walk stops at the
deepest common ancestor of `a` and `b`. -/
theorem stepBoth_deepest {a b x y : ι} (hx : Below t.pprev x a) (hy : Below t.pprev y b)
    (hxy : t.nHeight x = t.nHeight y)
    (hcover : ∀ d, Below t.pprev d a → Below t.pprev d b → t.nHeight d ≤ t.nHeight x) :
    ∃ c, IsDeepestCommon t.pprev t.nHeight a b c ∧
      ∀ fuel, (t.nHeight x).toNat < fuel → t.stepBoth fuel (some x) (some y) = some (some c, some c) := by
  have hg := hwf.nHeight_pprev
  obtain ⟨k, c, hkx, hky, hfirst⟩ := exists_first_meet hg hxy (hgen x) (hgen y)
  have hdeep := isDeepestCommon_of_meet hg hxy hkx hky hfirst
  -- the walks meet no lower than the genesis, at height zero
  have hk : (k : ℤ) ≤ t.nHeight x := by
    have := height_walk hg hkx
    have := nHeight_nonneg hwf hgen c
    omega
  refine ⟨c, isDeepestCommon_of_below hg hx hy (fun d hda hdb => ?_) hdeep, fun fuel hfuel =>
    stepBoth_of_meet hkx hky hfirst (by omega)⟩
  exact ⟨hcover d hda hdb, hxy ▸ hcover d hda hdb⟩

/-- `LastCommonAncestor` returns the deepest common ancestor, given more fuel
than the first entry's height. -/
theorem lastCommonAncestor_spec (pa pb : ι) :
    ∃ c, IsDeepestCommon t.pprev t.nHeight pa pb c ∧
      ∀ fuel, (t.nHeight pa).toNat < fuel → t.lastCommonAncestor fuel pa pb = some (.ok (some c)) := by
  have hg := hwf.nHeight_pprev
  obtain ⟨x, y, heq, hx, hy, hmin, hyx⟩ := equalise_spec hwf hgen pa pb
  have hcover : ∀ d, Below t.pprev d pa → Below t.pprev d pb → t.nHeight d ≤ t.nHeight x := by
    intro d hda hdb
    have := hda.height_le hg
    have := hdb.height_le hg
    omega
  obtain ⟨c, hdeep, hrun⟩ := stepBoth_deepest hwf hgen hx hy hyx.symm hcover
  refine ⟨c, hdeep, fun fuel hfuel => ?_⟩
  unfold lastCommonAncestor
  rw [heq]
  dsimp only
  rw [hrun fuel (by omega)]
  simp

end Genesis

end BlockTree

/-- A `CChain` over the entries of a tree: `vChain[h]` is the chain's entry
at height `h`, a pointer that may be null. -/
structure BlockTree.CChain (ι : Type) where
  vChain : List (Option ι)

namespace BlockTree.CChain

/-- `vChain.resize(n)`: the first `n` entries, null past the old end. -/
def resize (v : List (Option ι)) (n : ℕ) : List (Option ι) :=
  (List.range n).map fun i => v.getD i none

variable (t : BlockTree ι) (c : CChain ι)

/-- `operator[](nHeight)`: null out of range. -/
def get (nHeight : Int) : Option ι :=
  if nHeight < 0 ∨ nHeight ≥ c.vChain.length then none else c.vChain.getD nHeight.toNat none

/-- `Height()`: `vChain.size() - 1`. -/
def height : Int := c.vChain.length - 1

/-- The branch of `T` as `vChain` holds it: the ancestor of `T` at each
height from `0` to `T`'s. -/
def branch (T : ι) : List (Option ι) :=
  (List.range ((t.nHeight T).toNat + 1)).map fun i => walk t.pprev ((t.nHeight T).toNat - i) T

/-- The chain holds the branch of `tip`, and nothing for a null tip. -/
def Holds : Option ι → Prop
  | none => c.vChain = []
  | some T => c.vChain = branch t T

/-- Where `v` holds the branch of `T` at a height, it holds it at every lower
height too: what `SetTip` keeps of the old chain. -/
def AgreesBelow (T : ι) (v : List (Option ι)) : Prop :=
  ∀ i ≤ (t.nHeight T).toNat, v[i]? = some (walk t.pprev ((t.nHeight T).toNat - i) T) →
    ∀ i' ≤ i, v[i']? = some (walk t.pprev ((t.nHeight T).toNat - i') T)

/-- The state of `SetTip`'s loop at height `j`: the branch of `T` written
above `j`, the resized old vector at and below. -/
structure LoopInv (T : ι) (v₀ : List (Option ι)) (j : ℕ) (v : List (Option ι)) : Prop where
  length : v.length = (t.nHeight T).toNat + 1
  above : ∀ i, j < i → i ≤ (t.nHeight T).toNat → v[i]? = some (walk t.pprev ((t.nHeight T).toNat - i) T)
  below : ∀ i ≤ j, v[i]? = v₀[i]?

variable {t c}

@[simp] theorem length_resize (v : List (Option ι)) (n : ℕ) : (resize v n).length = n := by
  simp [resize]

theorem getElem?_resize (v : List (Option ι)) (n i : ℕ) :
    (resize v n)[i]? = if i < n then some (v.getD i none) else none := by
  unfold resize
  split_ifs with hi
  · rw [List.getElem?_map, List.getElem?_range hi]
    rfl
  · exact List.getElem?_eq_none (by simp; omega)

@[simp] theorem length_branch (T : ι) : (branch t T).length = (t.nHeight T).toNat + 1 := by
  simp [branch]

theorem getElem?_branch (T : ι) (i : ℕ) :
    (branch t T)[i]? =
      if i ≤ (t.nHeight T).toNat then some (walk t.pprev ((t.nHeight T).toNat - i) T) else none := by
  unfold branch
  split_ifs with hi
  · rw [List.getElem?_map, List.getElem?_range (by omega)]
    rfl
  · exact List.getElem?_eq_none (by simp; omega)

/-- A vector of the branch's length that holds the branch at every height is
the branch. -/
theorem eq_branch {T : ι} {v : List (Option ι)} (hlen : v.length = (t.nHeight T).toNat + 1)
    (hv : ∀ i ≤ (t.nHeight T).toNat, v[i]? = some (walk t.pprev ((t.nHeight T).toNat - i) T)) :
    v = branch t T := by
  apply List.ext_getElem?
  intro i
  rw [getElem?_branch]
  split_ifs with hi
  · exact hv i hi
  · exact List.getElem?_eq_none (by omega)

/-- Writing the branch's entry at height `j` extends the written part of the
branch down to `j`. -/
theorem LoopInv.above_set {T q : ι} {v₀ v : List (Option ι)} {j : ℕ} (hinv : LoopInv t T v₀ j v)
    (hj : j ≤ (t.nHeight T).toNat) (hq : walk t.pprev ((t.nHeight T).toNat - j) T = some q) :
    ∀ i, j ≤ i → i ≤ (t.nHeight T).toNat →
      (v.set j (some q))[i]? = some (walk t.pprev ((t.nHeight T).toNat - i) T) := by
  intro i hji hi
  by_cases hij : j = i
  · subst hij
    rw [List.getElem?_set_self (by rw [hinv.length]; omega), hq]
  · rw [List.getElem?_set_ne hij]
    exact hinv.above i (by omega) hi

variable (t c) [DecidableEq ι]

/-- `Contains(pindex)`: the chain's entry at the height of `pindex` is `pindex`. -/
def contains (p : ι) : Bool := decide (c.get (t.nHeight p) = some p)

/-- The loop of `SetTip`: `while (pindex && vChain[pindex->nHeight] != pindex)`
the entry is written and `pindex` steps to its parent.  The vector is indexed
unchecked, so a height off its end faults; `none` once the fuel is spent. -/
def setTipLoop : ℕ → List (Option ι) → Option ι → Option (Faulty (List (Option ι)))
  | 0, _, _ => none
  | _ + 1, v, none => some (.ok v)
  | fuel + 1, v, some p =>
    if t.nHeight p < 0 then some (.error .outOfBounds)
    else match Fault.index v (t.nHeight p).toNat with
      | .error e => some (.error e)
      | .ok cur =>
        if cur ≠ some p then setTipLoop fuel (v.set (t.nHeight p).toNat (some p)) (t.pprev p)
        else some (.ok v)

/-- `SetTip(pindex)`: a null tip clears the chain; otherwise the vector is
resized to the tip's height plus one (a negative size throws) and the loop
writes the tip's branch. -/
def setTip (fuel : ℕ) : Option ι → Option (Faulty (CChain ι))
  | none => some (.ok ⟨[]⟩)
  | some p =>
    if t.nHeight p + 1 < 0 then some (.error (.exception "vector::resize"))
    else (setTipLoop t fuel (resize c.vChain (t.nHeight p + 1).toNat) (some p)).map (Except.map CChain.mk)

/-- The loop of `FindFork`: `while (pindex && !Contains(pindex))` step to the
parent. -/
def findForkLoop : ℕ → Option ι → Option (Option ι)
  | 0, _ => none
  | _ + 1, none => some none
  | fuel + 1, some p => if c.contains t p then some (some p) else findForkLoop fuel (t.pprev p)

/-- `FindFork(pindex)`: an entry above the tip is first replaced by its
ancestor at the chain's height. -/
def findFork (fuel : ℕ) : Option ι → Option (Faulty (Option ι))
  | none => some (.ok none)
  | some p =>
    let start : Faulty (Option ι) :=
      if t.nHeight p > c.height then t.getAncestor p c.height else .ok (some p)
    match start with
    | .error e => some (.error e)
    | .ok q => (findForkLoop t c fuel q).map .ok

/-- The chains that `SetTip` makes from the empty one, with the tip last set. -/
inductive SetBy : CChain ι → Option ι → Prop
  | empty : SetBy ⟨[]⟩ none
  | step {c c' : CChain ι} {old tip : Option ι} {fuel : ℕ} :
      SetBy c old → c.setTip t fuel tip = some (.ok c') → SetBy c' tip

/-- `f` is the highest ancestor-or-self of `p` that the chain contains. -/
def IsForkOf (p f : ι) : Prop :=
  Below t.pprev f p ∧ c.contains t f ∧
    ∀ d, Below t.pprev d p → c.contains t d → t.nHeight d ≤ t.nHeight f

variable {t c}

section Genesis

variable {g : ι} (hwf : t.Wf) (hgen : ∀ i, Below t.pprev g i)
include hwf hgen

omit [DecidableEq ι] in
/-- The branch of `T` has an entry at every height from `0` to `T`'s. -/
theorem exists_walk_branch (T : ι) (i : ℕ) :
    ∃ a, walk t.pprev ((t.nHeight T).toNat - i) T = some a := by
  have hT := BlockTree.nHeight_nonneg hwf hgen T
  exact exists_walk hwf.nHeight_pprev hwf.nHeight_root (by omega)

omit [DecidableEq ι] in
/-- What `SetTip` keeps of a chain it built, resized for a new tip, agrees
with the new branch from any height where it does down to the genesis: two
branches that meet go on together. -/
theorem agreesBelow_resize {old : Option ι} (hc : c.Holds t old) (T : ι) :
    AgreesBelow t T (resize c.vChain (t.nHeight T + 1).toNat) := by
  have hT := BlockTree.nHeight_nonneg hwf hgen T
  intro i hi heq i' hi'
  rw [getElem?_resize, if_pos (by omega)] at heq ⊢
  obtain ⟨a, ha⟩ := exists_walk_branch hwf hgen T i
  cases old with
  | none =>
    -- the empty chain holds nothing the branch could match
    simp only [Holds] at hc
    rw [hc, ha] at heq
    simp at heq
  | some O =>
    simp only [Holds] at hc
    rw [hc, List.getD_eq_getElem?_getD, getElem?_branch] at heq ⊢
    split_ifs at heq with hiO
    · rw [if_pos (by omega)]
      simp only [Option.getD_some, Option.some.injEq] at heq ⊢
      rw [show (t.nHeight O).toNat - i' = ((t.nHeight O).toNat - i) + (i - i') by omega,
        show (t.nHeight T).toNat - i' = ((t.nHeight T).toNat - i) + (i - i') by omega,
        walk_add, walk_add, heq]
    · rw [ha] at heq
      simp at heq

/-- **The loop of `SetTip` writes the branch.**  From the tip down, each turn
either finds the branch's entry in place, and then every lower one is too
(`AgreesBelow`), or writes it and steps to the parent; the parent of the
entry at height zero is null, so the loop never runs off the vector. -/
theorem setTipLoop_branch {T : ι} {v₀ : List (Option ι)} (hv₀ : AgreesBelow t T v₀) :
    ∀ (fuel j : ℕ) (q : ι) (v v' : List (Option ι)), j ≤ (t.nHeight T).toNat →
      walk t.pprev ((t.nHeight T).toNat - j) T = some q → LoopInv t T v₀ j v →
      setTipLoop t fuel v (some q) = some (.ok v') → v' = branch t T := by
  have hg := hwf.nHeight_pprev
  have hT := BlockTree.nHeight_nonneg hwf hgen T
  intro fuel
  induction fuel with
  | zero =>
    intro j q v v' _ _ _ hrun
    cases hrun
  | succ fuel ih =>
    intro j q v v' hj hq hinv hrun
    have hhq : t.nHeight q = j := by
      have := height_walk hg hq
      omega
    have hjlen : j < v.length := by
      rw [hinv.length]
      omega
    rw [setTipLoop, if_neg (by omega), hhq, Int.toNat_natCast, Fault.index_of_lt hjlen] at hrun
    dsimp only at hrun
    by_cases hcur : v[j] = some q
    · -- the entry is in place: the old chain agrees from here down
      rw [if_neg (not_not.mpr hcur)] at hrun
      cases hrun
      have hj₀ : v₀[j]? = some (walk t.pprev ((t.nHeight T).toNat - j) T) := by
        rw [← hinv.below j le_rfl, List.getElem?_eq_getElem hjlen, hcur, hq]
      apply eq_branch hinv.length
      intro i hi
      by_cases hij : i ≤ j
      · rw [hinv.below i hij]
        exact hv₀ j hj hj₀ i hij
      · exact hinv.above i (by omega) hi
    · rw [if_pos hcur] at hrun
      cases hp : t.pprev q with
      | none =>
        -- a root sits at height zero: the whole branch is written
        have h0 : j = 0 := by
          have := hwf.nHeight_root q hp
          omega
        rw [hp] at hrun
        cases fuel with
        | zero => cases hrun
        | succ fuel =>
          simp only [setTipLoop, Option.some.injEq, Except.ok.injEq] at hrun
          subst hrun
          exact eq_branch (by rw [List.length_set, hinv.length])
            (fun i hi => hinv.above_set hj hq i (by omega) hi)
      | some r =>
        rw [hp] at hrun
        have hj1 : 1 ≤ j := by
          have := hg q r hp
          have := BlockTree.nHeight_nonneg hwf hgen r
          omega
        have hwr : walk t.pprev ((t.nHeight T).toNat - (j - 1)) T = some r := by
          rw [show (t.nHeight T).toNat - (j - 1) = ((t.nHeight T).toNat - j) + 1 by omega, walk_succ', hq]
          exact hp
        refine ih (j - 1) r _ v' (by omega) hwr ⟨?_, ?_, ?_⟩ hrun
        · rw [List.length_set, hinv.length]
        · exact fun i hi hin => hinv.above_set hj hq i (by omega) hin
        · intro i hi
          rw [List.getElem?_set_ne (by omega)]
          exact hinv.below i (by omega)

/-- A successful `SetTip` to `T` leaves the branch of `T`. -/
theorem setTip_holds {c' : CChain ι} {old : Option ι} {T : ι} {fuel : ℕ} (hc : c.Holds t old)
    (hrun : c.setTip t fuel (some T) = some (.ok c')) : c'.Holds t (some T) := by
  have hT := BlockTree.nHeight_nonneg hwf hgen T
  rw [setTip, if_neg (by omega)] at hrun
  obtain ⟨r, hloop, hr⟩ := Option.map_eq_some_iff.mp hrun
  cases r with
  | error e => cases hr
  | ok v' =>
    cases hr
    refine setTipLoop_branch hwf hgen (agreesBelow_resize hwf hgen hc T) fuel _ T _ v' le_rfl
      (by simp) ⟨?_, fun i hi hin => by omega, fun i _ => rfl⟩ hloop
    rw [length_resize]
    omega

/-- **Every chain that `SetTip` builds holds the branch of its tip.** -/
theorem SetBy.holds {ch : CChain ι} {tip : Option ι} (h : SetBy t ch tip) : ch.Holds t tip := by
  induction h with
  | empty => rfl
  | @step ch ch' old tip fuel _ hrun ih =>
    cases tip with
    | none =>
      simp only [setTip, Option.some.injEq, Except.ok.injEq] at hrun
      subst hrun
      rfl
    | some T => exact setTip_holds hwf hgen ih hrun

omit [DecidableEq ι] in
theorem height_of_holds {T : ι} (hc : c.Holds t (some T)) : c.height = t.nHeight T := by
  have hT := BlockTree.nHeight_nonneg hwf hgen T
  simp only [Holds] at hc
  unfold height
  rw [hc, length_branch]
  omega

/-- In a chain holding the branch of `T`, `Contains` means "is below `T`". -/
theorem contains_iff {T : ι} (hc : c.Holds t (some T)) (d : ι) :
    c.contains t d = true ↔ Below t.pprev d T := by
  have hg := hwf.nHeight_pprev
  have hd := BlockTree.nHeight_nonneg hwf hgen d
  simp only [Holds] at hc
  unfold contains get
  rw [decide_eq_true_iff, hc, length_branch, List.getD_eq_getElem?_getD, getElem?_branch]
  constructor
  · intro h
    split_ifs at h with hout hin
    · exact ⟨_, by simpa using h⟩
    · simp at h
  · rintro ⟨k, hk⟩
    have hdk := height_walk hg hk
    rw [if_neg (by omega), if_pos (by omega), Option.getD_some,
      show (t.nHeight T).toNat - (t.nHeight d).toNat = k by omega]
    exact hk

/-- **The loop of `FindFork` stops at the deepest common ancestor with the
tip.**  An entry below the tip is its own; one that is not is a step above
it (`isDeepestCommon_of_up`), and the genesis is below the tip, so the walk
stops by height zero. -/
theorem findForkLoop_spec {T : ι} (hc : c.Holds t (some T)) :
    ∀ (fuel : ℕ) (q : ι), t.nHeight q ≤ t.nHeight T → (t.nHeight q).toNat < fuel →
      ∃ f, findForkLoop t c fuel (some q) = some (some f) ∧ IsDeepestCommon t.pprev t.nHeight q T f := by
  have hg := hwf.nHeight_pprev
  intro fuel
  induction fuel with
  | zero =>
    intro q _ hfuel
    omega
  | succ fuel ih =>
    intro q hqT hfuel
    by_cases hq : Below t.pprev q T
    · refine ⟨q, ?_, isDeepestCommon_self hg hq⟩
      rw [findForkLoop, if_pos ((contains_iff hwf hgen hc q).mpr hq)]
    · rw [findForkLoop, if_neg (fun h => hq ((contains_iff hwf hgen hc q).mp h))]
      cases hp : t.pprev q with
      | none =>
        -- the only root is the genesis, and it is below every entry
        have hqg : q = g := Below.eq_of_height hg (Below.refl q) (hgen q)
          (by rw [hwf.nHeight_root q hp, BlockTree.nHeight_genesis hwf hgen])
        exact absurd (hqg ▸ hgen T) hq
      | some r =>
        have hstep := hg q r hp
        have hr := BlockTree.nHeight_nonneg hwf hgen r
        obtain ⟨f, hrun, hdeep⟩ := ih r (by omega) (by omega)
        exact ⟨f, hrun, isDeepestCommon_of_up hg hp hq hdeep⟩

/-- `FindFork` on a chain holding the branch of `T` returns the deepest
common ancestor of the entry and `T`. -/
theorem findFork_spec {T : ι} (hc : c.Holds t (some T)) (p : ι) {fuel : ℕ}
    (hfuel : (t.nHeight p).toNat < fuel) :
    ∃ f, c.findFork t fuel (some p) = some (.ok (some f)) ∧ IsDeepestCommon t.pprev t.nHeight p T f := by
  have hg := hwf.nHeight_pprev
  unfold findFork
  rw [height_of_holds hwf hgen hc]
  dsimp only
  split_ifs with hpT
  · -- an entry above the tip first goes down to the tip's height
    obtain ⟨q, hwq, hrun⟩ := BlockTree.getAncestor_of_wf hwf (BlockTree.nHeight_nonneg hwf hgen T)
      (le_of_lt hpT)
    have hhq := height_walk hg hwq
    obtain ⟨f, hloop, hdeep⟩ := findForkLoop_spec hwf hgen hc fuel q (by omega) (by omega)
    refine ⟨f, ?_, isDeepestCommon_of_below hg ⟨_, hwq⟩ (Below.refl T) (fun d _ hdT => ?_) hdeep⟩
    · rw [hrun]
      dsimp only
      rw [hloop]
      rfl
    · have := hdT.height_le hg
      omega
  · obtain ⟨f, hloop, hdeep⟩ := findForkLoop_spec hwf hgen hc fuel p (by omega) (by omega)
    refine ⟨f, ?_, hdeep⟩
    dsimp only
    rw [hloop]
    rfl

/-- On the empty chain `FindFork` returns null. -/
theorem findFork_empty (hc : c.Holds t none) (p : ι) {fuel : ℕ} (hfuel : 0 < fuel) :
    c.findFork t fuel (some p) = some (.ok none) := by
  simp only [Holds] at hc
  have hp := BlockTree.nHeight_nonneg hwf hgen p
  have hheight : c.height = -1 := by
    simp [height, hc]
  have hanc : t.getAncestor p (-1) = .ok none := by
    unfold BlockTree.getAncestor
    rw [dif_pos (by omega)]
  obtain ⟨fuel, rfl⟩ : ∃ f, fuel = f + 1 := ⟨fuel - 1, by omega⟩
  simp only [findFork, hheight, if_pos (show t.nHeight p > -1 by omega), hanc]
  rfl

/-- The deepest common ancestor with the tip is the highest ancestor-or-self
that the chain contains. -/
theorem isForkOf_of_isDeepestCommon {T p f : ι} (hc : c.Holds t (some T))
    (hf : IsDeepestCommon t.pprev t.nHeight p T f) : IsForkOf t c p f :=
  ⟨hf.1, (contains_iff hwf hgen hc f).mpr hf.2.1,
    fun d hdp hdc => hf.2.2 d hdp ((contains_iff hwf hgen hc d).mp hdc)⟩

end Genesis

end BlockTree.CChain

/-- **The fork-point functions return the deepest common ancestor.**  In a
well-formed tree with a single genesis, `LastCommonAncestor(pa, pb)` returns
the common ancestor-or-self of `pa` and `pb` of greatest height.  On a chain
that `SetTip` built with tip `T`, `FindFork(p)` returns the highest
ancestor-or-self of `p` that the chain contains, which is
`LastCommonAncestor(p, T)`; on a chain that `SetTip` cleared it returns null.
Each run is given more fuel than the height of the first entry. -/
theorem forkPoint_isDeepestCommon [DecidableEq ι] {t : BlockTree ι} {g : ι} (hwf : t.Wf)
    (hgen : ∀ i, Below t.pprev g i) :
    (∀ pa pb, ∃ c, IsDeepestCommon t.pprev t.nHeight pa pb c ∧
      ∀ fuel, (t.nHeight pa).toNat < fuel → t.lastCommonAncestor fuel pa pb = some (.ok (some c))) ∧
    (∀ (ch : BlockTree.CChain ι) (T p : ι), BlockTree.CChain.SetBy t ch (some T) → ∀ fuel, (t.nHeight p).toNat < fuel →
      ∃ f, ch.findFork t fuel (some p) = some (.ok (some f)) ∧ BlockTree.CChain.IsForkOf t ch p f ∧
        t.lastCommonAncestor fuel p T = some (.ok (some f))) ∧
    (∀ (ch : BlockTree.CChain ι) (p : ι), BlockTree.CChain.SetBy t ch none → ∀ fuel, 0 < fuel →
      ch.findFork t fuel (some p) = some (.ok none)) := by
  refine ⟨BlockTree.lastCommonAncestor_spec hwf hgen, fun ch T p hset fuel hfuel => ?_,
    fun ch p hset fuel hfuel => BlockTree.CChain.findFork_empty hwf hgen (hset.holds hwf hgen) p hfuel⟩
  have hc := hset.holds hwf hgen
  obtain ⟨f, hrun, hdeep⟩ := BlockTree.CChain.findFork_spec hwf hgen hc p hfuel
  obtain ⟨f', hdeep', hlca⟩ := BlockTree.lastCommonAncestor_spec hwf hgen p T
  -- both runs return the one deepest common ancestor of `p` and `T`
  have hff' : f = f' := hdeep.unique hwf.nHeight_pprev hdeep'
  subst hff'
  exact ⟨f, hrun, BlockTree.CChain.isForkOf_of_isDeepestCommon hwf hgen hc hdeep, hlca fuel hfuel⟩

/-- A fork above the first block: entries `2` and `3` both extend `1`, and
every skip goes to the genesis, as `BuildSkip` sets them. -/
def forkTree : BlockTree (Fin 4) where
  pprev i := if i = 0 then none else if i = 3 then some 1 else some (i - 1)
  pskip i := if i = 0 then none else some 0
  nHeight i := if i = 3 then 2 else i.val

theorem forkTree_wf : forkTree.Wf := by
  refine ⟨?_, ?_, ?_⟩
  · unfold Graded
    decide
  · decide
  · intro i
    fin_cases i
    · rfl
    · simp [BlockTree.buildSkip, forkTree, BlockTree.getAncestor, getSkipHeight]
      rw [BlockTree.getAncestorWalk]
      simp
    all_goals
      -- the walk from the first block takes its skip to the genesis
      simp [BlockTree.buildSkip, forkTree, BlockTree.getAncestor, getSkipHeight, invertLowestOne]
      rw [BlockTree.getAncestorWalk]
      simp [getSkipHeight]
      rw [BlockTree.getAncestorWalk]
      simp

theorem forkTree_genesis : ∀ i, Below forkTree.pprev 0 i := by
  intro i
  fin_cases i
  · exact ⟨0, rfl⟩
  · exact ⟨1, by decide⟩
  · exact ⟨2, by decide⟩
  · exact ⟨2, by decide⟩

/-- With the chain set to the branch of `2`, `FindFork(3)` is the first
block, and so is `LastCommonAncestor(3, 2)`. -/
theorem forkPoint_isDeepestCommon_forkTree :
    BlockTree.CChain.SetBy forkTree ⟨[some 0, some 1, some 2]⟩ (some 2) ∧
      (⟨[some 0, some 1, some 2]⟩ : BlockTree.CChain (Fin 4)).findFork forkTree 3 (some 3) = some (.ok (some 1)) ∧
      forkTree.lastCommonAncestor 3 3 2 = some (.ok (some 1)) := by
  have hset : BlockTree.CChain.SetBy forkTree ⟨[some 0, some 1, some 2]⟩ (some 2) :=
    .step .empty (show (⟨[]⟩ : BlockTree.CChain (Fin 4)).setTip forkTree 4 (some 2) = _ from rfl)
  obtain ⟨f, hrun, -, hlca⟩ :=
    (forkPoint_isDeepestCommon forkTree_wf forkTree_genesis).2.1 _ 2 3 hset 3 (by decide)
  have hf : (⟨[some 0, some 1, some 2]⟩ : BlockTree.CChain (Fin 4)).findFork forkTree 3 (some 3) =
      some (.ok (some 1)) := rfl
  rw [hf] at hrun
  cases hrun
  exact ⟨hset, hf, hlca⟩

end Veribase
