import Mathlib

/-!
# Ancestry along a parent map

A forest given by a partial parent map `up : ι → Option ι`.  `walk up k i`
follows `up` from `i` `k` times, and `Below up j i` says `j` is `i` or one of
its ancestors.  With a height that the parent map lowers by exactly one
(`Graded`), the ancestors of an entry form a chain, one at each height
(`Below.eq_of_height`, `Below.of_height_le`), and the deepest common ancestor
of two entries is unique (`IsDeepestCommon.unique`) and is where two walks
from equal heights first meet (`exists_first_meet`, `isDeepestCommon_of_meet`);
walking up from an entry that is not below `b` keeps it
(`isDeepestCommon_of_up`).  When the roots sit at height zero, the walk from
an entry never stops short of height zero (`exists_walk`).
-/

namespace Ancestry

variable {ι : Type} (up : ι → Option ι)

/-- Follow `up` from `i`, `k` times. -/
def walk : ℕ → ι → Option ι
  | 0, i => some i
  | k + 1, i => (up i).bind (walk k)

@[simp] theorem walk_zero (i : ι) : walk up 0 i = some i := rfl

theorem walk_succ (k : ℕ) (i : ι) : walk up (k + 1) i = (up i).bind (walk up k) := rfl

theorem walk_add (a b : ℕ) (i : ι) : walk up (a + b) i = (walk up a i).bind (walk up b) := by
  induction a generalizing i with
  | zero => simp
  | succ a ih =>
    rw [Nat.add_right_comm, walk_succ, walk_succ]
    cases up i with
    | none => rfl
    | some j => exact ih j

/-- The last step of a walk is one more step up. -/
theorem walk_succ' (k : ℕ) (i : ι) : walk up (k + 1) i = (walk up k i).bind up := by
  rw [walk_add]
  cases walk up k i with
  | none => rfl
  | some j =>
    show walk up 1 j = up j
    rw [walk_succ]
    cases up j <;> rfl

/-- `j` is `i` or an ancestor of `i`. -/
def Below (j i : ι) : Prop := ∃ k, walk up k i = some j

/-- `c` is a common ancestor-or-self of `a` and `b`, of greatest height `h`
among them. -/
def IsDeepestCommon (h : ι → ℤ) (a b c : ι) : Prop :=
  Below up c a ∧ Below up c b ∧ ∀ d, Below up d a → Below up d b → h d ≤ h c

variable {up}

theorem Below.refl (i : ι) : Below up i i := ⟨0, rfl⟩

theorem Below.trans {a b c : ι} (hab : Below up a b) (hbc : Below up b c) : Below up a c := by
  obtain ⟨k₁, h₁⟩ := hab
  obtain ⟨k₂, h₂⟩ := hbc
  exact ⟨k₂ + k₁, by rw [walk_add, h₂]; exact h₁⟩

theorem Below.of_up {i j : ι} (h : up i = some j) : Below up j i := ⟨1, by simp [walk_succ, h]⟩

/-- A walk that gets somewhere passed an entry at every shorter length. -/
theorem exists_walk_of_le {k n : ℕ} {i j : ι} (hw : walk up n i = some j) (hk : k ≤ n) :
    ∃ c, walk up k i = some c := by
  obtain ⟨m, rfl⟩ := Nat.exists_eq_add_of_le hk
  rw [walk_add] at hw
  cases hc : walk up k i with
  | none => rw [hc] at hw; cases hw
  | some c => exact ⟨c, rfl⟩

/-! ## Heights -/

section Graded

variable {h : ι → ℤ}

/-- The parent map lowers the height by exactly one. -/
def Graded (up : ι → Option ι) (h : ι → ℤ) : Prop := ∀ i j, up i = some j → h i = h j + 1

variable (hg : Graded up h)
include hg

theorem height_walk {k : ℕ} {i j : ι} (hw : walk up k i = some j) : h j = h i - k := by
  induction k generalizing i with
  | zero =>
    cases hw
    simp
  | succ k ih =>
    rw [walk_succ] at hw
    cases hup : up i with
    | none => rw [hup] at hw; cases hw
    | some p =>
      rw [hup] at hw
      have := ih hw
      have := hg i p hup
      push_cast
      omega

theorem Below.height_le {i j : ι} (hb : Below up j i) : h j ≤ h i := by
  obtain ⟨k, hk⟩ := hb
  have := height_walk hg hk
  omega

/-- An entry has at most one ancestor at each height. -/
theorem Below.eq_of_height {i j j' : ι} (hj : Below up j i) (hj' : Below up j' i) (hh : h j = h j') :
    j = j' := by
  obtain ⟨k, hk⟩ := hj
  obtain ⟨k', hk'⟩ := hj'
  have h1 := height_walk hg hk
  have h2 := height_walk hg hk'
  have hkk : k = k' := by omega
  subst hkk
  rw [hk] at hk'
  exact Option.some.inj hk'

/-- The ancestors of an entry form a chain: the lower of two is below the
higher. -/
theorem Below.of_height_le {i c d : ι} (hc : Below up c i) (hd : Below up d i) (hle : h d ≤ h c) :
    Below up d c := by
  obtain ⟨k, hk⟩ := hc
  obtain ⟨k', hk'⟩ := hd
  have h1 := height_walk hg hk
  have h2 := height_walk hg hk'
  obtain ⟨n, rfl⟩ : ∃ n, k' = k + n := ⟨k' - k, by omega⟩
  rw [walk_add, hk] at hk'
  exact ⟨n, hk'⟩

/-- Two walks of equal length from entries of equal height meet exactly at
common ancestors. -/
theorem walk_eq_of_common {x y d : ι} (hxy : h x = h y) (hdx : Below up d x) (hdy : Below up d y) :
    ∃ k, walk up k x = some d ∧ walk up k y = some d := by
  obtain ⟨k, hk⟩ := hdx
  obtain ⟨k', hk'⟩ := hdy
  have h1 := height_walk hg hk
  have h2 := height_walk hg hk'
  have hkk : k = k' := by omega
  subst hkk
  exact ⟨k, hk, hk'⟩

/-- Two entries of equal height with a common ancestor have a first length
at which their walks agree, and the walks still stand on an entry there. -/
theorem exists_first_meet {x y d : ι} (hxy : h x = h y) (hdx : Below up d x) (hdy : Below up d y) :
    ∃ k c, walk up k x = some c ∧ walk up k y = some c ∧ ∀ k' < k, walk up k' x ≠ walk up k' y := by
  classical
  obtain ⟨n, hnx, hny⟩ := walk_eq_of_common hg hxy hdx hdy
  have hex : ∃ k, walk up k x = walk up k y := ⟨n, by rw [hnx, hny]⟩
  obtain ⟨c, hc⟩ := exists_walk_of_le hnx (Nat.find_min' hex (by rw [hnx, hny]))
  refine ⟨Nat.find hex, c, hc, ?_, fun k' hk' => Nat.find_min hex hk'⟩
  rw [← Nat.find_spec hex, hc]

/-- An entry below every entry is a root. -/
theorem up_eq_none_of_below_all {g : ι} (hall : ∀ i, Below up g i) : up g = none := by
  cases hup : up g with
  | none => rfl
  | some p =>
    have hle := (hall p).height_le hg
    have hstep := hg g p hup
    omega

/-- An entry that is below `b` is its own deepest common ancestor with `b`. -/
theorem isDeepestCommon_self {a b : ι} (hab : Below up a b) : IsDeepestCommon up h a b a :=
  ⟨Below.refl a, hab, fun _ hda _ => hda.height_le hg⟩

/-- Stepping up from an entry that is not below `b` keeps the deepest common
ancestor with `b`: every common ancestor lies strictly lower. -/
theorem isDeepestCommon_of_up {a r b c : ι} (hup : up a = some r) (hnot : ¬Below up a b)
    (hc : IsDeepestCommon up h r b c) : IsDeepestCommon up h a b c := by
  obtain ⟨hcr, hcb, hmax⟩ := hc
  have hra : Below up r a := Below.of_up hup
  refine ⟨hcr.trans hra, hcb, fun d hda hdb => ?_⟩
  have hne : h d ≠ h a := fun heq => hnot (Below.eq_of_height hg hda (Below.refl a) heq ▸ hdb)
  have hle : h d ≤ h r := by
    have := hda.height_le hg
    have := hg a r hup
    omega
  exact hmax d (Below.of_height_le hg hra hda hle) hdb

/-- **The first meeting point is the deepest common ancestor.**  Walking up
in lockstep from two entries of equal height, the first entry both walks
reach is their deepest common ancestor. -/
theorem isDeepestCommon_of_meet {x y c : ι} {k : ℕ} (hxy : h x = h y)
    (hx : walk up k x = some c) (hy : walk up k y = some c)
    (hfirst : ∀ k' < k, walk up k' x ≠ walk up k' y) : IsDeepestCommon up h x y c := by
  refine ⟨⟨k, hx⟩, ⟨k, hy⟩, fun d hdx hdy => ?_⟩
  obtain ⟨k', hk'x, hk'y⟩ := walk_eq_of_common hg hxy hdx hdy
  have hle : k ≤ k' := by
    by_contra hlt
    exact hfirst k' (by omega) (by rw [hk'x, hk'y])
  have h1 := height_walk hg hx
  have h2 := height_walk hg hk'x
  omega

/-- Common ancestors of two entries are those of their ancestors at any
height above all of them. -/
theorem isDeepestCommon_of_below {a b a' b' c : ι} (ha : Below up a' a) (hb : Below up b' b)
    (hcover : ∀ d, Below up d a → Below up d b → h d ≤ h a' ∧ h d ≤ h b')
    (hc : IsDeepestCommon up h a' b' c) : IsDeepestCommon up h a b c := by
  obtain ⟨hca, hcb, hmax⟩ := hc
  refine ⟨hca.trans ha, hcb.trans hb, fun d hda hdb => ?_⟩
  obtain ⟨hda', hdb'⟩ := hcover d hda hdb
  exact hmax d (Below.of_height_le hg ha hda hda') (Below.of_height_le hg hb hdb hdb')

/-- Two entries have one deepest common ancestor. -/
theorem IsDeepestCommon.unique {a b c c' : ι} (hc : IsDeepestCommon up h a b c)
    (hc' : IsDeepestCommon up h a b c') : c = c' := by
  have hle := hc'.2.2 c hc.1 hc.2.1
  have hge := hc.2.2 c' hc'.1 hc'.2.1
  exact Below.eq_of_height hg hc.1 hc'.1 (le_antisymm hle hge)

/-! ## Rooted at height zero -/

variable (hroot : ∀ i, up i = none → h i = 0)
include hroot

/-- Walking up no further than height zero never falls off a root. -/
theorem exists_walk {k : ℕ} {i : ι} (hk : (k : ℤ) ≤ h i) : ∃ j, walk up k i = some j := by
  induction k generalizing i with
  | zero => exact ⟨i, rfl⟩
  | succ k ih =>
    rw [walk_succ]
    cases hup : up i with
    | none =>
      have := hroot i hup
      omega
    | some p =>
      have := hg i p hup
      exact ih (by omega)

end Graded

end Ancestry
