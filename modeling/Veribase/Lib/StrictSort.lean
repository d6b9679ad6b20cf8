import Mathlib

/-!
# Sorting by a strict comparator

`std::sort` takes a comparator `lt` and promises two things about its result:
it is a permutation of the input, and no element is `lt` an element before it.
It says nothing about the order of elements the comparator does not separate,
and the standard does not fix the algorithm.  `SortContract` is that promise,
with the sorting function left abstract.

When the comparator is *trichotomous*, any two elements being equal or
separated one way or the other, the promise determines the result: two inputs
that are permutations of each other sort to the same array
(`SortContract.sort_eq_of_perm`).  A computation that sorts right after a
random shuffle is then independent of the shuffle.

Two pieces feed that theorem.  `swapLoop` is the loop
`for (i = n; i > lo; --i) swap(v[i], v[r(i)])`, and it permutes its array
whatever `r` returns (`swapLoop_perm`).  `lexLt` compares two digit sequences
from a position downwards, most significant digit first, as a hand-written
word-by-word comparison of two big numbers does; it is irreflexive,
transitive and trichotomous on the digits it reads.

Last, a scan for a least key that keeps a running best, and replaces it only
by an element of strictly smaller key, ends on the *first* element of least
key (`scanBest_isFirstMin`); and over a list sorted by some measure, the
longest prefix below a bound is everything below it
(`takeWhile_eq_filter_of_sorted`).
-/

namespace StrictSort

variable {α : Type*}

/-! ## The contract of a sort -/

/-- Any two elements are equal or separated by the comparator. -/
def Trichotomous (lt : α → α → Bool) : Prop :=
  ∀ a b, lt a b = true ∨ lt b a = true ∨ a = b

/-- What `std::sort(v.begin(), v.end(), lt)` guarantees: a permutation of `v`
in which no element is `lt` an element before it. -/
structure SortContract (lt : α → α → Bool) where
  /-- The sorting function. -/
  sort : Array α → Array α
  /-- The result is a permutation of the input. -/
  perm : ∀ v, (sort v).Perm v
  /-- No later element is `lt` an earlier one. -/
  sorted : ∀ v, (sort v).toList.Pairwise (fun a b => lt b a = false)

/-- Under a trichotomous comparator "not `lt` the other way" is antisymmetric. -/
theorem Trichotomous.eq_of_not_lt {lt : α → α → Bool} (htri : Trichotomous lt)
    {a b : α} (hba : lt b a = false) (hab : lt a b = false) : a = b := by
  rcases htri a b with h | h | h
  · simp [h] at hab
  · simp [h] at hba
  · exact h

/-- **Sorting forgets the input order.**  Permuted inputs sort to the same
array, whichever function meets the contract. -/
theorem SortContract.sort_eq_of_perm {lt : α → α → Bool} (S : SortContract lt)
    (htri : Trichotomous lt) {v w : Array α} (h : v.Perm w) : S.sort v = S.sort w := by
  have hvw : (S.sort v).toList.Perm (S.sort w).toList := by
    rw [← Array.perm_iff_toList_perm]
    exact ((S.perm v).trans h).trans (S.perm w).symm
  apply Array.toList_inj.mp
  apply List.Perm.eq_of_pairwise _ (S.sorted v) (S.sorted w) hvw
  intro a b _ _ hab hba
  exact htri.eq_of_not_lt hab hba

/-! ## A sort that meets the contract -/

section MergeSort

variable {lt : α → α → Bool} (irrefl : ∀ a, lt a a = false)
  (trans : ∀ a b c, lt a b = true → lt b c = true → lt a c = true) (htri : Trichotomous lt)

include trans htri in
/-- "Not `lt` the other way" is transitive when `lt` is transitive and
trichotomous. -/
theorem not_lt_swap_trans (a b c : α) (hab : lt b a = false) (hbc : lt c b = false) :
    lt c a = false := by
  cases hca : lt c a
  · rfl
  · rcases htri c b with hcb | hbc' | rfl
    · simp [hcb] at hbc
    · simp [trans b c a hbc' hca] at hab
    · simp [hca] at hab

include irrefl trans in
/-- Two elements are never `lt` each other both ways. -/
theorem not_lt_swap_total (a b : α) : (!lt b a || !lt a b) = true := by
  cases hab : lt a b
  · simp
  · have hba : lt b a = false := by
      cases h : lt b a
      · rfl
      · simpa [irrefl] using trans a b a hab h
    simp [hba]

/-- Merge sort by "not `lt` the other way" meets the contract of an
irreflexive, transitive and trichotomous comparator. -/
def mergeSortContract : SortContract lt where
  sort v := (v.toList.mergeSort fun a b => !lt b a).toArray
  perm v := by
    rw [Array.perm_iff_toList_perm]
    exact List.mergeSort_perm _ _
  sorted v := by
    have h := List.pairwise_mergeSort (fun a b c hab hbc => by
        simpa using not_lt_swap_trans trans htri a b c (by simpa using hab) (by simpa using hbc))
      (not_lt_swap_total irrefl trans) v.toList
    simpa using h

end MergeSort

/-! ## Loops of swaps -/

/-- `for (i = n; i > lo; --i) std::swap(v[i], v[r(i)])`.  The swap is
`swapIfInBounds`, which is `std::swap` whenever `r(i)` is an index of `v`. -/
def swapLoop (r : Nat → Nat) (lo : Nat) : Nat → Array α → Array α
  | 0, v => v
  | i + 1, v => if lo < i + 1 then swapLoop r lo i (v.swapIfInBounds (i + 1) (r (i + 1))) else v

theorem swapIfInBounds_perm (v : Array α) (i j : Nat) : (v.swapIfInBounds i j).Perm v := by
  rw [Array.swapIfInBounds_def]
  split
  · split
    · exact Array.swap_perm ‹_› ‹_›
    · exact Array.Perm.refl v
  · exact Array.Perm.refl v

/-- A loop of swaps permutes its array, whatever indices it is given. -/
theorem swapLoop_perm (r : Nat → Nat) (lo : Nat) :
    ∀ (n : Nat) (v : Array α), (swapLoop r lo n v).Perm v
  | 0, v => Array.Perm.refl v
  | i + 1, v => by
      simp only [swapLoop]
      split
      · exact (swapLoop_perm r lo i _).trans (swapIfInBounds_perm v _ _)
      · exact Array.Perm.refl v

/-! ## Lexicographic comparison from the most significant digit -/

section Lex

variable {β : Type*} [LinearOrder β]

/-- Compare the digits `cnt - 1, …, 1, 0` of `a` and `b`, highest first: the
first differing digit decides, and equal sequences are not less. -/
def lexLt (a b : Nat → β) : Nat → Bool
  | 0 => false
  | cnt + 1 => if a cnt ≠ b cnt then decide (a cnt < b cnt) else lexLt a b cnt

/-- One digit of the comparison: a tie defers to the lower digits. -/
theorem lexLt_succ (a b : Nat → β) (cnt : Nat) :
    lexLt a b (cnt + 1) = if a cnt = b cnt then lexLt a b cnt else decide (a cnt < b cnt) := by
  by_cases h : a cnt = b cnt <;> simp [lexLt, h]

theorem lexLt_irrefl (a : Nat → β) : ∀ cnt, lexLt a a cnt = false
  | 0 => rfl
  | cnt + 1 => by rw [lexLt_succ, if_pos rfl, lexLt_irrefl a cnt]

/-- Two sequences that no comparison separates agree on every digit read. -/
theorem lexLt_trichotomy (a b : Nat → β) :
    ∀ cnt, lexLt a b cnt = true ∨ lexLt b a cnt = true ∨ ∀ i < cnt, a i = b i
  | 0 => Or.inr (Or.inr fun i hi => absurd hi (Nat.not_lt_zero i))
  | cnt + 1 => by
      rw [lexLt_succ, lexLt_succ b a]
      by_cases hne : a cnt = b cnt
      · rw [if_pos hne, if_pos hne.symm]
        rcases lexLt_trichotomy a b cnt with h | h | h
        · exact Or.inl h
        · exact Or.inr (Or.inl h)
        · refine Or.inr (Or.inr fun i hi => ?_)
          rcases Nat.lt_succ_iff_lt_or_eq.mp hi with hi | rfl
          · exact h i hi
          · exact hne
      · rw [if_neg hne, if_neg (Ne.symm hne)]
        rcases lt_or_gt_of_ne hne with h | h
        · exact Or.inl (decide_eq_true h)
        · exact Or.inr (Or.inl (decide_eq_true h))

theorem lexLt_trans (a b c : Nat → β) :
    ∀ cnt, lexLt a b cnt = true → lexLt b c cnt = true → lexLt a c cnt = true
  | 0 => by simp [lexLt]
  | cnt + 1 => by
      intro hab hbc
      rw [lexLt_succ] at hab hbc ⊢
      by_cases h1 : a cnt = b cnt <;> by_cases h2 : b cnt = c cnt
      · rw [if_pos h1] at hab
        rw [if_pos h2] at hbc
        rw [if_pos (h1.trans h2)]
        exact lexLt_trans a b c cnt hab hbc
      · rw [if_neg h2, decide_eq_true_eq] at hbc
        rw [if_neg (by rw [h1]; exact h2), decide_eq_true_eq, h1]
        exact hbc
      · rw [if_neg h1, decide_eq_true_eq] at hab
        rw [if_neg (by rw [← h2]; exact h1), decide_eq_true_eq, ← h2]
        exact hab
      · rw [if_neg h1, decide_eq_true_eq] at hab
        rw [if_neg h2, decide_eq_true_eq] at hbc
        have hac : a cnt < c cnt := lt_trans hab hbc
        rw [if_neg (ne_of_lt hac), decide_eq_true_eq]
        exact hac

end Lex

/-! ## The first least element -/

section FirstMin

variable {β : Type*} [LinearOrder β] (key : α → β)

/-- The scan for a least key: start from `b`, and take `q` as the new best
only when `key q < key best`. -/
def scanBest (b : α) (qs : List α) : α :=
  qs.foldl (fun best q => if key q < key best then q else best) b

/-- `x` is the first element of `l` with the least key: the elements before
it have larger keys, those after it keys no smaller. -/
def IsFirstMin (l : List α) (x : α) : Prop :=
  ∃ pre post, l = pre ++ x :: post ∧ (∀ y ∈ pre, key x < key y) ∧ ∀ y ∈ post, key x ≤ key y

variable {key}

theorem IsFirstMin.mem {l : List α} {x : α} (h : IsFirstMin key l x) : x ∈ l := by
  obtain ⟨pre, post, rfl, -, -⟩ := h
  simp

theorem IsFirstMin.key_le {l : List α} {x : α} (h : IsFirstMin key l x) {y : α} (hy : y ∈ l) :
    key x ≤ key y := by
  obtain ⟨pre, post, rfl, hpre, hpost⟩ := h
  rcases List.mem_append.mp hy with hy | hy
  · exact le_of_lt (hpre y hy)
  · rcases List.mem_cons.mp hy with rfl | hy
    · exact le_refl _
    · exact hpost y hy

variable (key)

theorem scanBest_nil (b : α) : scanBest key b [] = b := rfl

theorem scanBest_cons (b q : α) (qs : List α) :
    scanBest key b (q :: qs) = scanBest key (if key q < key b then q else b) qs := rfl

/-- **The scan ends on the first least element.** -/
theorem scanBest_isFirstMin (b : α) (qs : List α) : IsFirstMin key (b :: qs) (scanBest key b qs) := by
  induction qs generalizing b with
  | nil => exact ⟨[], [], rfl, by simp, by simp⟩
  | cons q qs ih =>
    rw [scanBest_cons]
    by_cases hq : key q < key b
    · -- `q` is the new best: `b` joins the elements before the result
      rw [if_pos hq]
      have hmin := ih q
      have hle : key (scanBest key q qs) ≤ key q := hmin.key_le List.mem_cons_self
      generalize scanBest key q qs = x at hmin hle ⊢
      obtain ⟨pre, post, hl, hpre, hpost⟩ := hmin
      refine ⟨b :: pre, post, by rw [hl]; rfl, ?_, hpost⟩
      intro y hy
      rcases List.mem_cons.mp hy with rfl | hy
      · exact lt_of_le_of_lt hle hq
      · exact hpre y hy
    · -- `b` stays the best: `q` joins the elements before or after the result
      rw [if_neg hq]
      have hmin := ih b
      generalize scanBest key b qs = x at hmin ⊢
      obtain ⟨pre, post, hl, hpre, hpost⟩ := hmin
      cases pre with
      | nil =>
        obtain ⟨rfl, rfl⟩ := List.cons.inj hl
        refine ⟨[], q :: qs, rfl, by simp, ?_⟩
        intro y hy
        rcases List.mem_cons.mp hy with rfl | hy
        · exact not_lt.mp hq
        · exact hpost y hy
      | cons b' pre =>
        obtain ⟨rfl, rfl⟩ := List.cons.inj hl
        have hlt : key x < key b := hpre b List.mem_cons_self
        refine ⟨b :: q :: pre, post, rfl, ?_, hpost⟩
        intro y hy
        rcases List.mem_cons.mp hy with rfl | hy
        · exact hlt
        · rcases List.mem_cons.mp hy with rfl | hy
          · exact lt_of_lt_of_le hlt (not_lt.mp hq)
          · exact hpre y (List.mem_cons_of_mem _ hy)

end FirstMin

/-- In a list sorted by `f`, the longest prefix below a bound is all of the
list below it. -/
theorem takeWhile_eq_filter_of_sorted {γ : Type*} [Preorder γ] (f : α → γ) (s : γ)
    [DecidablePred fun a => f a ≤ s] :
    ∀ {l : List α}, l.Pairwise (fun a b => f a ≤ f b) →
      l.takeWhile (fun a => decide (f a ≤ s)) = l.filter (fun a => decide (f a ≤ s))
  | [], _ => rfl
  | a :: l, hl => by
    rw [List.pairwise_cons] at hl
    by_cases ha : f a ≤ s
    · rw [List.takeWhile_cons_of_pos (by simpa using ha), List.filter_cons_of_pos (by simpa using ha),
        takeWhile_eq_filter_of_sorted f s hl.2]
    · -- everything after `a` is past the bound too
      rw [List.takeWhile_cons_of_neg (by simpa using ha), List.filter_cons_of_neg (by simpa using ha)]
      symm
      rw [List.filter_eq_nil_iff]
      intro b hb hbs
      exact ha (le_trans (hl.1 b hb) (by simpa using hbs))

end StrictSort
