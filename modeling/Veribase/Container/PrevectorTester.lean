import Veribase.Container.Prevector

/-!
# `prevector_tester`

`prevector_tester<N, T>` (`test/prevector_tests.cpp`) drives a `std::vector`
and a `prevector` through the same operations, and its `test()` checks after
each that they hold the same elements, with the same `size()` and `empty()`.
Here the tester is the record of its four vectors, `step` runs one operation
on both sides, and a run is a fold of `step`.  A `std::vector` is a `List`,
and its operations are those of the standard, written on lists.

The operations are the tester's methods and the constructors and
assignments of `prevector`.  `validOp M` asks for positions in range and for
every size an operation takes or makes to be at most `M`.  From a fresh
tester, with `M < 2^31` and `M + N + 1 < 2^32`, every valid run keeps each
prevector in step with its vector, in a representation that satisfies
`RepresentationInvariant` (`tester_refines`).  Without the bound the 32-bit
`_size` wraps: `assign(2^32 - 1, x)` leaves a `size()` of `N`
(`assign_overflow`).
-/

namespace Veribase

open prevector

variable {N : Nat} {T : Type}

/-- `prevector_tester<N, T>`: `real_vector` and `pre_vector`, each with the
`_alt` that `swap`, `move` and `copy` reach. -/
structure prevector_tester (N : Nat) (T : Type) where
  real_vector : List T
  real_vector_alt : List T
  pre_vector : prevector N T
  pre_vector_alt : prevector N T

/-- The tester's methods, with positions and counts as its `Size`, and the
constructors and assignments of `prevector` on the main pair. -/
inductive TesterOp (T : Type) where
  | resize (s : UInt32)
  | reserve (s : UInt32)
  | insert (position : UInt32) (value : T)
  | insertCount (position count : UInt32) (value : T)
  | insert_range (position : UInt32) (values : List T)
  | erase (position : UInt32)
  | eraseRange (first last : UInt32)
  | update (pos : UInt32) (value : T)
  | push_back (value : T)
  | emplace_back (value : T)
  | pop_back
  | clear
  | assign (n : UInt32) (value : T)
  | assignRange (values : List T)
  | shrink_to_fit
  | swap
  | move
  | copy
  | copyConstruct
  | moveConstruct
  | constructRange (values : List T)
  | constructCount (n : UInt32)
  | constructCountValue (n : UInt32) (value : T)
  | resize_uninitialized (values : List T)

namespace prevector_tester

/-- `for (auto v : values) { pre_vector[p] = v; ++p; }`. -/
def updateFrom (p : prevector N T) (pos : Nat) : List T → prevector N T
  | [] => p
  | x :: xs => updateFrom (p.update pos x) (pos + 1) xs

/-- What `test()` checks of a prevector and its vector, and the
representation. -/
def Agrees (p : prevector N T) (v : List T) : Prop :=
  p.toList = v ∧ p.size.toNat = v.length ∧ p.empty = v.isEmpty ∧ p.RepresentationInvariant

theorem agrees_of_refines (hN : N + 1 < 2 ^ 32) {p : prevector N T} {v : List T}
    (h : Refines p v) : Agrees p v :=
  ⟨h.2, (h.length hN).symm, h.empty hN, h.1.representationInvariant hN⟩

/-- The writes after `resize_uninitialized` set the slots from `pos`
on, whatever they held. -/
theorem refines_updateFrom (hN : N + 1 < 2 ^ 32) (values : List T) :
    ∀ {p : prevector N T} {u w : List T}, Refines p (u ++ w) → w.length = values.length →
      Refines (updateFrom p u.length values) (u ++ values) := by
  induction values with
  | nil =>
    intro p u w h hw
    rw [List.length_nil, List.length_eq_zero_iff] at hw
    subst hw
    exact h
  | cons x xs ih =>
    intro p u w h hw
    obtain ⟨y, w', rfl⟩ : ∃ y w', w = y :: w' := List.exists_cons_of_length_pos (by simp [hw])
    have h1 := h.update hN u.length x (by simp)
    rw [List.set_append_right _ _ (le_refl _), Nat.sub_self, List.set_cons_zero,
      show u ++ x :: w' = (u ++ [x]) ++ w' by simp] at h1
    have h2 := ih h1 (by simpa using hw)
    rw [List.length_append, List.length_singleton] at h2
    rw [updateFrom]
    simpa using h2

/-- The growth of the vectors, written on lists: what bounds each new size. -/
theorem length_take_append_drop {v : List T} {pos : Nat} (values : List T) (hpos : pos ≤ v.length) :
    (v.take pos ++ values ++ v.drop pos).length = v.length + values.length := by
  simp only [List.length_append, List.length_take, List.length_drop]
  omega

variable [Inhabited T]

/-- A fresh tester. -/
def init : prevector_tester N T := ⟨[], [], prevector.init, prevector.init⟩

/-- One operation on both sides. -/
def step (t : prevector_tester N T) : TesterOp T → prevector_tester N T
  | .resize s =>
    { t with
      real_vector := t.real_vector.take s.toNat ++ List.replicate (s.toNat - t.real_vector.length) default
      pre_vector := t.pre_vector.resize s }
  | .reserve s => { t with pre_vector := t.pre_vector.reserve s }
  | .insert position value =>
    { t with
      real_vector := t.real_vector.take position.toNat ++ [value] ++ t.real_vector.drop position.toNat
      pre_vector := t.pre_vector.insert position.toNat value }
  | .insertCount position count value =>
    { t with
      real_vector := t.real_vector.take position.toNat ++ List.replicate count.toNat value ++
        t.real_vector.drop position.toNat
      pre_vector := t.pre_vector.insertCount position.toNat count value }
  | .insert_range position values =>
    { t with
      real_vector := t.real_vector.take position.toNat ++ values ++ t.real_vector.drop position.toNat
      pre_vector := t.pre_vector.insertRange position.toNat values }
  | .erase position =>
    { t with
      real_vector := t.real_vector.take position.toNat ++ t.real_vector.drop (position.toNat + 1)
      pre_vector := t.pre_vector.eraseOne position.toNat }
  | .eraseRange first last =>
    { t with
      real_vector := t.real_vector.take first.toNat ++ t.real_vector.drop last.toNat
      pre_vector := t.pre_vector.erase first.toNat last.toNat }
  | .update pos value =>
    { t with
      real_vector := t.real_vector.set pos.toNat value
      pre_vector := t.pre_vector.update pos.toNat value }
  | .push_back value | .emplace_back value =>
    { t with
      real_vector := t.real_vector ++ [value]
      pre_vector := t.pre_vector.emplace_back value }
  | .pop_back => { t with real_vector := t.real_vector.dropLast, pre_vector := t.pre_vector.pop_back }
  | .clear => { t with real_vector := [], pre_vector := t.pre_vector.clear }
  | .assign n value =>
    { t with
      real_vector := List.replicate n.toNat value
      pre_vector := t.pre_vector.assign n value }
  | .assignRange values => { t with real_vector := values, pre_vector := t.pre_vector.assignRange values }
  | .shrink_to_fit => { t with pre_vector := t.pre_vector.shrink_to_fit }
  | .swap =>
    let swapped := t.pre_vector.swap t.pre_vector_alt
    ⟨t.real_vector_alt, t.real_vector, swapped.1, swapped.2⟩
  | .move =>
    -- the move assignment swaps; then `pre_vector_alt.clear()`
    let swapped := t.pre_vector.swap t.pre_vector_alt
    ⟨t.real_vector_alt, [], swapped.1, swapped.2.clear⟩
  | .copy =>
    -- the copy assignment is `assign(other.begin(), other.end())`
    { t with
      real_vector := t.real_vector_alt
      pre_vector := t.pre_vector.assignRange t.pre_vector_alt.toList }
  | .copyConstruct => { t with real_vector := t.real_vector_alt, pre_vector := copy t.pre_vector_alt }
  | .moveConstruct =>
    -- a fresh object swapped with the other one
    let swapped := prevector.init.swap t.pre_vector_alt
    ⟨t.real_vector_alt, [], swapped.1, swapped.2⟩
  | .constructRange values => { t with real_vector := values, pre_vector := ofRange values }
  | .constructCount n =>
    { t with
      real_vector := List.replicate n.toNat default
      pre_vector := ofCount n }
  | .constructCountValue n value =>
    { t with
      real_vector := List.replicate n.toNat value
      pre_vector := ofCountValue n value }
  | .resize_uninitialized values =>
    let s := t.real_vector.length / 2
    let pre := t.pre_vector.resize_uninitialized s.toUInt32
    let p := pre.size
    let pre := pre.resize_uninitialized (p.toNat + values.length).toUInt32
    { t with
      real_vector := t.real_vector.take s ++ values
      pre_vector := updateFrom pre p.toNat values }

/-- The tester run through `ops`. -/
def run (t : prevector_tester N T) (ops : List (TesterOp T)) : prevector_tester N T := ops.foldl step t

/-- The operations allowed on `t`: positions in range, and every size an
operation takes or makes at most `M`. -/
def validOp (M : Nat) (t : prevector_tester N T) : TesterOp T → Bool
  | .resize s => decide (s.toNat ≤ M)
  | .reserve _ => true
  | .insert position _ => decide (position.toNat ≤ t.real_vector.length ∧ t.real_vector.length + 1 ≤ M)
  | .insertCount position count _ =>
    decide (position.toNat ≤ t.real_vector.length ∧ t.real_vector.length + count.toNat ≤ M)
  | .insert_range position values =>
    decide (position.toNat ≤ t.real_vector.length ∧ t.real_vector.length + values.length ≤ M)
  | .erase position => decide (position.toNat < t.real_vector.length)
  | .eraseRange first last => decide (first.toNat ≤ last.toNat ∧ last.toNat ≤ t.real_vector.length)
  | .update pos _ => decide (pos.toNat < t.real_vector.length)
  | .push_back _ | .emplace_back _ => decide (t.real_vector.length + 1 ≤ M)
  | .pop_back => decide (0 < t.real_vector.length)
  | .clear | .shrink_to_fit | .swap | .move | .copy | .copyConstruct | .moveConstruct => true
  | .assign n _ | .constructCount n | .constructCountValue n _ => decide (n.toNat ≤ M)
  | .assignRange values | .constructRange values => decide (values.length ≤ M)
  | .resize_uninitialized values => decide (t.real_vector.length / 2 + values.length ≤ M)

/-- Every operation of the run allowed where it is made. -/
def validRun (M : Nat) : prevector_tester N T → List (TesterOp T) → Bool
  | _, [] => true
  | t, op :: ops => validOp M t op && validRun M (t.step op) ops

/-! ## The run keeps the prevectors in step -/

/-- The invariant of a run: each prevector refines its vector, and the
vectors are within `M`. -/
structure Synced (M : Nat) (t : prevector_tester N T) : Prop where
  pre : Refines t.pre_vector t.real_vector
  alt : Refines t.pre_vector_alt t.real_vector_alt
  real_le : t.real_vector.length ≤ M
  alt_le : t.real_vector_alt.length ≤ M

theorem synced_init {M : Nat} : Synced M (init : prevector_tester N T) :=
  ⟨refines_init, refines_init, Nat.zero_le _, Nat.zero_le _⟩

section Bound

variable {M : Nat}

/-- One allowed operation keeps the prevectors in step. -/
theorem synced_step (hM : M < 2 ^ 31) (hMN : M + N + 1 < 2 ^ 32) {t : prevector_tester N T}
    (h : Synced M t) {op : TesterOp T} (hv : validOp M t op = true) : Synced M (t.step op) := by
  have hN : N + 1 < 2 ^ 32 := by omega
  obtain ⟨hpre, halt, hle, halt_le⟩ := h
  cases op with
  | resize s =>
    simp only [validOp, decide_eq_true_eq] at hv
    refine ⟨hpre.resize hN s (by omega), halt, ?_, halt_le⟩
    simp only [step, List.length_append, List.length_take, List.length_replicate]
    omega
  | reserve s => exact ⟨(hpre.reserve hN s (by omega)).1, halt, hle, halt_le⟩
  | insert position value =>
    simp only [validOp, decide_eq_true_eq] at hv
    refine ⟨hpre.insert hN value hv.1 (by omega) (by omega), halt, ?_, halt_le⟩
    simp only [step, length_take_append_drop [value] hv.1, List.length_singleton]
    omega
  | insertCount position count value =>
    simp only [validOp, decide_eq_true_eq] at hv
    refine ⟨hpre.insertCount hN count value hv.1 (by omega) (by omega), halt, ?_, halt_le⟩
    simp only [step, length_take_append_drop _ hv.1, List.length_replicate]
    omega
  | insert_range position values =>
    simp only [validOp, decide_eq_true_eq] at hv
    refine ⟨hpre.insertRange hN values hv.1 (by omega) (by omega), halt, ?_, halt_le⟩
    simp only [step, length_take_append_drop _ hv.1]
    omega
  | erase position =>
    simp only [validOp, decide_eq_true_eq] at hv
    refine ⟨hpre.erase hN _ _ (Nat.le_succ _) hv, halt, ?_, halt_le⟩
    simp only [step, List.length_append, List.length_take, List.length_drop]
    omega
  | eraseRange first last =>
    simp only [validOp, decide_eq_true_eq] at hv
    refine ⟨hpre.erase hN _ _ hv.1 hv.2, halt, ?_, halt_le⟩
    simp only [step, List.length_append, List.length_take, List.length_drop]
    omega
  | update pos value =>
    simp only [validOp, decide_eq_true_eq] at hv
    refine ⟨hpre.update hN _ value hv, halt, ?_, halt_le⟩
    simpa only [step, List.length_set] using hle
  | push_back value | emplace_back value =>
    simp only [validOp, decide_eq_true_eq] at hv
    refine ⟨hpre.emplace_back hN value (by omega) (by omega), halt, ?_, halt_le⟩
    simpa only [step, List.length_append, List.length_singleton] using hv
  | pop_back =>
    simp only [validOp, decide_eq_true_eq] at hv
    refine ⟨hpre.pop_back hN hv, halt, ?_, halt_le⟩
    simp only [step, List.length_dropLast]
    omega
  | clear => exact ⟨hpre.clear hN, halt, Nat.zero_le _, halt_le⟩
  | assign n value =>
    simp only [validOp, decide_eq_true_eq] at hv
    refine ⟨hpre.assign hN n value (by omega), halt, ?_, halt_le⟩
    simpa only [step, List.length_replicate] using hv
  | assignRange values =>
    simp only [validOp, decide_eq_true_eq] at hv
    exact ⟨hpre.assignRange hN values (by omega), halt, hv, halt_le⟩
  | shrink_to_fit => exact ⟨hpre.shrink_to_fit hN (by omega), halt, hle, halt_le⟩
  | swap => exact ⟨halt, hpre, halt_le, hle⟩
  | move => exact ⟨halt, hpre.clear hN, halt_le, Nat.zero_le _⟩
  | copy =>
    -- the copy is made from the other prevector's elements
    obtain ⟨hinv, hlist⟩ := hpre.assignRange hN t.pre_vector_alt.toList (by rw [halt.2]; omega)
    exact ⟨⟨hinv, hlist.trans halt.2⟩, halt, halt_le, halt_le⟩
  | copyConstruct => exact ⟨halt.copy hN (by omega), halt, halt_le, halt_le⟩
  | moveConstruct => exact ⟨halt, refines_init, halt_le, Nat.zero_le _⟩
  | constructRange values =>
    simp only [validOp, decide_eq_true_eq] at hv
    exact ⟨Refines.ofRange hN values (by omega), halt, hv, halt_le⟩
  | constructCount n =>
    simp only [validOp, decide_eq_true_eq] at hv
    refine ⟨Refines.ofCount hN n (by omega), halt, ?_, halt_le⟩
    simpa only [step, List.length_replicate] using hv
  | constructCountValue n value =>
    simp only [validOp, decide_eq_true_eq] at hv
    refine ⟨Refines.ofCountValue hN n value (by omega), halt, ?_, halt_le⟩
    simpa only [step, List.length_replicate] using hv
  | resize_uninitialized values =>
    simp only [validOp, decide_eq_true_eq] at hv
    -- `resize_uninitialized(s)` with `s` half the size erases the tail
    have hs : (t.real_vector.length / 2).toUInt32.toNat = t.real_vector.length / 2 := by
      simp only [Nat.toUInt32_eq, UInt32.toNat_ofNat']
      omega
    obtain ⟨w, hq, hw⟩ := hpre.resize_uninitialized hN (t.real_vector.length / 2).toUInt32
      (by omega)
    rw [hs] at hq hw
    rw [List.length_eq_zero_iff.mp (show w.length = 0 by omega), List.append_nil] at hq
    set q := t.pre_vector.resize_uninitialized (t.real_vector.length / 2).toUInt32
    have hhalf : (t.real_vector.take (t.real_vector.length / 2)).length = t.real_vector.length / 2 := by
      simp only [List.length_take]
      omega
    have hqsize : q.size.toNat = t.real_vector.length / 2 := by
      rw [← hq.length hN, hhalf]
    -- then `resize_uninitialized(p + r)` adds `r` slots, which the loop writes
    have hsz : (q.size.toNat + values.length).toUInt32.toNat = t.real_vector.length / 2 + values.length := by
      simp only [Nat.toUInt32_eq, UInt32.toNat_ofNat']
      omega
    obtain ⟨w', hq', hw'⟩ := hq.resize_uninitialized hN (q.size.toNat + values.length).toUInt32
      (by omega)
    rw [hsz, List.take_of_length_le (by omega)] at hq'
    rw [hsz, hhalf] at hw'
    have hr := refines_updateFrom hN values hq' (by omega)
    rw [show (t.real_vector.take (t.real_vector.length / 2)).length = q.size.toNat by rw [hhalf, hqsize]] at hr
    refine ⟨hr, halt, ?_, halt_le⟩
    simp only [step, List.length_append, List.length_take]
    omega

/-- An allowed run keeps the prevectors in step. -/
theorem synced_run (hM : M < 2 ^ 31) (hMN : M + N + 1 < 2 ^ 32) (ops : List (TesterOp T)) :
    ∀ {t : prevector_tester N T}, Synced M t → validRun M t ops = true → Synced M (t.run ops) := by
  induction ops with
  | nil =>
    intro t h _
    exact h
  | cons op ops ih =>
    intro t h hv
    simp only [validRun, Bool.and_eq_true] at hv
    exact ih (synced_step hM hMN h hv.1) hv.2

/-- `prevector<N, T>` refines `std::vector<T>`: from a fresh tester, every
run whose positions are in range and whose sizes stay within `M` (with
`M < 2^31` and `M + N + 1 < 2^32`) ends with each prevector holding its
vector's elements, with the same `size()` and `empty()`, in the
representation `RepresentationInvariant` states. -/
theorem tester_refines (hM : M < 2 ^ 31) (hMN : M + N + 1 < 2 ^ 32) (ops : List (TesterOp T))
    (hvalid : validRun M (init : prevector_tester N T) ops = true) :
    Agrees ((init : prevector_tester N T).run ops).pre_vector ((init : prevector_tester N T).run ops).real_vector ∧
      Agrees ((init : prevector_tester N T).run ops).pre_vector_alt
        ((init : prevector_tester N T).run ops).real_vector_alt := by
  have hN : N + 1 < 2 ^ 32 := by omega
  obtain ⟨hpre, halt, -, -⟩ := synced_run hM hMN ops synced_init hvalid
  exact ⟨agrees_of_refines hN hpre, agrees_of_refines hN halt⟩

/-- A run of the tester over `prevector<2, Nat>` through both representations. -/
def sampleOps : List (TesterOp Nat) :=
  [.push_back 1, .push_back 2, .insert 0 7, .insertCount 1 2 5, .erase 1, .swap, .constructRange [3, 4],
    .copy, .resize_uninitialized [8, 9, 6], .pop_back]

theorem tester_refines_sample :
    (10 : Nat) < 2 ^ 31 ∧ 10 + 2 + 1 < 2 ^ 32 ∧ validRun 10 (init : prevector_tester 2 Nat) sampleOps = true ∧
      Agrees ((init : prevector_tester 2 Nat).run sampleOps).pre_vector
        ((init : prevector_tester 2 Nat).run sampleOps).real_vector ∧
      Agrees ((init : prevector_tester 2 Nat).run sampleOps).pre_vector_alt
        ((init : prevector_tester 2 Nat).run sampleOps).real_vector_alt :=
  ⟨by decide, by decide, by decide, tester_refines (M := 10) (by decide) (by decide) sampleOps (by decide)⟩

/-- Without the bound: `assign(2^32 - 1, x)` on a fresh
`prevector<1, bool>` moves to a heap block (`_size = 2`), and
`_size += n` wraps to `1`, an inline object of size `1`, while the
vector holds `2^32 - 1` elements. -/
theorem assign_overflow :
    ((init : prevector_tester 1 Bool).step (.assign 0xFFFFFFFF true)).pre_vector.size.toNat = 1 ∧
      ((init : prevector_tester 1 Bool).step (.assign 0xFFFFFFFF true)).real_vector.length = 2 ^ 32 - 1 := by
  refine ⟨by decide +kernel, ?_⟩
  simp only [step, List.length_replicate]
  rfl

end Bound

end prevector_tester

end Veribase
