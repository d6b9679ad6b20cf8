import Mathlib

/-!
# Numbers in base `2^32`

A list of `UInt32` limbs, the least significant first, stands for a natural
number: `Limbs.value`, Mathlib's `Nat.ofDigits` in base `2^32` of the limbs'
values.  Multi-word arithmetic reads and writes such numbers one limb at a
time; this module holds what its proofs need.

* `value_append`, `value_lt` and `eq_of_value_eq`: the number of a
  concatenation, the bound a number of `n` limbs keeps, and that limbs of the
  same length and value are equal.
* `testBit_value`: bit `t` of the number is bit `t % 32` of limb `t / 32`.
* `carryLoop`: the loop that keeps the low word of `carry + column` and
  carries the high word on, over a list of column sums.  It computes the sum
  of the columns modulo the width (`value_carryLoop`); addition and both
  multiplications of a multi-word number are instances.
* `increment` and `decrement`: the loops that add or take one, going on to
  the next limb only when a limb wraps (`value_increment`,
  `value_decrement`).
-/

namespace Limbs

/-- The number the limbs stand for, the first one least significant. -/
def value (l : List UInt32) : Nat := Nat.ofDigits (2 ^ 32) (l.map UInt32.toNat)

@[simp] theorem value_nil : value [] = 0 := rfl

@[simp] theorem value_cons (w : UInt32) (l : List UInt32) :
    value (w :: l) = w.toNat + 2 ^ 32 * value l := by
  simp [value, Nat.ofDigits_cons]

theorem value_append (l₁ l₂ : List UInt32) :
    value (l₁ ++ l₂) = value l₁ + 2 ^ (32 * l₁.length) * value l₂ := by
  simp [value, Nat.ofDigits_append, pow_mul]

theorem value_lt (l : List UInt32) : value l < 2 ^ (32 * l.length) := by
  have hdigits : ∀ x ∈ l.map UInt32.toNat, x < 2 ^ 32 := by
    intro x hx
    obtain ⟨w, -, rfl⟩ := List.mem_map.mp hx
    exact w.toNat_lt
  have h := Nat.ofDigits_lt_base_pow_length (by decide) hdigits
  rwa [List.length_map, ← pow_mul] at h

@[simp] theorem value_replicate_zero (n : Nat) : value (List.replicate n 0) = 0 := by
  induction n with
  | zero => rfl
  | succ n ih => simp [List.replicate_succ, ih]

/-- Limbs of one length are equal when their numbers are. -/
theorem eq_of_value_eq {l₁ l₂ : List UInt32} (hlen : l₁.length = l₂.length)
    (h : value l₁ = value l₂) : l₁ = l₂ := by
  have hdigits : ∀ l : List UInt32, ∀ x ∈ l.map UInt32.toNat, x < 2 ^ 32 := by
    intro l x hx
    obtain ⟨w, -, rfl⟩ := List.mem_map.mp hx
    exact w.toNat_lt
  have hmap := Nat.ofDigits_inj_of_len_eq (by decide) (by simpa using hlen) (hdigits l₁)
    (hdigits l₂) h
  exact List.map_injective_iff.mpr (fun _ _ hab => UInt32.toNat_inj.mp hab) hmap

/-- Bit `t` of the number is bit `t % 32` of limb `t / 32`, and no bit lies
beyond the last limb. -/
theorem testBit_value : ∀ (l : List UInt32) (t : Nat),
    (value l).testBit t = (l.getD (t / 32) 0).toNat.testBit (t % 32)
  | [], t => by simp
  | w :: l, t => by
    rw [value_cons, Nat.add_comm, Nat.testBit_two_pow_mul_add _ w.toNat_lt]
    by_cases ht : t < 32
    · rw [if_pos ht, Nat.div_eq_of_lt ht, Nat.mod_eq_of_lt ht]
      rfl
    · -- past the first limb: the bit of the rest, one limb down
      rw [if_neg ht, testBit_value l (t - 32), show t / 32 = (t - 32) / 32 + 1 by omega,
        show t % 32 = (t - 32) % 32 by omega]
      rfl

/-- Complementing every limb takes the number to its complement in the
width. -/
theorem value_map_complement : ∀ l : List UInt32,
    value (l.map (~~~ ·)) + value l + 1 = 2 ^ (32 * l.length)
  | [] => rfl
  | w :: l => by
    have ih := value_map_complement l
    have hw := w.toNat_lt
    rw [List.map_cons, value_cons, value_cons, UInt32.toNat_not, List.length_cons, Nat.mul_succ,
      pow_add, ← ih]
    simp only [UInt32.size]
    omega

/-! ## The carry loop -/

/-- Propagate a carry through column sums: each limb is the low word of
`carry + column`, and the high word is carried to the next column. -/
def carryLoop : Nat → List Nat → List UInt32
  | _, [] => []
  | carry, c :: cs => UInt32.ofNat ((carry + c) % 2 ^ 32) :: carryLoop ((carry + c) / 2 ^ 32) cs

@[simp] theorem length_carryLoop : ∀ (carry : Nat) (cols : List Nat),
    (carryLoop carry cols).length = cols.length
  | _, [] => rfl
  | carry, _ :: cs => by simp [carryLoop, length_carryLoop _ cs]

/-- **The carry loop adds the columns** with their weights, the incoming
carry included, modulo the width. -/
theorem value_carryLoop : ∀ (carry : Nat) (cols : List Nat),
    value (carryLoop carry cols) = (carry + Nat.ofDigits (2 ^ 32) cols) % 2 ^ (32 * cols.length)
  | carry, [] => by simp [carryLoop, Nat.mod_one]
  | carry, c :: cs => by
    rw [carryLoop, value_cons, value_carryLoop, Nat.ofDigits_cons, List.length_cons, Nat.mul_succ,
      Nat.add_comm (32 * cs.length), pow_add, Nat.mod_mul]
    -- the low word stays, and the high word joins the columns above
    have hlow : (UInt32.ofNat ((carry + c) % 2 ^ 32)).toNat =
        (carry + (c + 2 ^ 32 * Nat.ofDigits (2 ^ 32) cs)) % 2 ^ 32 := by
      rw [UInt32.toNat_ofNat', Nat.mod_mod]
      omega
    have hhigh : (carry + c) / 2 ^ 32 + Nat.ofDigits (2 ^ 32) cs =
        (carry + (c + 2 ^ 32 * Nat.ofDigits (2 ^ 32) cs)) / 2 ^ 32 := by
      omega
    rw [hlow, hhigh]

/-- Column sums `y + c * v` of two limb lists, the second read as far as the
first goes. -/
theorem ofDigits_zipWith {f : UInt32 → UInt32 → Nat} {c : Nat}
    (hf : ∀ y v, f y v = y.toNat + c * v.toNat) : ∀ (l₁ l₂ : List UInt32),
      l₁.length ≤ l₂.length →
      Nat.ofDigits (2 ^ 32) (List.zipWith f l₁ l₂) = value l₁ + c * value (l₂.take l₁.length)
  | [], _, _ => by simp
  | _ :: _, [], h => by simp at h
  | y :: l₁, v :: l₂, h => by
    have ih := ofDigits_zipWith hf l₁ l₂ (by simpa using h)
    rw [List.zipWith_cons_cons, Nat.ofDigits_cons, ih, hf, List.length_cons, List.take_succ_cons,
      value_cons, value_cons]
    ring

/-- Column sums `c * w` of one limb list. -/
theorem ofDigits_map {f : UInt32 → Nat} {c : Nat} (hf : ∀ w, f w = c * w.toNat) :
    ∀ l : List UInt32, Nat.ofDigits (2 ^ 32) (l.map f) = c * value l
  | [] => by simp
  | w :: l => by
    rw [List.map_cons, Nat.ofDigits_cons, ofDigits_map hf l, hf, value_cons]
    ring

/-- The low `p + 1` limbs: the low `p`, and limb `p` above them. -/
theorem value_take_succ {l : List UInt32} {p : Nat} (hp : p < l.length) :
    value (l.take (p + 1)) = value (l.take p) + 2 ^ (32 * p) * (l.getD p 0).toNat := by
  rw [List.take_add_one, List.getElem?_eq_getElem hp, Option.toList_some, value_append,
    List.length_take_of_le (by omega), value_cons, value_nil, List.getD_eq_getElem _ _ hp]
  ring

/-- The low `p` limbs and the rest. -/
theorem value_take_add_drop (l : List UInt32) {p : Nat} (hp : p ≤ l.length) :
    value (l.take p) + 2 ^ (32 * p) * value (l.drop p) = value l := by
  have h := value_append (l.take p) (l.drop p)
  rw [List.take_append_drop, List.length_take_of_le hp] at h
  exact h.symm

theorem testBit_toNat_of_le (x : UInt32) {b : Nat} (hb : 32 ≤ b) : x.toNat.testBit b = false :=
  Nat.testBit_lt_two_pow (Nat.lt_of_lt_of_le x.toNat_lt (Nat.pow_le_pow_right (by decide) hb))

theorem testBit_getD_of_le {a : List UInt32} {i : Nat} (ha : a.length ≤ i) (b : Nat) :
    (a.getD i 0).toNat.testBit b = false := by
  rw [List.getD_eq_default _ _ ha, UInt32.toNat_zero, Nat.zero_testBit]

theorem testBit_ite_zero (c : Prop) [Decidable c] (x b : Nat) :
    (if c then x else 0).testBit b = (decide c && x.testBit b) := by
  split <;> simp [*]

/-! ## Writing into a limb -/

/-- `pn[j] |= v`: a limb ORed with a word; nothing happens past the end. -/
def orInto (pn : List UInt32) (j : Nat) (v : UInt32) : List UInt32 := pn.set j (pn.getD j 0 ||| v)

@[simp] theorem length_orInto (pn : List UInt32) (j : Nat) (v : UInt32) :
    (orInto pn j v).length = pn.length := List.length_set

theorem getD_orInto (pn : List UInt32) (j m : Nat) (v : UInt32) :
    (orInto pn j v).getD m 0 = if j = m ∧ m < pn.length then pn.getD m 0 ||| v else pn.getD m 0 := by
  unfold orInto
  rw [List.getD_eq_getElem?_getD, List.getElem?_set]
  by_cases hj : j = m
  · subst hj
    by_cases hm : j < pn.length
    · simp [hm, List.getD_eq_getElem?_getD]
    · simp [hm, List.getD_eq_getElem?_getD]
  · simp [hj, List.getD_eq_getElem?_getD]

/-- ORing a zero word changes nothing, so a conditional write is a write of
the word or of zero. -/
theorem ite_orInto (c : Prop) [Decidable c] (pn : List UInt32) (j : Nat) (v : UInt32) :
    (if c then orInto pn j v else pn) = orInto pn j (if c then v else 0) := by
  by_cases hc : c
  · simp [hc]
  · have hset : pn.set j (pn.getD j 0) = pn := by
      by_cases hj : j < pn.length
      · rw [List.getD_eq_getElem _ _ hj, List.set_getElem_self]
      · exact List.set_eq_of_length_le (Nat.le_of_not_lt hj)
    rw [if_neg hc, if_neg hc, orInto, UInt32.or_zero, hset]

theorem toNat_getD_orInto (pn : List UInt32) (j m : Nat) (v : UInt32) :
    ((orInto pn j v).getD m 0).toNat =
      (pn.getD m 0).toNat ||| (if j = m ∧ m < pn.length then v.toNat else 0) := by
  rw [getD_orInto]
  split
  · rw [UInt32.toNat_or]
  · rw [Nat.or_zero]

/-- A limb ORed with a word ORs the word, at the weight of the limb, into
the value. -/
theorem value_orInto (pn : List UInt32) {j : Nat} (v : UInt32) (hj : j < pn.length) :
    value (orInto pn j v) = value pn ||| v.toNat <<< (32 * j) := by
  apply Nat.eq_of_testBit_eq
  intro t
  rw [testBit_value, toNat_getD_orInto, Nat.testBit_or, Nat.testBit_or, testBit_value, testBit_ite_zero,
    Nat.testBit_shiftLeft]
  congr 1
  by_cases ht : t / 32 = j
  · subst ht
    simp only [hj, and_self, decide_true, Bool.true_and]
    rw [decide_eq_true (by omega), Bool.true_and, show t - 32 * (t / 32) = t % 32 by omega]
  · -- a word ORed into another limb leaves bit `t` alone
    rw [decide_eq_false (fun h => ht h.1.symm), Bool.false_and]
    by_cases hle : 32 * j ≤ t
    · rw [testBit_toNat_of_le _ (by omega), Bool.and_false]
    · rw [decide_eq_false (by omega), Bool.false_and]

/-! ## Adding and taking one -/

/-- `while (i < WIDTH && ++pn[i] == 0) i++`: a limb is incremented, and the
next one only when this one wrapped to zero. -/
def increment : List UInt32 → List UInt32
  | [] => []
  | w :: ws => if w + 1 = 0 then (w + 1) :: increment ws else (w + 1) :: ws

/-- `while (i < WIDTH && --pn[i] == std::numeric_limits<uint32_t>::max()) i++`. -/
def decrement : List UInt32 → List UInt32
  | [] => []
  | w :: ws => if w - 1 = 0xFFFFFFFF then (w - 1) :: decrement ws else (w - 1) :: ws

@[simp] theorem length_increment : ∀ l : List UInt32, (increment l).length = l.length
  | [] => rfl
  | w :: ws => by
    unfold increment
    split <;> simp [length_increment ws]

@[simp] theorem length_decrement : ∀ l : List UInt32, (decrement l).length = l.length
  | [] => rfl
  | w :: ws => by
    unfold decrement
    split <;> simp [length_decrement ws]

theorem value_increment : ∀ l : List UInt32, value (increment l) = (value l + 1) % 2 ^ (32 * l.length)
  | [] => rfl
  | w :: ws => by
    have hw := w.toNat_lt
    have hlt := value_lt ws
    rw [List.length_cons, Nat.mul_succ, Nat.add_comm (32 * ws.length), pow_add]
    unfold increment
    split
    · -- the limb wraps, and one is carried into the rest
      rename_i hwrap
      have hmax : w.toNat = 2 ^ 32 - 1 := by
        have := congrArg UInt32.toNat hwrap
        rw [UInt32.toNat_add] at this
        simp at this
        omega
      rw [value_cons, hwrap, value_increment ws, value_cons, hmax,
        show 2 ^ 32 - 1 + 2 ^ 32 * value ws + 1 = 2 ^ 32 * (value ws + 1) by omega,
        Nat.mul_mod_mul_left, UInt32.toNat_zero, Nat.zero_add]
    · rename_i hwrap
      have hadd : (w + 1).toNat = (w.toNat + 1) % 2 ^ 32 := by
        rw [UInt32.toNat_add]
        rfl
      have hne : w.toNat + 1 ≠ 2 ^ 32 := by
        intro h
        apply hwrap
        apply UInt32.toNat_inj.mp
        rw [hadd, h]
        rfl
      have hsucc : (w + 1).toNat = w.toNat + 1 := by
        rw [hadd]
        exact Nat.mod_eq_of_lt (by omega)
      rw [value_cons, value_cons, hsucc, Nat.mod_eq_of_lt]
      · omega
      · have hws : 2 ^ 32 * value ws + 2 ^ 32 ≤ 2 ^ 32 * 2 ^ (32 * ws.length) := by
          rw [← Nat.mul_succ]
          exact Nat.mul_le_mul_left _ hlt
        have : w.toNat + 1 < 2 ^ 32 := by omega
        omega

theorem value_decrement : ∀ l : List UInt32,
    value (decrement l) = (value l + 2 ^ (32 * l.length) - 1) % 2 ^ (32 * l.length)
  | [] => rfl
  | w :: ws => by
    have hw := w.toNat_lt
    have hlt := value_lt ws
    have hpos : 0 < 2 ^ (32 * ws.length) := Nat.two_pow_pos _
    rw [List.length_cons, Nat.mul_succ, Nat.add_comm (32 * ws.length), pow_add]
    unfold decrement
    split
    · -- the limb was zero: it wraps, and one is borrowed from the rest
      rename_i hwrap
      have hzero : w.toNat = 0 := by
        have := congrArg UInt32.toNat hwrap
        rw [UInt32.toNat_sub] at this
        simp at this
        omega
      have hsplit : 2 ^ 32 * value ws + 2 ^ 32 * 2 ^ (32 * ws.length) - 1 =
          2 ^ 32 - 1 + 2 ^ 32 * (value ws + 2 ^ (32 * ws.length) - 1) := by
        rw [Nat.mul_sub, Nat.mul_add, Nat.mul_one]
        omega
      have hlow : (2 ^ 32 - 1 + 2 ^ 32 * (value ws + 2 ^ (32 * ws.length) - 1)) % 2 ^ 32 =
          2 ^ 32 - 1 := by
        omega
      have hhigh : (2 ^ 32 - 1 + 2 ^ 32 * (value ws + 2 ^ (32 * ws.length) - 1)) / 2 ^ 32 =
          value ws + 2 ^ (32 * ws.length) - 1 := by
        omega
      rw [value_cons, hwrap, value_decrement ws, value_cons, hzero, Nat.zero_add, hsplit,
        Nat.mod_mul, hlow, hhigh]
      rfl
    · rename_i hwrap
      have hpred : (w - 1).toNat = w.toNat - 1 ∧ 0 < w.toNat := by
        rw [UInt32.toNat_sub]
        have hne : w.toNat ≠ 0 := fun h =>
          hwrap (UInt32.toNat_inj.mp (by rw [UInt32.toNat_sub]; simp; omega))
        simp
        omega
      rw [value_cons, value_cons, hpred.1]
      have hws : 2 ^ 32 * value ws + 2 ^ 32 ≤ 2 ^ 32 * 2 ^ (32 * ws.length) := by
        rw [← Nat.mul_succ]
        exact Nat.mul_le_mul_left _ hlt
      rw [show w.toNat + 2 ^ 32 * value ws + 2 ^ 32 * 2 ^ (32 * ws.length) - 1 =
          (w.toNat - 1 + 2 ^ 32 * value ws) + 2 ^ 32 * 2 ^ (32 * ws.length) by omega,
        Nat.add_mod_right, Nat.mod_eq_of_lt (by omega)]

end Limbs
