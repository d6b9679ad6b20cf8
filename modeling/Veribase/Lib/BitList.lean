import Mathlib.Data.Nat.Bitwise
import Mathlib.Tactic.NormNum
import Mathlib.Tactic.Ring

/-!
# Bit lists, most significant bit first

A bit stream that writes every field from its most significant bit, and fills
each byte the same way, is a list of booleans.  `beBits n k` is the field of
`k` bits holding `n`, `ofBits` reads a list back as a number, and `bytesBits`
is what a byte string holds.

Everything rests on `beBits_mul_two_pow_add`: a number that holds `x` in its
low `s` bits and `y` above them spells `y`, then `x`.  Splitting a field
(`beBits_add`), reading one back (`ofBits_beBits`) and the
fields of all ones or all zeros follow from it.  `shiftLeft_mod_or` is the
accumulator step of a reader that shifts a word left and ORs in the next
chunk: below the word size it is multiply-and-add.
-/

namespace BitList

/-- The low `k` bits of `n`, most significant first. -/
def beBits (n : Nat) : Nat → List Bool
  | 0 => []
  | k + 1 => n.testBit k :: beBits n k

/-- The number a list of bits spells, most significant first. -/
def ofBits : List Bool → Nat
  | [] => 0
  | b :: bs => b.toNat * 2 ^ bs.length + ofBits bs

/-- The bits of a byte, most significant first. -/
def byteBits (b : UInt8) : List Bool := beBits b.toNat 8

/-- The bits of a byte string, byte after byte. -/
def bytesBits (l : List UInt8) : List Bool := l.flatMap byteBits

/-! ## Fields -/

@[simp] theorem beBits_zero (n : Nat) : beBits n 0 = [] := rfl

@[simp] theorem length_beBits (n k : Nat) : (beBits n k).length = k := by
  induction k with
  | zero => rfl
  | succ k ih => simp [beBits, ih]

/-- A field depends on the bits it covers only. -/
theorem beBits_congr {m n k : Nat} (h : ∀ i < k, m.testBit i = n.testBit i) :
    beBits m k = beBits n k := by
  induction k with
  | zero => rfl
  | succ k ih =>
    rw [beBits, beBits, h k (Nat.lt_succ_self k), ih fun i hi => h i (by omega)]

@[simp] theorem beBits_mod_two_pow (n : Nat) {j k : Nat} (h : k ≤ j) :
    beBits (n % 2 ^ j) k = beBits n k :=
  beBits_congr fun i hi => by
    rw [Nat.testBit_mod_two_pow, decide_eq_true (show i < j by omega), Bool.true_and]

/-- **Concatenation.**  A number holding `x` in its low `s` bits and `y` above
them spells `y`, then `x`. -/
theorem beBits_mul_two_pow_add (y : Nat) {x s : Nat} (hx : x < 2 ^ s) (k : Nat) :
    beBits (y * 2 ^ s + x) (k + s) = beBits y k ++ beBits x s := by
  induction k with
  | zero =>
    rw [Nat.zero_add, beBits_zero, List.nil_append]
    apply beBits_congr
    intro i hi
    rw [Nat.mul_comm, Nat.testBit_two_pow_mul_add _ hx, if_pos hi]
  | succ k ih =>
    rw [show k + 1 + s = (k + s) + 1 by omega, beBits, ih, beBits, List.cons_append]
    rw [Nat.mul_comm, Nat.testBit_two_pow_mul_add _ hx, if_neg (by omega),
      Nat.add_sub_cancel]

/-- A field of `a + b` bits is its high `a` bits, then its low `b` bits. -/
theorem beBits_add (n a b : Nat) : beBits n (a + b) = beBits (n >>> b) a ++ beBits n b := by
  have hsplit : n = (n >>> b) * 2 ^ b + n % 2 ^ b := by
    rw [Nat.shiftRight_eq_div_pow, Nat.mul_comm]
    exact (Nat.div_add_mod n (2 ^ b)).symm
  conv_lhs => rw [hsplit]
  rw [beBits_mul_two_pow_add _ (Nat.mod_lt _ (Nat.two_pow_pos b)), beBits_mod_two_pow n le_rfl]

/-- Shifting a field out of the low `m` bits only reads those bits. -/
theorem beBits_mod_shiftRight (n : Nat) {m j k : Nat} (h : j + k ≤ m) :
    beBits ((n % 2 ^ m) >>> j) k = beBits (n >>> j) k :=
  beBits_congr fun i hi => by
    rw [Nat.testBit_shiftRight, Nat.testBit_shiftRight, Nat.testBit_mod_two_pow,
      decide_eq_true (show j + i < m by omega), Bool.true_and]

theorem beBits_zero_left (k : Nat) : beBits 0 k = List.replicate k false := by
  induction k with
  | zero => rfl
  | succ k ih => rw [beBits, ih, Nat.zero_testBit, List.replicate_succ]

/-- A field of ones. -/
theorem beBits_two_pow_sub_one {j k : Nat} (h : k ≤ j) :
    beBits (2 ^ j - 1) k = List.replicate k true := by
  induction k with
  | zero => rfl
  | succ k ih =>
    rw [beBits, ih (by omega), Nat.testBit_two_pow_sub_one, decide_eq_true (by omega),
      List.replicate_succ]

/-! ## Reading a field back -/

@[simp] theorem ofBits_nil : ofBits [] = 0 := rfl

theorem ofBits_lt : ∀ bs : List Bool, ofBits bs < 2 ^ bs.length
  | [] => by simp
  | b :: bs => by
    have h := ofBits_lt bs
    cases b <;> simp only [ofBits, Bool.toNat_false, Bool.toNat_true, List.length_cons,
      Nat.pow_succ] <;> omega

theorem ofBits_append : ∀ xs ys : List Bool,
    ofBits (xs ++ ys) = ofBits xs * 2 ^ ys.length + ofBits ys
  | [], ys => by simp
  | x :: xs, ys => by
    rw [List.cons_append, ofBits, ofBits_append xs ys, ofBits, List.length_append, Nat.pow_add]
    ring

theorem ofBits_beBits (n k : Nat) : ofBits (beBits n k) = n % 2 ^ k := by
  induction k with
  | zero => simp [Nat.mod_one]
  | succ k ih =>
    rw [beBits, ofBits, ih, length_beBits, Nat.toNat_testBit, Nat.mod_pow_succ]
    ring

/-! ## Bytes -/

@[simp] theorem bytesBits_nil : bytesBits [] = [] := rfl

@[simp] theorem bytesBits_cons (b : UInt8) (l : List UInt8) :
    bytesBits (b :: l) = byteBits b ++ bytesBits l := rfl

@[simp] theorem bytesBits_append (l₁ l₂ : List UInt8) :
    bytesBits (l₁ ++ l₂) = bytesBits l₁ ++ bytesBits l₂ := List.flatMap_append

@[simp] theorem length_bytesBits (l : List UInt8) : (bytesBits l).length = 8 * l.length := by
  induction l with
  | nil => rfl
  | cons b l ih => simp [byteBits, ih]; ring

/-! ## Disjoint fields -/

/-- Two fields that do not overlap are ORed by adding them. -/
theorem mul_two_pow_or_mul_two_pow (hi : Nat) {y k : Nat} (s : Nat) (hy : y < 2 ^ k) :
    hi * 2 ^ (k + s) ||| y * 2 ^ s = (hi * 2 ^ k + y) * 2 ^ s := by
  apply Nat.eq_of_testBit_eq
  intro i
  rw [Nat.testBit_or, Nat.testBit_mul_two_pow, Nat.testBit_mul_two_pow, Nat.testBit_mul_two_pow,
    Nat.mul_comm hi, Nat.testBit_two_pow_mul_add _ hy]
  by_cases hs : s ≤ i
  · by_cases hk : i - s < k
    · simp [hs, hk, show ¬ k + s ≤ i by omega]
    · have hyi : y.testBit (i - s) = false := Nat.testBit_lt_two_pow
        (lt_of_lt_of_le hy (Nat.pow_le_pow_right (by norm_num) (by omega)))
      simp [hs, hk, hyi, show k + s ≤ i by omega, show i - (k + s) = i - s - k by omega]
  · simp [hs, show ¬ k + s ≤ i by omega]

/-! ## A shifting accumulator -/

/-- Shifting a word left by `k` and ORing in a chunk of `k` bits multiplies
and adds, up to the word size. -/
theorem shiftLeft_mod_or (a : Nat) {v k : Nat} (w : Nat) (hv : v < 2 ^ k) (hk : k ≤ w) :
    a <<< k % 2 ^ w ||| v = (a * 2 ^ k + v) % 2 ^ w := by
  apply Nat.eq_of_testBit_eq
  intro i
  rw [Nat.testBit_or, Nat.testBit_mod_two_pow, Nat.testBit_mod_two_pow, Nat.testBit_shiftLeft,
    Nat.mul_comm, Nat.testBit_two_pow_mul_add _ hv]
  by_cases hik : i < k
  · have hvi : i < w := by omega
    simp [hik, hvi]
  · have hvi : v.testBit i = false := Nat.testBit_lt_two_pow
      (lt_of_lt_of_le hv (Nat.pow_le_pow_right (by norm_num) (by omega)))
    simp [hik, hvi, show k ≤ i by omega]

end BitList
