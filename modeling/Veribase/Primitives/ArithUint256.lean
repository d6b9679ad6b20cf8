import Veribase.Lib.Limbs
import Veribase.Primitives.Compact

/-!
# `arith_uint256`: 256-bit arithmetic on limbs

`base_uint<256>` (`arith_uint256.h`, `arith_uint256.cpp`) keeps a number as
eight 32-bit limbs `pn`, the least significant first, and `arith_uint256` is
that class; `Primitives.Compact` works with the number the limbs stand for.
This module is the limb code, each operator as the source computes it, and
the proof that each computes the arithmetic of `ℕ` modulo `2^256`
(`arith_uint256_arithmetic`).

* `+=`, `*=(uint32_t)` and `*=(base_uint)` are carry loops
  (`Limbs.carryLoop`) over their column sums.  Row `j` of the product only
  keeps the columns from `j` up, and what it drops lies above `2^256`.
* `-` is the complement plus one and `-=` adds the negation; `++` and `--`
  stop at the first limb that does not wrap.
* `<<=` and `>>=` OR each limb, cut at the bit shift, into the two limbs it
  reaches; limb by limb the result is the operand's bits moved by the shift.
* `/=` is long division: it aligns the divisor under the top bit of the
  dividend, then subtracts and shifts back one bit at a time, and the
  remainder stays below the divisor times the weight of the next bit.
* `CompareTo` and `bits()` scan from the top limb down.
-/

namespace Veribase

open Limbs

/-- `WIDTH = BITS / 32`, the limbs of `base_uint<256>`. -/
def WIDTH : Nat := 8

/-- `base_uint<256>`, which `arith_uint256` is: the limbs `pn`, least
significant first. -/
structure arith_uint256 where
  pn : List UInt32
  length_pn : pn.length = WIDTH
deriving DecidableEq

namespace arith_uint256

/-- The number the limbs stand for. -/
def toNat (a : arith_uint256) : Nat := value a.pn

theorem toNat_lt (a : arith_uint256) : a.toNat < 2 ^ 256 := by
  have h := value_lt a.pn
  rwa [a.length_pn] at h

theorem ext_toNat {a b : arith_uint256} (h : a.toNat = b.toNat) : a = b := by
  have hpn := eq_of_value_eq (by rw [a.length_pn, b.length_pn]) h
  cases a
  cases b
  subst hpn
  rfl

/-- The limbs of `x` modulo `2^256`, which results are compared with. -/
def ofNat (x : Nat) : arith_uint256 := ⟨carryLoop x (List.replicate WIDTH 0), by simp⟩

@[simp] theorem toNat_ofNat (x : Nat) : (ofNat x).toNat = x % 2 ^ 256 := by
  have hzero : Nat.ofDigits (2 ^ 32) (List.replicate WIDTH 0) = 0 := rfl
  simp only [toNat, ofNat, value_carryLoop, hzero, Nat.add_zero, List.length_replicate]
  rfl

/-! ## Construction and the additive operators -/

/-- `base_uint()`: every limb zero. -/
def zero : arith_uint256 := ⟨List.replicate WIDTH 0, List.length_replicate⟩

@[simp] theorem toNat_zero : zero.toNat = 0 := value_replicate_zero WIDTH

/-- `base_uint(uint64_t b)`: `pn[0] = (unsigned int)b`,
`pn[1] = (unsigned int)(b >> 32)`, the other limbs zero. -/
def ofUInt64 (b : UInt64) : arith_uint256 :=
  ⟨b.toUInt32 :: (b >>> 32).toUInt32 :: List.replicate (WIDTH - 2) 0, by simp [WIDTH]⟩

@[simp] theorem toNat_ofUInt64 (b : UInt64) : (ofUInt64 b).toNat = b.toNat := by
  have hb := b.toNat_lt
  simp only [toNat, ofUInt64, value_cons, value_replicate_zero, UInt64.toNat_toUInt32,
    UInt64.toNat_shiftRight]
  simp
  omega

/-- `operator~()`: every limb complemented. -/
def complement (a : arith_uint256) : arith_uint256 :=
  ⟨a.pn.map (~~~ ·), by rw [List.length_map, a.length_pn]⟩

theorem toNat_complement (a : arith_uint256) : a.complement.toNat = 2 ^ 256 - 1 - a.toNat := by
  have h := value_map_complement a.pn
  rw [a.length_pn] at h
  unfold toNat complement
  dsimp only
  unfold WIDTH at h
  omega

/-- `operator++()`. -/
def inc (a : arith_uint256) : arith_uint256 :=
  ⟨increment a.pn, by rw [length_increment, a.length_pn]⟩

/-- `operator--()`. -/
def dec (a : arith_uint256) : arith_uint256 :=
  ⟨decrement a.pn, by rw [length_decrement, a.length_pn]⟩

theorem toNat_inc (a : arith_uint256) : a.inc.toNat = (a.toNat + 1) % 2 ^ 256 := by
  unfold toNat inc
  rw [value_increment, a.length_pn]
  rfl

theorem toNat_dec (a : arith_uint256) : a.dec.toNat = (a.toNat + 2 ^ 256 - 1) % 2 ^ 256 := by
  unfold toNat dec
  rw [value_decrement, a.length_pn]
  rfl

/-- `operator-()`: the complement, then `++`. -/
def neg (a : arith_uint256) : arith_uint256 := a.complement.inc

theorem toNat_neg (a : arith_uint256) : a.neg.toNat = (2 ^ 256 - a.toNat) % 2 ^ 256 := by
  have ha := a.toNat_lt
  rw [neg, toNat_inc, toNat_complement]
  congr 1
  omega

/-- `operator+=(b)`: for each limb `n = carry + pn[i] + b.pn[i]`,
`pn[i] = n & 0xffffffff`, `carry = n >> 32`. -/
def add (a b : arith_uint256) : arith_uint256 :=
  ⟨carryLoop 0 (List.zipWith (fun x y => x.toNat + y.toNat) a.pn b.pn), by
    simp [a.length_pn, b.length_pn]⟩

theorem toNat_add (a b : arith_uint256) : (a.add b).toNat = (a.toNat + b.toNat) % 2 ^ 256 := by
  have hcols := ofDigits_zipWith (c := 1) (fun x y => by rw [Nat.one_mul]) a.pn b.pn
    (by rw [a.length_pn, b.length_pn])
  rw [a.length_pn, ← b.length_pn, List.take_length, Nat.one_mul] at hcols
  unfold toNat add
  dsimp only
  rw [value_carryLoop, hcols, Nat.zero_add, List.length_zipWith, a.length_pn, b.length_pn]
  rfl

/-- `operator-=(b)`: `*this += -b`. -/
def sub (a b : arith_uint256) : arith_uint256 := a.add b.neg

theorem toNat_sub (a b : arith_uint256) :
    ((a.sub b).toNat : Int) = ((a.toNat : Int) - b.toNat) % 2 ^ 256 := by
  have hb := b.toNat_lt
  rw [sub, toNat_add, toNat_neg]
  omega

/-- `operator*=(uint32_t b32)`: for each limb `n = carry + (uint64_t)b32 * pn[i]`,
`pn[i] = n & 0xffffffff`, `carry = n >> 32`. -/
def mulWord (a : arith_uint256) (b32 : UInt32) : arith_uint256 :=
  ⟨carryLoop 0 (a.pn.map fun x => b32.toNat * x.toNat), by simp [a.length_pn]⟩

theorem toNat_mulWord (a : arith_uint256) (b32 : UInt32) :
    (a.mulWord b32).toNat = (a.toNat * b32.toNat) % 2 ^ 256 := by
  unfold toNat mulWord
  dsimp only
  rw [value_carryLoop, ofDigits_map (fun _ => rfl), Nat.zero_add, List.length_map, a.length_pn,
    Nat.mul_comm]
  rfl

/-- Row `j` of `operator*=(b)`, `x` being `pn[j]`: for `i + j < WIDTH`,
`n = carry + a.pn[i + j] + (uint64_t)pn[j] * b.pn[i]`, `a.pn[i + j] = n & 0xffffffff`,
`carry = n >> 32`.  The limbs of the product `a` below `j` are left alone. -/
def mulRow (x : UInt32) (b acc : List UInt32) (j : Nat) : List UInt32 :=
  acc.take j ++ carryLoop 0 (List.zipWith (fun y v => y.toNat + x.toNat * v.toNat) (acc.drop j) b)

/-- The product after the rows `j < p` of `operator*=(b)`, from `base_uint()`. -/
def mulRows (apn bpn : List UInt32) : Nat → List UInt32
  | 0 => List.replicate WIDTH 0
  | p + 1 => mulRow (apn.getD p 0) bpn (mulRows apn bpn p) p

theorem length_mulRow (x : UInt32) {b acc : List UInt32} (j : Nat) (hb : acc.length ≤ b.length) :
    (mulRow x b acc j).length = acc.length := by
  simp only [mulRow, List.length_append, List.length_take, length_carryLoop, List.length_zipWith,
    List.length_drop]
  omega

theorem length_mulRows (apn : List UInt32) {bpn : List UInt32} (hb : bpn.length = WIDTH) :
    ∀ p, (mulRows apn bpn p).length = WIDTH
  | 0 => List.length_replicate
  | p + 1 => by
    rw [mulRows, length_mulRow _ _ (by rw [length_mulRows apn hb p, hb]), length_mulRows apn hb p]

/-- Row `j` adds `x * b`, at the weight of limb `j`, to the product modulo its
width: the columns it skips (`i + j ≥ WIDTH`) lie above the width. -/
theorem value_mulRow (x : UInt32) {b acc : List UInt32} {j : Nat} (hj : j ≤ acc.length)
    (hb : acc.length ≤ b.length) :
    value (mulRow x b acc j) = (value acc + 2 ^ (32 * j) * (x.toNat * value b)) % 2 ^ (32 * acc.length) := by
  have hcols := ofDigits_zipWith (c := x.toNat) (fun _ _ => rfl) (acc.drop j) b
    (by rw [List.length_drop]; omega)
  have hT := value_lt (acc.take j)
  have hacc := value_take_add_drop acc hj
  have hbsplit := value_take_add_drop b (p := acc.length - j) (by omega)
  have hP : 2 ^ (32 * acc.length) = 2 ^ (32 * j) * 2 ^ (32 * (acc.length - j)) := by
    rw [← pow_add]
    congr 1
    omega
  have hpos : 0 < 2 ^ (32 * j) := Nat.two_pow_pos _
  rw [List.length_take_of_le hj] at hT
  rw [List.length_drop] at hcols
  unfold mulRow
  rw [value_append, List.length_take_of_le hj, value_carryLoop, hcols, List.length_zipWith,
    List.length_drop, Nat.min_eq_left (by omega), Nat.zero_add, ← hacc, ← hbsplit, hP]
  generalize value (acc.take j) = T at *
  generalize value (acc.drop j) = D
  generalize value (b.take (acc.length - j)) = Bt
  generalize value (b.drop (acc.length - j)) = Bd
  generalize 2 ^ (32 * j) = P at *
  generalize 2 ^ (32 * (acc.length - j)) = R
  -- the low limbs pass through; above them the row is the carry loop modulo `R`
  have hsplit : (T + P * (D + x.toNat * Bt)) % (P * R) = T + P * ((D + x.toNat * Bt) % R) := by
    rw [Nat.mod_mul, Nat.add_mul_mod_self_left, Nat.mod_eq_of_lt hT, Nat.add_mul_div_left _ _ hpos,
      Nat.div_eq_of_lt hT, Nat.zero_add]
  calc T + P * ((D + x.toNat * Bt) % R)
      = (T + P * (D + x.toNat * Bt)) % (P * R) := hsplit.symm
    _ = (T + P * (D + x.toNat * Bt) + P * R * (x.toNat * Bd)) % (P * R) :=
        (Nat.add_mul_mod_self_left _ _ _).symm
    _ = (T + P * D + P * (x.toNat * (Bt + R * Bd))) % (P * R) := by
        congr 1
        ring

/-- After the rows `j < p` the product holds the low `p` limbs of `a` times `b`. -/
theorem value_mulRows {apn bpn : List UInt32} (ha : apn.length = WIDTH) (hb : bpn.length = WIDTH) :
    ∀ p, p ≤ WIDTH → value (mulRows apn bpn p) = value (apn.take p) * value bpn % 2 ^ 256
  | 0, _ => by simp [mulRows]
  | p + 1, hp => by
    have hlen := length_mulRows apn hb p
    rw [mulRows, value_mulRow _ (by rw [hlen]; omega) (by rw [hlen, hb]),
      value_mulRows ha hb p (by omega), hlen, value_take_succ (by omega)]
    show (_ + _) % 2 ^ 256 = _
    rw [Nat.mod_add_mod]
    congr 1
    ring

/-- `operator*=(b)`: the rows `j < WIDTH` into `base_uint()`, copied back. -/
def mul (a b : arith_uint256) : arith_uint256 :=
  ⟨mulRows a.pn b.pn WIDTH, length_mulRows a.pn b.length_pn WIDTH⟩

theorem toNat_mul (a b : arith_uint256) : (a.mul b).toNat = a.toNat * b.toNat % 2 ^ 256 := by
  unfold toNat mul
  dsimp only
  rw [value_mulRows a.length_pn b.length_pn WIDTH (le_refl _), ← a.length_pn, List.take_length]

/-! ## Shifts -/

theorem toNat_toUInt32_of_lt {s : Nat} (hs : s < 32) : s.toUInt32.toNat = s := by
  simp
  omega

/-- Bit `b` of a limb moved up by `s < 32` inside its 32 bits. -/
theorem testBit_shiftLeft_limb (x : UInt32) {s b : Nat} (hs : s < 32) (hb : b < 32) :
    (x <<< s.toUInt32).toNat.testBit b = (decide (s ≤ b) && x.toNat.testBit (b - s)) := by
  rw [UInt32.toNat_shiftLeft, toNat_toUInt32_of_lt hs, Nat.mod_eq_of_lt hs, Nat.testBit_mod_two_pow,
    Nat.testBit_shiftLeft]
  simp [hb]

/-- Bit `b` of a limb moved down by `s < 32`. -/
theorem testBit_shiftRight_limb (x : UInt32) {s : Nat} (b : Nat) (hs : s < 32) :
    (x >>> s.toUInt32).toNat.testBit b = x.toNat.testBit (s + b) := by
  rw [UInt32.toNat_shiftRight, toNat_toUInt32_of_lt hs, Nat.mod_eq_of_lt hs, Nat.testBit_shiftRight]

/-- Turn `i` of `operator<<=(shift)`, with `k = shift / 32` and `s = shift % 32`:
`if (i + k + 1 < WIDTH && shift != 0) pn[i + k + 1] |= (a.pn[i] >> (32 - shift));`
`if (i + k < WIDTH) pn[i + k] |= (a.pn[i] << shift);`. -/
def shiftLeftStep (a : List UInt32) (k s : Nat) (pn : List UInt32) (i : Nat) : List UInt32 :=
  let pn := if i + k + 1 < WIDTH ∧ s ≠ 0 then orInto pn (i + k + 1) (a.getD i 0 >>> (32 - s).toUInt32) else pn
  if i + k < WIDTH then orInto pn (i + k) (a.getD i 0 <<< s.toUInt32) else pn

/-- The turns `i < p` of the loop of `operator<<=`, from zero limbs. -/
def shiftLeftLoop (a : List UInt32) (k s : Nat) : Nat → List UInt32
  | 0 => List.replicate WIDTH 0
  | p + 1 => shiftLeftStep a k s (shiftLeftLoop a k s p) p

theorem length_shiftLeftLoop (a : List UInt32) (k s : Nat) : ∀ p, (shiftLeftLoop a k s p).length = WIDTH
  | 0 => List.length_replicate
  | p + 1 => by
    unfold shiftLeftLoop shiftLeftStep
    split_ifs <;> simp [length_shiftLeftLoop a k s p]

/-- Turn `i` ORs the low part of operand limb `i` into limb `i + k` and,
unless the shift is a whole number of limbs, the high part into limb `i + k + 1`. -/
theorem getD_shiftLeftStep (a pn : List UInt32) (k s i : Nat) {m : Nat} (hlen : pn.length = WIDTH)
    (hm : m < WIDTH) :
    ((shiftLeftStep a k s pn i).getD m 0).toNat =
      (pn.getD m 0).toNat |||
        (if s ≠ 0 ∧ m = i + k + 1 then (a.getD i 0 >>> (32 - s).toUInt32).toNat else 0) |||
        (if m = i + k then (a.getD i 0 <<< s.toUInt32).toNat else 0) := by
  unfold shiftLeftStep
  dsimp only
  rw [ite_orInto, ite_orInto, toNat_getD_orInto, toNat_getD_orInto, length_orInto, hlen]
  -- limb `m` is reached by at most one of the two writes
  rcases (by omega : m = i + k ∨ m = i + k + 1 ∨ (m ≠ i + k ∧ m ≠ i + k + 1)) with
    rfl | rfl | ⟨h1, h2⟩
  · simp [hm]
  · by_cases hs : s = 0 <;> simp [hm, hs]
  · simp [h1, h2, Ne.symm h1, Ne.symm h2]

/-- After the turns `i < p`, limb `m` holds the low part of operand limb
`m - k` and the high part of operand limb `m - k - 1`, each once its turn has
come. -/
theorem getD_shiftLeftLoop (a : List UInt32) (k s : Nat) : ∀ p, ∀ m < WIDTH,
    ((shiftLeftLoop a k s p).getD m 0).toNat =
      ((if k ≤ m ∧ m - k < p then (a.getD (m - k) 0 <<< s.toUInt32).toNat else 0) |||
        (if s ≠ 0 ∧ k + 1 ≤ m ∧ m - k - 1 < p then (a.getD (m - k - 1) 0 >>> (32 - s).toUInt32).toNat
          else 0))
  | 0, m, hm => by simp [shiftLeftLoop]
  | p + 1, m, hm => by
    rw [shiftLeftLoop, getD_shiftLeftStep a _ k s p (length_shiftLeftLoop a k s p) hm,
      getD_shiftLeftLoop a k s p m hm]
    rcases (by omega : m = p + k ∨ m = p + k + 1 ∨ (m ≠ p + k ∧ m ≠ p + k + 1)) with
      rfl | rfl | ⟨h1, h2⟩
    · -- the low part of limb `p` arrives; the high part of limb `p - 1` is there already
      have hY : (s ≠ 0 ∧ k + 1 ≤ p + k ∧ p + k - k - 1 < p + 1) ↔
          (s ≠ 0 ∧ k + 1 ≤ p + k ∧ p + k - k - 1 < p) := by omega
      simp only [hY]
      simp (disch := omega) only [if_true, if_pos, if_neg, Nat.zero_or, Nat.or_zero,
        Nat.add_sub_cancel]
      rw [Nat.or_comm]
    · -- the high part of limb `p` arrives, if the shift cuts limbs
      have hidx : p + k + 1 - k - 1 = p := by omega
      rw [hidx]
      by_cases hs : s = 0
      · simp (disch := omega) only [if_neg, Nat.or_zero]
      · simp (disch := omega) only [if_pos, if_neg, and_true, Nat.zero_or, Nat.or_zero]
    · -- turn `p` does not reach limb `m`
      have hX : (k ≤ m ∧ m - k < p + 1) ↔ (k ≤ m ∧ m - k < p) := by omega
      have hY : (s ≠ 0 ∧ k + 1 ≤ m ∧ m - k - 1 < p + 1) ↔ (s ≠ 0 ∧ k + 1 ≤ m ∧ m - k - 1 < p) := by
        omega
      simp only [hX, hY]
      simp (disch := omega) only [if_neg, Nat.or_zero]

/-- Bit `b` of limb `m` after the loop of `<<=`: the operand's bit `shift`
places below, if there is one. -/
theorem testBit_shiftLeftLoop (a : List UInt32) (shift : Nat) {m b : Nat} (hm : m < WIDTH)
    (hb : b < 32) :
    ((shiftLeftLoop a (shift / 32) (shift % 32) WIDTH).getD m 0).toNat.testBit b =
      (decide (shift ≤ 32 * m + b) &&
        (a.getD ((32 * m + b - shift) / 32) 0).toNat.testBit ((32 * m + b - shift) % 32)) := by
  have hs : shift % 32 < 32 := Nat.mod_lt _ (by decide)
  rw [getD_shiftLeftLoop _ _ _ _ _ hm, Nat.testBit_or, testBit_ite_zero, testBit_ite_zero,
    testBit_shiftLeft_limb _ hs hb]
  by_cases hle : shift ≤ 32 * m + b
  · by_cases hsb : shift % 32 ≤ b
    · -- the low part of limb `m - shift / 32` holds the bit
      have hidx : (32 * m + b - shift) / 32 = m - shift / 32 := by omega
      have hoff : (32 * m + b - shift) % 32 = b - shift % 32 := by omega
      by_cases h0 : shift % 32 = 0
      · simp (disch := omega) only [decide_eq_true, decide_eq_false, Bool.true_and, Bool.false_and,
          Bool.or_false, hidx, hoff]
      · rw [testBit_shiftRight_limb _ _ (by omega),
          testBit_toNat_of_le (a.getD (m - shift / 32 - 1) 0) (b := 32 - shift % 32 + b) (by omega)]
        simp (disch := omega) only [decide_eq_true, Bool.true_and, Bool.and_false, Bool.or_false,
          hidx, hoff]
    · -- the high part of limb `m - shift / 32 - 1` holds it
      have hidx : (32 * m + b - shift) / 32 = m - shift / 32 - 1 := by omega
      have hoff : (32 * m + b - shift) % 32 = 32 - shift % 32 + b := by omega
      rw [testBit_shiftRight_limb _ _ (by omega)]
      simp (disch := omega) only [decide_eq_true, decide_eq_false, Bool.true_and, Bool.false_and,
        Bool.and_false, Bool.false_or, hidx, hoff]
  · -- bits below the shift are zero: no high part reaches limb `m`, and the
    -- low part that does starts above bit `b`
    by_cases hsb : shift % 32 ≤ b
    · simp (disch := omega) only [decide_eq_false, Bool.false_and, Bool.or_false]
    · simp (disch := omega) only [decide_eq_false, Bool.false_and, Bool.and_false, Bool.or_false]

/-- `operator<<=(shift)`: `k = shift / 32` whole limbs and `shift % 32` bits. -/
def shiftLeft (a : arith_uint256) (shift : Nat) : arith_uint256 :=
  ⟨shiftLeftLoop a.pn (shift / 32) (shift % 32) WIDTH, length_shiftLeftLoop _ _ _ _⟩

theorem toNat_shiftLeft (a : arith_uint256) (shift : Nat) :
    (a.shiftLeft shift).toNat = a.toNat * 2 ^ shift % 2 ^ 256 := by
  apply Nat.eq_of_testBit_eq
  intro t
  unfold toNat shiftLeft
  dsimp only
  rw [testBit_value, Nat.testBit_mod_two_pow, ← Nat.shiftLeft_eq, Nat.testBit_shiftLeft, testBit_value]
  by_cases ht : t < 256
  · have hm : t / 32 < WIDTH := by unfold WIDTH; omega
    have hb : t % 32 < 32 := Nat.mod_lt _ (by decide)
    have hbit := testBit_shiftLeftLoop a.pn shift hm hb
    rw [show 32 * (t / 32) + t % 32 = t by omega] at hbit
    rw [hbit, decide_eq_true ht, Bool.true_and]
  · rw [List.getD_eq_default _ _ (by rw [length_shiftLeftLoop]; unfold WIDTH; omega)]
    simp [ht]

/-- Turn `i` of `operator>>=(shift)`, with `k = shift / 32` and `s = shift % 32`:
`if (i - k - 1 >= 0 && shift != 0) pn[i - k - 1] |= (a.pn[i] << (32 - shift));`
`if (i - k >= 0) pn[i - k] |= (a.pn[i] >> shift);`. -/
def shiftRightStep (a : List UInt32) (k s : Nat) (pn : List UInt32) (i : Nat) : List UInt32 :=
  let pn := if k + 1 ≤ i ∧ s ≠ 0 then orInto pn (i - k - 1) (a.getD i 0 <<< (32 - s).toUInt32) else pn
  if k ≤ i then orInto pn (i - k) (a.getD i 0 >>> s.toUInt32) else pn

/-- The turns `i < p` of the loop of `operator>>=`, from zero limbs. -/
def shiftRightLoop (a : List UInt32) (k s : Nat) : Nat → List UInt32
  | 0 => List.replicate WIDTH 0
  | p + 1 => shiftRightStep a k s (shiftRightLoop a k s p) p

theorem length_shiftRightLoop (a : List UInt32) (k s : Nat) : ∀ p, (shiftRightLoop a k s p).length = WIDTH
  | 0 => List.length_replicate
  | p + 1 => by
    unfold shiftRightLoop shiftRightStep
    split_ifs <;> simp [length_shiftRightLoop a k s p]

/-- Turn `i` ORs the high part of operand limb `i` into limb `i - k` and,
unless the shift is a whole number of limbs, the low part into limb `i - k - 1`. -/
theorem getD_shiftRightStep (a pn : List UInt32) (k s i : Nat) {m : Nat} (hlen : pn.length = WIDTH)
    (hm : m < WIDTH) :
    ((shiftRightStep a k s pn i).getD m 0).toNat =
      (pn.getD m 0).toNat |||
        (if s ≠ 0 ∧ m + k + 1 = i then (a.getD i 0 <<< (32 - s).toUInt32).toNat else 0) |||
        (if m + k = i then (a.getD i 0 >>> s.toUInt32).toNat else 0) := by
  unfold shiftRightStep
  dsimp only
  rw [ite_orInto, ite_orInto, toNat_getD_orInto, toNat_getD_orInto, length_orInto, hlen]
  -- limb `m` is reached by at most one of the two writes
  rcases (by omega : m + k = i ∨ m + k + 1 = i ∨ (m + k ≠ i ∧ m + k + 1 ≠ i)) with
    rfl | rfl | ⟨h1, h2⟩
  · simp (disch := omega) only [if_pos, if_neg, if_true, UInt32.toNat_zero, ite_self, Nat.or_zero]
  · by_cases hs : s = 0
    · simp (disch := omega) only [if_pos, if_neg, UInt32.toNat_zero, Nat.or_zero]
    · simp (disch := omega) only [if_pos, if_neg, and_true, Nat.or_zero]
  · -- a write the guard turns off is a write of zero, wherever it lands
    simp (disch := omega) only [if_neg, UInt32.toNat_zero, ite_self, Nat.or_zero]

/-- After the turns `i < p`, limb `m` holds the high part of operand limb
`m + k` and the low part of operand limb `m + k + 1`, each once its turn has
come. -/
theorem getD_shiftRightLoop (a : List UInt32) (k s : Nat) : ∀ p, ∀ m < WIDTH,
    ((shiftRightLoop a k s p).getD m 0).toNat =
      ((if m + k < p then (a.getD (m + k) 0 >>> s.toUInt32).toNat else 0) |||
        (if s ≠ 0 ∧ m + k + 1 < p then (a.getD (m + k + 1) 0 <<< (32 - s).toUInt32).toNat else 0))
  | 0, m, hm => by simp [shiftRightLoop]
  | p + 1, m, hm => by
    rw [shiftRightLoop, getD_shiftRightStep a _ k s p (length_shiftRightLoop a k s p) hm,
      getD_shiftRightLoop a k s p m hm]
    rcases (by omega : m + k = p ∨ m + k + 1 = p ∨ (m + k ≠ p ∧ m + k + 1 ≠ p)) with
      rfl | rfl | ⟨h1, h2⟩
    · -- the high part of limb `m + k` arrives
      simp (disch := omega) only [if_pos, if_neg, if_true, Nat.zero_or, Nat.or_zero]
    · -- the low part of limb `m + k + 1` arrives, if the shift cuts limbs
      by_cases hs : s = 0
      · simp (disch := omega) only [if_pos, if_neg, Nat.or_zero]
      · simp (disch := omega) only [if_pos, if_neg, and_true, Nat.or_zero]
    · -- turn `p` does not reach limb `m`
      have hX : m + k < p + 1 ↔ m + k < p := by omega
      have hY : (s ≠ 0 ∧ m + k + 1 < p + 1) ↔ (s ≠ 0 ∧ m + k + 1 < p) := by omega
      simp only [hX, hY]
      simp (disch := omega) only [if_neg, Nat.or_zero]

/-- Bit `b` of limb `m` after the loop of `>>=`: the operand's bit `shift`
places above. -/
theorem testBit_shiftRightLoop {a : List UInt32} (ha : a.length = WIDTH) (shift : Nat) {m b : Nat}
    (hm : m < WIDTH) (hb : b < 32) :
    ((shiftRightLoop a (shift / 32) (shift % 32) WIDTH).getD m 0).toNat.testBit b =
      (a.getD ((32 * m + b + shift) / 32) 0).toNat.testBit ((32 * m + b + shift) % 32) := by
  have hs : shift % 32 < 32 := Nat.mod_lt _ (by decide)
  rw [getD_shiftRightLoop _ _ _ _ _ hm, Nat.testBit_or, testBit_ite_zero, testBit_ite_zero,
    testBit_shiftRight_limb _ _ hs]
  by_cases hsb : shift % 32 + b < 32
  · -- the high part of limb `m + shift / 32` holds the bit
    have hidx : (32 * m + b + shift) / 32 = m + shift / 32 := by omega
    have hoff : (32 * m + b + shift) % 32 = shift % 32 + b := by omega
    have hlo : (decide (shift % 32 ≠ 0 ∧ m + shift / 32 + 1 < WIDTH) &&
        (a.getD (m + shift / 32 + 1) 0 <<< (32 - shift % 32).toUInt32).toNat.testBit b) = false := by
      by_cases h0 : shift % 32 = 0
      · simp (disch := omega) only [decide_eq_false, Bool.false_and]
      · rw [testBit_shiftLeft_limb _ (by omega) hb]
        simp (disch := omega) only [decide_eq_false, Bool.false_and, Bool.and_false]
    rw [hlo, Bool.or_false, hidx, hoff]
    by_cases hin : m + shift / 32 < WIDTH
    · simp (disch := omega) only [decide_eq_true, Bool.true_and]
    · rw [testBit_getD_of_le (by omega)]
      simp (disch := omega) only [decide_eq_false, Bool.false_and]
  · -- the low part of limb `m + shift / 32 + 1` holds it
    have hidx : (32 * m + b + shift) / 32 = m + shift / 32 + 1 := by omega
    have hoff : (32 * m + b + shift) % 32 = b - (32 - shift % 32) := by omega
    rw [testBit_toNat_of_le _ (by omega), Bool.and_false, Bool.false_or,
      testBit_shiftLeft_limb _ (by omega) hb, hidx, hoff]
    by_cases hin : m + shift / 32 + 1 < WIDTH
    · simp (disch := omega) only [decide_eq_true, Bool.true_and]
    · rw [testBit_getD_of_le (by omega)]
      simp (disch := omega) only [decide_eq_false, Bool.false_and]

/-- `operator>>=(shift)`: `k = shift / 32` whole limbs and `shift % 32` bits. -/
def shiftRight (a : arith_uint256) (shift : Nat) : arith_uint256 :=
  ⟨shiftRightLoop a.pn (shift / 32) (shift % 32) WIDTH, length_shiftRightLoop _ _ _ _⟩

theorem toNat_shiftRight (a : arith_uint256) (shift : Nat) :
    (a.shiftRight shift).toNat = a.toNat / 2 ^ shift := by
  apply Nat.eq_of_testBit_eq
  intro t
  unfold toNat shiftRight
  dsimp only
  rw [testBit_value, Nat.testBit_div_two_pow, testBit_value]
  by_cases ht : t < 256
  · have hm : t / 32 < WIDTH := by unfold WIDTH; omega
    have hbit := testBit_shiftRightLoop a.length_pn shift hm (Nat.mod_lt t (by decide))
    rw [show 32 * (t / 32) + t % 32 = t by omega] at hbit
    exact hbit
  · -- above the width both sides read past the limbs
    rw [testBit_getD_of_le (by rw [length_shiftRightLoop]; unfold WIDTH; omega),
      testBit_getD_of_le (by rw [a.length_pn]; unfold WIDTH; omega)]

/-! ## Comparison and bit length -/

/-- `CompareTo(b)` from limb `i - 1` down: the first limb that differs decides. -/
def compareLoop (a b : List UInt32) : Nat → Int
  | 0 => 0
  | i + 1 =>
    if a.getD i 0 < b.getD i 0 then -1
    else if a.getD i 0 > b.getD i 0 then 1
    else compareLoop a b i

/-- `CompareTo(b)`. -/
def compareTo (a b : arith_uint256) : Int := compareLoop a.pn b.pn WIDTH

/-- Under a common weight, lower limbs cannot make up for a smaller top limb. -/
theorem add_mul_lt_add_mul {P x y u v : Nat} (hu : u < P) (hxy : x < y) : u + P * x < v + P * y :=
  calc u + P * x < P + P * x := Nat.add_lt_add_right hu _
    _ = P * (x + 1) := by ring
    _ ≤ P * y := Nat.mul_le_mul_left _ hxy
    _ ≤ v + P * y := Nat.le_add_left _ _

/-- The comparison of the limbs below `i` is that of their values. -/
theorem compareLoop_eq {a b : List UInt32} : ∀ i, i ≤ a.length → i ≤ b.length →
    compareLoop a b i =
      if value (a.take i) < value (b.take i) then -1
      else if value (b.take i) < value (a.take i) then 1 else 0
  | 0, _, _ => by simp [compareLoop]
  | i + 1, ha, hb => by
    have hA := value_lt (a.take i)
    have hB := value_lt (b.take i)
    rw [List.length_take_of_le (by omega)] at hA hB
    rw [compareLoop, value_take_succ (by omega), value_take_succ (by omega),
      compareLoop_eq i (by omega) (by omega)]
    -- the top limb decides unless the two agree there
    rcases lt_trichotomy (a.getD i 0).toNat (b.getD i 0).toNat with h | h | h
    · rw [if_pos (UInt32.lt_iff_toNat_lt.mpr h), if_pos (add_mul_lt_add_mul hA h)]
    · have heq : a.getD i 0 = b.getD i 0 := UInt32.toNat_inj.mp h
      have hirr : ¬b.getD i 0 < b.getD i 0 := fun h' => lt_irrefl _ (UInt32.lt_iff_toNat_lt.mp h')
      rw [heq]
      simp only [gt_iff_lt, hirr, if_false, Nat.add_lt_add_iff_right]
    · have hgt := add_mul_lt_add_mul (v := value (a.take i)) hB h
      have hn : ¬a.getD i 0 < b.getD i 0 := fun h' => by
        have := UInt32.lt_iff_toNat_lt.mp h'
        omega
      rw [if_neg hn, if_pos (UInt32.lt_iff_toNat_lt.mpr h), if_neg (not_lt.mpr (le_of_lt hgt)),
        if_pos hgt]

theorem compareTo_eq (a b : arith_uint256) :
    a.compareTo b = if a.toNat < b.toNat then -1 else if b.toNat < a.toNat then 1 else 0 := by
  unfold compareTo toNat
  rw [compareLoop_eq WIDTH (by rw [a.length_pn]) (by rw [b.length_pn]), ← a.length_pn,
    List.take_length, a.length_pn, ← b.length_pn, List.take_length]

/-- The inner loop of `bits()` on the nonzero limb `pos`, for `nbits` from `n`
down to `1`: `if (pn[pos] & 1U << nbits) return 32 * pos + nbits + 1;`, and
after it `return 32 * pos + 1;`. -/
def limbBits (w : UInt32) (pos : Nat) : Nat → Nat
  | 0 => 32 * pos + 1
  | n + 1 => if w &&& 1 <<< (n + 1).toUInt32 ≠ 0 then 32 * pos + (n + 1) + 1 else limbBits w pos n

/-- The outer loop of `bits()` over `pos` from `p - 1` down: the first
nonzero limb decides. -/
def bitsLoop (pn : List UInt32) : Nat → Nat
  | 0 => 0
  | pos + 1 => if pn.getD pos 0 ≠ 0 then limbBits (pn.getD pos 0) pos 31 else bitsLoop pn pos

/-- `bits()`. -/
def bits (a : arith_uint256) : Nat := bitsLoop a.pn WIDTH

/-- The mask `1U << k` of the inner loop tests bit `k` of the limb. -/
theorem and_shiftLeft_ne_zero (w : UInt32) {k : Nat} (hk : k < 32) :
    (w &&& 1 <<< k.toUInt32 ≠ 0) ↔ w.toNat.testBit k = true := by
  have hmask : (1 <<< k.toUInt32 : UInt32).toNat = 2 ^ k := by
    rw [UInt32.toNat_shiftLeft, toNat_toUInt32_of_lt hk, Nat.mod_eq_of_lt hk, UInt32.toNat_one,
      Nat.one_shiftLeft, Nat.mod_eq_of_lt (Nat.pow_lt_pow_right (by decide) hk)]
  rw [ne_eq, ← UInt32.toNat_inj, UInt32.toNat_and, hmask, Nat.and_two_pow, UInt32.toNat_zero]
  cases w.toNat.testBit k <;> simp

/-- The inner loop finds the top bit of a nonzero limb below `2^(n+1)`. -/
theorem limbBits_eq {w : UInt32} (pos : Nat) (hw : w ≠ 0) :
    ∀ n, n < 32 → w.toNat < 2 ^ (n + 1) → limbBits w pos n = 32 * pos + Veribase.bits w.toNat
  | 0, _, hlt => by
    have h1 : w.toNat = 1 := by
      have : w.toNat ≠ 0 := fun h => hw (UInt32.toNat_inj.mp (by rw [h]; rfl))
      omega
    rw [limbBits, h1]
    rfl
  | n + 1, hn, hlt => by
    rw [limbBits]
    by_cases hbit : w.toNat.testBit (n + 1) = true
    · rw [if_pos ((and_shiftLeft_ne_zero w hn).mpr hbit),
        bits_eq_of_lt (Nat.ge_two_pow_of_testBit hbit) hlt]
      omega
    · -- bit `n + 1` is clear, so the limb is below `2^(n+1)`
      have hlt' : w.toNat < 2 ^ (n + 1) := by
        by_contra hge
        exact hbit (Nat.testBit_of_two_pow_le_and_two_pow_add_one_gt (Nat.le_of_not_lt hge) hlt)
      rw [if_neg (fun h => hbit ((and_shiftLeft_ne_zero w hn).mp h)),
        limbBits_eq pos hw n (by omega) hlt']

/-- A nonzero limb above lower limbs sets the bit length. -/
theorem bits_add_two_pow_mul {T P w : Nat} (hT : T < 2 ^ P) (hw : w ≠ 0) :
    Veribase.bits (T + 2 ^ P * w) = P + Veribase.bits w := by
  have hlo := two_pow_le_of_bits hw
  have hhi := lt_two_pow_bits w
  have hpos : 0 < Veribase.bits w := by
    by_contra h
    rw [Nat.eq_zero_of_not_pos h, Nat.pow_zero] at hhi
    omega
  rw [show P + Veribase.bits w = (P + (Veribase.bits w - 1)) + 1 by omega]
  apply bits_eq_of_lt
  · calc 2 ^ (P + (Veribase.bits w - 1)) = 2 ^ P * 2 ^ (Veribase.bits w - 1) := Nat.pow_add _ _ _
      _ ≤ 2 ^ P * w := Nat.mul_le_mul_left _ hlo
      _ ≤ T + 2 ^ P * w := Nat.le_add_left _ _
  · calc T + 2 ^ P * w < 2 ^ P + 2 ^ P * w := Nat.add_lt_add_right hT _
      _ = 2 ^ P * (w + 1) := by ring
      _ ≤ 2 ^ P * 2 ^ Veribase.bits w := Nat.mul_le_mul_left _ hhi
      _ = 2 ^ (P + (Veribase.bits w - 1) + 1) := by rw [← Nat.pow_add]; congr 1; omega

theorem bitsLoop_eq {pn : List UInt32} : ∀ p, p ≤ pn.length →
    bitsLoop pn p = Veribase.bits (value (pn.take p))
  | 0, _ => by simp [bitsLoop, Veribase.bits]
  | p + 1, hp => by
    have hT := value_lt (pn.take p)
    rw [List.length_take_of_le (by omega)] at hT
    rw [bitsLoop, value_take_succ (by omega)]
    by_cases hw : pn.getD p 0 = 0
    · rw [if_neg (not_not.mpr hw), hw, UInt32.toNat_zero, Nat.mul_zero, Nat.add_zero,
        bitsLoop_eq p (by omega)]
    · have hw' : (pn.getD p 0).toNat ≠ 0 := fun h => hw (UInt32.toNat_inj.mp (by rw [h]; rfl))
      rw [if_pos hw, limbBits_eq p hw 31 (by decide) (pn.getD p 0).toNat_lt,
        bits_add_two_pow_mul hT hw']

theorem bits_eq (a : arith_uint256) : a.bits = Veribase.bits a.toNat := by
  unfold bits toNat
  rw [bitsLoop_eq WIDTH (by rw [a.length_pn]), ← a.length_pn, List.take_length]

/-! ## Long division -/

/-- `pn[shift / 32] |= (1 << (shift & 31))`: the bit `operator/=` sets in the
quotient. -/
def setBit (a : arith_uint256) (shift : Nat) : arith_uint256 :=
  ⟨orInto a.pn (shift / 32) (1 <<< (shift &&& 31).toUInt32), by rw [length_orInto, a.length_pn]⟩

theorem toNat_setBit (a : arith_uint256) {shift : Nat} (hs : shift < 256) :
    (a.setBit shift).toNat = a.toNat ||| 2 ^ shift := by
  have hmask : shift &&& 31 = shift % 32 := Nat.and_two_pow_sub_one_eq_mod shift 5
  have hlow : (1 <<< (shift &&& 31).toUInt32 : UInt32).toNat = 2 ^ (shift % 32) := by
    rw [UInt32.toNat_shiftLeft, hmask, toNat_toUInt32_of_lt (Nat.mod_lt _ (by decide)),
      Nat.mod_mod, UInt32.toNat_one, Nat.one_shiftLeft,
      Nat.mod_eq_of_lt (Nat.pow_lt_pow_right (by decide) (Nat.mod_lt _ (by decide)))]
  unfold toNat setBit
  dsimp only
  rw [value_orInto _ _ (by rw [a.length_pn]; unfold WIDTH; omega), hlow, Nat.shiftLeft_eq,
    ← Nat.pow_add, Nat.mod_add_div]

/-- Without a borrow, `-=` is subtraction. -/
theorem toNat_sub_of_le {a b : arith_uint256} (h : b.toNat ≤ a.toNat) :
    (a.sub b).toNat = a.toNat - b.toNat := by
  have hsub := toNat_sub a b
  have ha := a.toNat_lt
  omega

/-- One turn of `operator/=`'s loop at bit `shift`:
`if (num >= div) { num -= div; pn[shift / 32] |= (1 << (shift & 31)); }`,
giving the remainder and the quotient. -/
def divStep (num div quot : arith_uint256) (shift : Nat) : arith_uint256 × arith_uint256 :=
  if num.compareTo div ≥ 0 then (num.sub div, quot.setBit shift) else (num, quot)

/-- `while (shift >= 0) { ...; div >>= 1; shift--; }` from bit `shift` down,
returning the quotient. -/
def divLoop (num div quot : arith_uint256) : Nat → arith_uint256
  | 0 => (divStep num div quot 0).2
  | shift + 1 =>
    let r := divStep num div quot (shift + 1)
    divLoop r.1 (div.shiftRight 1) r.2 shift

/-- `operator/=(b)`: the divisor is aligned under the top bit of the dividend,
or the quotient is zero when it has more bits. -/
def div (a b : arith_uint256) : Except String arith_uint256 :=
  let num_bits := a.bits
  let div_bits := b.bits
  if div_bits = 0 then .error "Division by zero"
  else if div_bits > num_bits then .ok zero
  else .ok (divLoop a (b.shiftLeft (num_bits - div_bits)) zero (num_bits - div_bits))

theorem compareTo_nonneg_iff (a b : arith_uint256) : a.compareTo b ≥ 0 ↔ b.toNat ≤ a.toNat := by
  rw [compareTo_eq]
  split_ifs <;> omega

section DivStep

variable {B s Q : Nat} {num div quot : arith_uint256}

/-- A turn at bit `s`, with the divisor `B` aligned at `s`, the quotient free
below bit `s + 1` and the remainder below the divisor one bit up, keeps
quotient times `B` plus remainder, leaves the quotient free below bit `s`,
and brings the remainder below the divisor. -/
theorem divStep_spec (hdiv : div.toNat = B * 2 ^ s) (hquot : quot.toNat = 2 ^ (s + 1) * Q)
    (hnum : num.toNat < B * 2 ^ (s + 1)) (hs : s < 256) :
    (divStep num div quot s).2.toNat * B + (divStep num div quot s).1.toNat =
        quot.toNat * B + num.toNat ∧
      2 ^ s ∣ (divStep num div quot s).2.toNat ∧ (divStep num div quot s).1.toNat < B * 2 ^ s := by
  have hpow : 2 ^ (s + 1) = 2 * 2 ^ s := by rw [Nat.pow_succ, Nat.mul_comm]
  have hdouble : B * 2 ^ (s + 1) = 2 * (B * 2 ^ s) := by rw [hpow]; ring
  unfold divStep
  by_cases hfit : num.compareTo div ≥ 0
  · -- the aligned divisor fits: subtract it and set bit `s`
    have hle := (compareTo_nonneg_iff num div).mp hfit
    have hbit : quot.toNat ||| 2 ^ s = quot.toNat + 2 ^ s := by
      rw [hquot, ← Nat.two_pow_add_eq_or_of_lt (Nat.pow_lt_pow_right (by decide) (Nat.lt_succ_self s))]
    rw [if_pos hfit]
    dsimp only
    rw [toNat_setBit _ hs, hbit, toNat_sub_of_le hle, hdiv]
    rw [hdiv] at hle
    refine ⟨?_, ?_, ?_⟩
    · rw [Nat.add_mul, Nat.add_assoc, ← Nat.add_sub_assoc hle, Nat.mul_comm (2 ^ s) B,
        Nat.add_sub_cancel_left]
    · rw [hquot, hpow]
      exact ⟨2 * Q + 1, by ring⟩
    · omega
  · -- it does not: nothing changes
    have hlt : num.toNat < div.toNat := Nat.lt_of_not_le (fun h => hfit ((compareTo_nonneg_iff _ _).mpr h))
    rw [if_neg hfit]
    refine ⟨rfl, ?_, by rwa [hdiv] at hlt⟩
    rw [hquot, hpow]
    exact ⟨2 * Q, by ring⟩

end DivStep

/-- From bit `s` down, the loop ends with the quotient of the dividend
`A = quot * B + num`. -/
theorem divLoop_spec {A B : Nat} (hB : 0 < B) : ∀ s (num div quot : arith_uint256),
    div.toNat = B * 2 ^ s → 2 ^ (s + 1) ∣ quot.toNat → quot.toNat * B + num.toNat = A →
      num.toNat < B * 2 ^ (s + 1) → s < 256 → (divLoop num div quot s).toNat = A / B
  | 0, num, div, quot, hdiv, ⟨Q, hQ⟩, hA, hnum, hs => by
    obtain ⟨hsum, -, hrem⟩ := divStep_spec hdiv hQ hnum hs
    rw [divLoop, ← hA, ← hsum, Nat.pow_zero, Nat.mul_one] at *
    rw [Nat.add_comm, Nat.add_mul_div_right _ _ hB, Nat.div_eq_of_lt hrem, Nat.zero_add]
  | s + 1, num, div, quot, hdiv, ⟨Q, hQ⟩, hA, hnum, hs => by
    obtain ⟨hsum, hdvd, hrem⟩ := divStep_spec hdiv hQ hnum hs
    -- the divisor moves down a bit for the next turn
    have hdiv' : (div.shiftRight 1).toNat = B * 2 ^ s := by
      rw [toNat_shiftRight, hdiv, show B * 2 ^ (s + 1) = B * 2 ^ s * 2 ^ 1 by ring,
        Nat.mul_div_cancel _ (Nat.two_pow_pos 1)]
    exact divLoop_spec hB s _ _ _ hdiv' hdvd (hsum.trans hA) hrem (by omega)

/-- `operator/=` is the floor quotient, and throws on a zero divisor. -/
theorem div_eq (a b : arith_uint256) :
    a.div b = if b.toNat = 0 then .error "Division by zero" else .ok (ofNat (a.toNat / b.toNat)) := by
  have hA := a.toNat_lt
  unfold div
  dsimp only
  rw [bits_eq, bits_eq]
  by_cases hB : b.toNat = 0
  · have hzero : Veribase.bits 0 = 0 := rfl
    rw [hB, hzero, if_pos rfl, if_pos rfl]
  · have hBpos : 0 < b.toNat := Nat.pos_of_ne_zero hB
    have hbits : Veribase.bits b.toNat ≠ 0 := by
      have := two_pow_le_of_bits hB
      unfold Veribase.bits
      rw [if_neg hB]
      omega
    rw [if_neg hbits, if_neg hB]
    by_cases hgt : Veribase.bits b.toNat > Veribase.bits a.toNat
    · -- the divisor has more bits than the dividend: the quotient is zero
      have hlt : a.toNat < b.toNat :=
        Nat.lt_of_lt_of_le (Nat.lt_of_lt_of_le (lt_two_pow_bits a.toNat)
          (Nat.pow_le_pow_right (by decide) (by omega))) (two_pow_le_of_bits hB)
      rw [if_pos hgt, Nat.div_eq_of_lt hlt]
      exact congrArg Except.ok (ext_toNat (by rw [toNat_zero, toNat_ofNat, Nat.zero_mod]))
    · -- the divisor aligned under the top bit of the dividend
      have hA0 : a.toNat ≠ 0 := fun h => by
        rw [h, show Veribase.bits 0 = 0 from rfl] at hgt
        omega
      have hBlo := two_pow_le_of_bits hB
      have hBhi := lt_two_pow_bits b.toNat
      have hAhi := lt_two_pow_bits a.toNat
      have hnb : Veribase.bits a.toNat - 1 < 256 :=
        (Nat.pow_lt_pow_iff_right (by decide)).mp (Nat.lt_of_le_of_lt (two_pow_le_of_bits hA0) hA)
      rw [if_neg hgt]
      generalize Veribase.bits a.toNat = nb at *
      generalize Veribase.bits b.toNat = db at *
      have hdiv : (b.shiftLeft (nb - db)).toNat = b.toNat * 2 ^ (nb - db) := by
        rw [toNat_shiftLeft, Nat.mod_eq_of_lt]
        calc b.toNat * 2 ^ (nb - db) < 2 ^ db * 2 ^ (nb - db) :=
              Nat.mul_lt_mul_of_pos_right hBhi (Nat.two_pow_pos _)
          _ = 2 ^ nb := by rw [← Nat.pow_add]; congr 1; omega
          _ ≤ 2 ^ 256 := Nat.pow_le_pow_right (by decide) (by omega)
      have hnum : a.toNat < b.toNat * 2 ^ (nb - db + 1) :=
        calc a.toNat < 2 ^ nb := hAhi
          _ = 2 ^ (db - 1) * 2 ^ (nb - db + 1) := by rw [← Nat.pow_add]; congr 1; omega
          _ ≤ b.toNat * 2 ^ (nb - db + 1) := Nat.mul_le_mul_right _ hBlo
      have hquot := divLoop_spec hBpos (nb - db) a _ zero hdiv (by rw [toNat_zero]; exact dvd_zero _)
        (by rw [toNat_zero, Nat.zero_mul, Nat.zero_add]) hnum (by omega)
      refine congrArg Except.ok (ext_toNat ?_)
      rw [hquot, toNat_ofNat, Nat.mod_eq_of_lt (Nat.lt_of_le_of_lt (Nat.div_le_self _ _) hA)]

theorem toNat_dec_int (a : arith_uint256) : (a.dec.toNat : Int) = ((a.toNat : Int) - 1) % 2 ^ 256 := by
  have ha := a.toNat_lt
  rw [toNat_dec]
  omega

/-- **`base_uint<256>` is arithmetic modulo `2^256`.**  Every operator of the
limb code computes the operation on the numbers the limbs stand for, reduced
modulo `2^256`; `>>` and `/` are floor division, `/` throws on a zero
divisor, `CompareTo` is the order of the numbers and `bits()` their bit
length. -/
theorem arith_uint256_arithmetic (a b : arith_uint256) (c : UInt32) :
    (a.add b).toNat = (a.toNat + b.toNat) % 2 ^ 256 ∧
      ((a.sub b).toNat : Int) = ((a.toNat : Int) - b.toNat) % 2 ^ 256 ∧
      a.neg.toNat = (2 ^ 256 - a.toNat) % 2 ^ 256 ∧
      a.inc.toNat = (a.toNat + 1) % 2 ^ 256 ∧
      (a.dec.toNat : Int) = ((a.toNat : Int) - 1) % 2 ^ 256 ∧
      (a.mul b).toNat = a.toNat * b.toNat % 2 ^ 256 ∧
      (a.mulWord c).toNat = a.toNat * c.toNat % 2 ^ 256 ∧
      (∀ s < 256, (a.shiftLeft s).toNat = a.toNat * 2 ^ s % 2 ^ 256 ∧
        (a.shiftRight s).toNat = a.toNat / 2 ^ s) ∧
      (b.toNat ≠ 0 → a.div b = .ok (ofNat (a.toNat / b.toNat))) ∧
      (b.toNat = 0 → a.div b = .error "Division by zero") ∧
      a.compareTo b = (if a.toNat < b.toNat then -1 else if b.toNat < a.toNat then 1 else 0) ∧
      a.bits = Veribase.bits a.toNat := by
  refine ⟨toNat_add a b, toNat_sub a b, toNat_neg a, toNat_inc a, toNat_dec_int a, toNat_mul a b,
    toNat_mulWord a c, fun s _ => ⟨toNat_shiftLeft a s, toNat_shiftRight a s⟩, fun hb => ?_,
    fun hb => ?_, compareTo_eq a b, bits_eq a⟩
  · rw [div_eq, if_neg hb]
  · rw [div_eq, if_pos hb]

/-- Seven by two on limbs, and one shifted to the top bit. -/
theorem arith_uint256_arithmetic_seven :
    (255 : Nat) < 256 ∧ (ofNat 2).toNat ≠ 0 ∧
      ((ofNat 1).shiftLeft 255).toNat = 2 ^ 255 ∧ (ofNat 7).div (ofNat 2) = .ok (ofNat 3) := by
  have h := arith_uint256_arithmetic (ofNat 7) (ofNat 2) 5
  have h1 := (arith_uint256_arithmetic (ofNat 1) (ofNat 2) 5).2.2.2.2.2.2.2.1 255 (by decide)
  refine ⟨by decide, by simp, ?_, ?_⟩
  · rw [h1.1, toNat_ofNat]
    decide
  · rw [h.2.2.2.2.2.2.2.2.1 (by simp), toNat_ofNat, toNat_ofNat]
    rfl

end arith_uint256

end Veribase
