import Veribase.Serialize.BitStream

/-!
# Golomb-Rice coding

`GolombRiceEncode` (`blockfilter.cpp`) writes a 64-bit value `x` with
parameter `P` as its quotient `x >> P` in unary, ones closed by a zero, and
then its low `P` bits.  The ones go out in words of up to 64 bits.
`GolombRiceDecode` counts ones up to the first zero, reads `P` bits, and puts
the two back together.

`golombRiceBits P x` is that code as a bit list.  The encoder appends it to
what the writer holds (`golombRiceEncode_spec`), and the decoder reads it back
from the front of what the reader holds, whatever follows
(`golombRiceDecode_spec`), for every `P` below 64; `P > 64` makes the
remainder's `Write` throw, and `P = 64` is a shift the C++ leaves undefined.
-/

namespace Veribase

open BitList

/-- The Golomb-Rice code of `x` with parameter `P`: `x >> P` ones, a zero,
and the low `P` bits of `x`. -/
def golombRiceBits (P x : Nat) : List Bool :=
  List.replicate (x >>> P) true ++ false :: beBits x P

/-! ## The encoder -/

/-- What one word of the unary loop takes off the quotient. -/
theorem toNat_sub_chunk {q : UInt64} (hq : q > 0) :
    (q - (if q ≤ 64 then q.toNat else 64).toUInt64).toNat = q.toNat - min q.toNat 64 := by
  have hq' : 0 < q.toNat := UInt64.lt_iff_toNat_lt.mp hq
  by_cases h64 : q ≤ 64
  · have h64' : q.toNat ≤ 64 := UInt64.le_iff_toNat_le.mp h64
    rw [if_pos h64, show q.toNat.toUInt64 = q by simp, UInt64.sub_self, UInt64.toNat_zero,
      Nat.min_eq_left h64', Nat.sub_self]
  · have h64' : ¬ q.toNat ≤ 64 := fun h => h64 (UInt64.le_iff_toNat_le.mpr h)
    rw [if_neg h64, UInt64.toNat_sub_of_le _ _ (by
        rw [UInt64.le_iff_toNat_le]
        simp only [Nat.toUInt64, UInt64.toNat_ofNat']
        omega), Nat.min_eq_right (by omega)]
    simp [Nat.toUInt64]

/-- The unary loop of `GolombRiceEncode`: `q` ones, in words of at most 64 bits. -/
def golombRiceEncodeQuotient (w : BitStreamWriter) (q : UInt64) :
    Except String BitStreamWriter :=
  if hq : q > 0 then do
    let nbits := if q ≤ 64 then q.toNat else 64
    let w ← w.write (~~~0) nbits
    golombRiceEncodeQuotient w (q - nbits.toUInt64)
  else .ok w
termination_by q.toNat
decreasing_by
  simp only [dite_eq_ite]
  rw [toNat_sub_chunk hq]
  have := UInt64.lt_iff_toNat_lt.mp hq
  omega

/-- `GolombRiceEncode(bitwriter, P, x)`. -/
def golombRiceEncode (w : BitStreamWriter) (P : UInt8) (x : UInt64) :
    Except String BitStreamWriter := do
  let w ← golombRiceEncodeQuotient w (x >>> P.toUInt64)
  let w ← w.write 0 1
  -- the remainder is the bottom `P` bits of `x`, which `Write` takes without a mask
  w.write x P.toNat

/-! ## The decoder -/

/-- The unary loop of `GolombRiceDecode`: `while (bitreader.Read(1) == 1) ++q;` -/
def golombRiceDecodeQuotient (r : BitStreamReader) (q : UInt64) :
    Except String (UInt64 × BitStreamReader) :=
  match h : r.read 1 with
  | .error e => .error e
  | .ok (bit, r') => if bit = 1 then golombRiceDecodeQuotient r' (q + 1) else .ok (q, r')
termination_by r.bits.length
decreasing_by exact BitStreamReader.length_bits_lt_of_read_one h

/-- `GolombRiceDecode(bitreader, P)`. -/
def golombRiceDecode (r : BitStreamReader) (P : UInt8) : Except String (UInt64 × BitStreamReader) :=
  do
  let (q, r) ← golombRiceDecodeQuotient r 0
  let (rem, r) ← r.read P.toNat
  pure ((q <<< P.toUInt64) + rem, r)

/-! ## The encoder appends the code -/

/-- A word of ones. -/
theorem beBits_not_zero {nbits : Nat} (h : nbits ≤ 64) :
    beBits (~~~(0 : UInt64)).toNat nbits = List.replicate nbits true := by
  rw [UInt64.toNat_not, UInt64.toNat_zero, Nat.sub_zero]
  exact beBits_two_pow_sub_one h

/-- The unary loop appends `q` ones, whatever the words it cuts them into. -/
theorem golombRiceEncodeQuotient_spec {w : BitStreamWriter} (hw : w.WF) (q : UInt64) :
    ∃ w', golombRiceEncodeQuotient w q = .ok w' ∧
      w'.bits = w.bits ++ List.replicate q.toNat true ∧ w'.WF ∧ w.out <+: w'.out := by
  fun_induction golombRiceEncodeQuotient w q with
  | case1 w q hq nbits ih =>
    have h64' : (64 : UInt64).toNat = 64 := rfl
    have hn : nbits = min q.toNat 64 := by
      simp only [nbits]
      split
      · next h => rw [UInt64.le_iff_toNat_le, h64'] at h; omega
      · next h => rw [UInt64.le_iff_toNat_le, h64'] at h; omega
    have h64 : nbits ≤ 64 := by omega
    obtain ⟨hbits, hwf, hpre⟩ := BitStreamWriter.writeLoop_spec (~~~0) hw h64
    obtain ⟨w', hrun, hbits', hwf', hpre'⟩ := ih _ hwf
    have hrest : (q - nbits.toUInt64).toNat = q.toNat - nbits := by
      rw [show nbits.toUInt64 = (if q ≤ 64 then q.toNat else 64).toUInt64 by
        simp only [nbits, dite_eq_ite], toNat_sub_chunk hq, hn]
    refine ⟨w', ?_, ?_, hwf', hpre.trans hpre'⟩
    · rw [BitStreamWriter.write_eq_ok _ h64]
      exact hrun
    · rw [hbits', hbits, beBits_not_zero h64, hrest, List.append_assoc,
        List.replicate_append_replicate]
      congr 2
      omega
  | case2 w q hq =>
    have hq0 : q.toNat = 0 := by
      have h0 : ¬ 0 < q.toNat := fun h => hq (UInt64.lt_iff_toNat_lt.mpr (by simpa using h))
      omega
    exact ⟨w, rfl, by simp [hq0], hw, List.prefix_refl _⟩

/-- **`GolombRiceEncode` appends the code** of `x`, for every `P` below 64. -/
theorem golombRiceEncode_spec {w : BitStreamWriter} (hw : w.WF) {P : UInt8} (hP : P.toNat < 64)
    (x : UInt64) :
    ∃ w', golombRiceEncode w P x = .ok w' ∧
      w'.bits = w.bits ++ golombRiceBits P.toNat x.toNat ∧ w'.WF ∧ w.out <+: w'.out := by
  have hq : (x >>> P.toUInt64).toNat = x.toNat >>> P.toNat := by
    rw [UInt64.toNat_shiftRight, UInt8.toNat_toUInt64, Nat.mod_eq_of_lt hP]
  obtain ⟨w₁, hrun₁, hbits₁, hwf₁, hpre₁⟩ := golombRiceEncodeQuotient_spec hw (x >>> P.toUInt64)
  obtain ⟨hbits₂, hwf₂, hpre₂⟩ := BitStreamWriter.writeLoop_spec 0 hwf₁ (by norm_num : 1 ≤ 64)
  obtain ⟨hbits₃, hwf₃, hpre₃⟩ := BitStreamWriter.writeLoop_spec x hwf₂ hP.le
  refine ⟨_, ?_, ?_, hwf₃, hpre₁.trans (hpre₂.trans hpre₃)⟩
  · simp only [golombRiceEncode, hrun₁, BitStreamWriter.write_eq_ok _ (by norm_num : 1 ≤ 64),
      BitStreamWriter.write_eq_ok _ hP.le]
    rfl
  · rw [hbits₃, hbits₂, hbits₁, hq, golombRiceBits]
    simp [beBits]

/-! ## The decoder reads the code back -/

/-- One turn of the unary loop, by the bit it reads. -/
theorem golombRiceDecodeQuotient_of_read {r r' : BitStreamReader} {bit : UInt64} (q : UInt64)
    (h : r.read 1 = .ok (bit, r')) :
    golombRiceDecodeQuotient r q =
      if bit = 1 then golombRiceDecodeQuotient r' (q + 1) else .ok (q, r') := by
  rw [golombRiceDecodeQuotient]
  split
  · next e he => rw [h] at he; cases he
  · next bit' r'' he => rw [h] at he; cases he; rfl

/-- The next bit, as `Read(1)` returns it. -/
theorem read_one_cons {r : BitStreamReader} {b : Bool} {rest : List Bool}
    (h : r.bits = b :: rest) :
    ∃ r', r.read 1 = .ok (if b then 1 else 0, r') ∧ r'.bits = rest := by
  obtain ⟨v, r', hrun, hv, hbits⟩ :=
    BitStreamReader.read_eq_ok (by norm_num) (by simp [h] : 1 ≤ r.bits.length)
  refine ⟨r', ?_, by simp [hbits, h]⟩
  rw [hrun]
  have hv' : v = if b then 1 else 0 := by
    apply UInt64.toNat_inj.mp
    rw [hv, h]
    cases b <;> simp [ofBits]
  rw [hv']

/-- The unary loop counts the ones up to the first zero. -/
theorem golombRiceDecodeQuotient_spec (m : Nat) :
    ∀ (r : BitStreamReader) (q : UInt64) (rest : List Bool),
      r.bits = List.replicate m true ++ false :: rest →
      ∃ q' r', golombRiceDecodeQuotient r q = .ok (q', r') ∧
        q'.toNat = (q.toNat + m) % 2 ^ 64 ∧ r'.bits = rest := by
  induction m with
  | zero =>
    intro r q rest h
    obtain ⟨r', hrun, hbits⟩ := read_one_cons (by simpa using h)
    refine ⟨q, r', ?_, by simp [Nat.mod_eq_of_lt q.toNat_lt], hbits⟩
    rw [golombRiceDecodeQuotient_of_read q hrun]
    rfl
  | succ m ih =>
    intro r q rest h
    obtain ⟨r', hrun, hbits⟩ := read_one_cons (b := true) (by simpa [List.replicate_succ] using h)
    obtain ⟨q', r'', hrun', hq', hbits'⟩ := ih r' (q + 1) rest hbits
    refine ⟨q', r'', ?_, ?_, hbits'⟩
    · rw [golombRiceDecodeQuotient_of_read q hrun]
      exact hrun'
    · rw [hq', UInt64.toNat_add, UInt64.toNat_one, Nat.mod_add_mod]
      congr 1
      omega

/-- **`GolombRiceDecode` reads back a code** from the front of what the
reader holds, for every `P` below 64. -/
theorem golombRiceDecode_spec {P : UInt8} (hP : P.toNat < 64) (x : UInt64) {r : BitStreamReader}
    {rest : List Bool} (h : r.bits = golombRiceBits P.toNat x.toNat ++ rest) :
    ∃ r', golombRiceDecode r P = .ok (x, r') ∧ r'.bits = rest := by
  rw [golombRiceBits, List.append_assoc, List.cons_append] at h
  obtain ⟨q, r₁, hrun₁, hq, hbits₁⟩ := golombRiceDecodeQuotient_spec _ r 0 _ h
  have hq' : q.toNat = x.toNat >>> P.toNat := by
    rw [hq, UInt64.toNat_zero, Nat.zero_add, Nat.mod_eq_of_lt]
    exact lt_of_le_of_lt (Nat.shiftRight_le _ _) x.toNat_lt
  obtain ⟨rem, r₂, hrun₂, hrem, hbits₂⟩ :=
    BitStreamReader.read_eq_ok hP.le (by simp [hbits₁] : P.toNat ≤ r₁.bits.length)
  rw [hbits₁, List.take_left' (length_beBits _ _), ofBits_beBits] at hrem
  refine ⟨r₂, ?_, by simp [hbits₂, hbits₁]⟩
  -- the quotient shifted back up, plus the remainder, is `x` again
  have hx : ((q <<< P.toUInt64) + rem).toNat = x.toNat := by
    have hsplit : (x.toNat >>> P.toNat) * 2 ^ P.toNat + x.toNat % 2 ^ P.toNat = x.toNat := by
      rw [Nat.shiftRight_eq_div_pow, Nat.mul_comm]
      exact Nat.div_add_mod _ _
    have hhigh : x.toNat >>> P.toNat * 2 ^ P.toNat % 2 ^ 64 = x.toNat >>> P.toNat * 2 ^ P.toNat :=
      Nat.mod_eq_of_lt (lt_of_le_of_lt (by omega) x.toNat_lt)
    rw [UInt64.toNat_add, UInt64.toNat_shiftLeft, UInt8.toNat_toUInt64, Nat.mod_eq_of_lt hP, hq',
      Nat.shiftLeft_eq, hrem, hhigh, hsplit, Nat.mod_eq_of_lt x.toNat_lt]
  have hx' : (q <<< P.toUInt64) + rem = x := UInt64.toNat_inj.mp hx
  rw [golombRiceDecode, hrun₁]
  simp only [bind, Except.bind]
  rw [hrun₂]
  simp only [pure, Except.pure, hx']

end Veribase
