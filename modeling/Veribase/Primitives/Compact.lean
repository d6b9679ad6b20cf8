import Veribase.Primitives.Uint256

/-!
# Compact targets

A target travels as a 32-bit *compact*: a size byte, a sign bit and a 23-bit
mantissa.  Two decoders read it.  `arith_uint256::SetCompact` works modulo
`2^256` and reports a negative or overflowing encoding through two flags;
`CBigNum::SetCompact` (the OpenSSL big number of `bignum.h`) is exact and
signed.  On top of them sit the proof-of-work check and the work a block
adds to its chain (`GetBlockProof`).

Two encoders write it back.  `arith_uint256::GetCompact` sizes the value by
its `bits()`, `CBigNum::GetCompact` by OpenSSL's `BN_num_bytes`, and they
take the three leading bytes by `GetLow64` and `BN_get_word`.  With the
OpenSSL calls read as the exact integer operations they are
(`BN_num_bytes`, `BN_get_word`, `BN_rshift` on the magnitude), the signed
encoder is the unsigned one with the sign bit of a negative value
(`bigNumGetCompact_eq`).  Decoding agrees too: whenever
`arith_uint256::SetCompact` reports no overflow, its value is below `2^256`
(`setCompact_lt`), so the exact value of `CBigNum::SetCompact` is that value,
negated exactly when the flag says negative
(`bigNumSetCompact_of_not_overflow`).
-/

namespace Veribase

/-- `arith_uint256::SetCompact(nCompact, &fNegative, &fOverflow)`: the value
modulo `2^256` and the two flags. -/
def setCompact (nCompact : UInt32) : Nat × Bool × Bool :=
  let nSize := nCompact.toNat >>> 24
  let nWord := nCompact.toNat &&& 0x007fffff
  -- `nWord >>= 8 * (3 - nSize)`: a short size shifts the mantissa itself, and
  -- both flags read the shifted word
  let nWord := if nSize ≤ 3 then nWord >>> (8 * (3 - nSize)) else nWord
  let value := if nSize ≤ 3 then nWord else (nWord <<< (8 * (nSize - 3))) % 2 ^ 256
  let fNegative := nWord != 0 && nCompact.toNat &&& 0x00800000 != 0
  let fOverflow := nWord != 0 && (nSize > 34 || (nWord > 0xff && nSize > 33) ||
    (nWord > 0xffff && nSize > 32))
  (value, fNegative, fOverflow)

/-- `CBigNum::SetCompact(nCompact)`: the exact signed value.  `BN_set_negative`
leaves zero unsigned, which an integer does anyway. -/
def bigNumSetCompact (nCompact : UInt32) : Int :=
  let nSize := nCompact.toNat >>> 24
  let fNegative := nCompact.toNat &&& 0x00800000 != 0
  let nWord := nCompact.toNat &&& 0x007fffff
  let value : Nat := if nSize ≤ 3 then nWord >>> (8 * (3 - nSize)) else nWord <<< (8 * (nSize - 3))
  if fNegative then -(value : Int) else value

/-- `bits()`: the number of significant bits. -/
def bits (x : Nat) : Nat := if x = 0 then 0 else Nat.log2 x + 1

/-- `arith_uint256::GetCompact()` of a non-negative value: the size in bytes,
and the three most significant bytes, moved down a byte when the top one
would read as the sign bit. -/
def getCompact (x : Nat) : UInt32 :=
  let nSize := (bits x + 7) / 8
  let nCompact := if nSize ≤ 3 then x <<< (8 * (3 - nSize)) else x >>> (8 * (nSize - 3))
  let (nCompact, nSize) :=
    if nCompact &&& 0x00800000 != 0 then (nCompact >>> 8, nSize + 1) else (nCompact, nSize)
  UInt32.ofNat (nCompact ||| (nSize <<< 24))

/-! ## OpenSSL's side -/

/-- `BN_num_bits(a)`: the significant bits of the magnitude. -/
def bnNumBits (a : Int) : Nat := bits a.natAbs

/-- `BN_num_bytes(a)`. -/
def bnNumBytes (a : Int) : Nat := (bnNumBits a + 7) / 8

/-- `BN_get_word(a)`: the magnitude when it fits a `BN_ULONG`, all ones
otherwise. -/
def bnGetWord (a : Int) : Nat := if a.natAbs < 2 ^ 64 then a.natAbs else 2 ^ 64 - 1

/-- `BN_rshift(r, a, n)`: the magnitude shifted, the sign kept. -/
def bnRshift (a : Int) (n : Nat) : Int :=
  if a < 0 then -((a.natAbs >>> n : Nat) : Int) else ((a.natAbs >>> n : Nat) : Int)

/-- `CBigNum::GetCompact()`.  `BN_get_word(self) << 8*(3-nSize)` is shifted
as a `BN_ULONG` and stored in an `unsigned int`. -/
def bigNumGetCompact (x : Int) : UInt32 :=
  let nSize := bnNumBytes x
  let nCompact : UInt32 :=
    if nSize ≤ 3 then UInt32.ofNat (bnGetWord x <<< (8 * (3 - nSize)))
    else UInt32.ofNat (bnGetWord (bnRshift x (8 * (nSize - 3))))
  let (nCompact, nSize) :=
    if nCompact &&& 0x00800000 != 0 then (nCompact >>> 8, nSize + 1) else (nCompact, nSize)
  let nCompact := nCompact ||| UInt32.ofNat nSize <<< 24
  nCompact ||| (if x < 0 then 0x00800000 else 0)

/-- `CheckProofOfWork(hash, nBits, params)`, with `powLimit` the limit. -/
def checkProofOfWork (hash : uint256) (nBits : UInt32) (powLimit : uint256) : Bool :=
  let (bnTarget, fNegative, fOverflow) := setCompact nBits
  if fNegative || bnTarget == 0 || fOverflow || bnTarget > powLimit.uintToArith256 then false
  else if hash.uintToArith256 > bnTarget then false
  else true

/-- `GetBlockProof(block)`: `~bnTarget / (bnTarget + 1) + 1`, the expected
number of hashes for a target, or zero for an invalid target. -/
def getBlockProof (nBits : UInt32) : Nat :=
  let (bnTarget, fNegative, fOverflow) := setCompact nBits
  if fNegative || fOverflow || bnTarget == 0 then 0
  else (2 ^ 256 - 1 - bnTarget) / (bnTarget + 1) + 1

/-! ## The two codecs agree -/

theorem lt_two_pow_bits (x : Nat) : x < 2 ^ bits x := by
  unfold bits
  split
  · next h => subst h; decide
  · exact Nat.lt_log2_self

/-- A value between `2^k` and `2^(k+1)` has `k + 1` bits. -/
theorem bits_eq_of_lt {x k : Nat} (hlo : 2 ^ k ≤ x) (hhi : x < 2 ^ (k + 1)) : bits x = k + 1 := by
  have hx : x ≠ 0 := Nat.pos_iff_ne_zero.mp (Nat.lt_of_lt_of_le (Nat.two_pow_pos k) hlo)
  have h1 := (Nat.le_log2 hx).mpr hlo
  have h2 := (Nat.log2_lt hx).mpr hhi
  rw [bits, if_neg hx]
  omega

/-- A nonzero value reaches the weight of its top bit. -/
theorem two_pow_le_of_bits {x : Nat} (hx : x ≠ 0) : 2 ^ (bits x - 1) ≤ x := by
  rw [bits, if_neg hx, Nat.add_sub_cancel]
  exact (Nat.le_log2 hx).mp (le_refl _)

/-- A value fills at most the bytes its size counts. -/
theorem lt_two_pow_bytes (x : Nat) : x < 2 ^ (8 * ((bits x + 7) / 8)) :=
  Nat.lt_of_lt_of_le (lt_two_pow_bits x) (Nat.pow_le_pow_right (by decide) (by omega))

/-- The mantissa of a value of at most three bytes, moved up to the top. -/
theorem shiftLeft_mantissa_lt {x s : Nat} (hx : x < 2 ^ (8 * s)) (hs : s ≤ 3) :
    x <<< (8 * (3 - s)) < 2 ^ 24 := by
  rw [Nat.shiftLeft_eq]
  calc x * 2 ^ (8 * (3 - s)) < 2 ^ (8 * s) * 2 ^ (8 * (3 - s)) :=
        Nat.mul_lt_mul_of_pos_right hx (Nat.two_pow_pos _)
    _ = 2 ^ 24 := by rw [← Nat.pow_add]; congr 1; omega

/-- The three leading bytes of a longer value. -/
theorem shiftRight_mantissa_lt {x s : Nat} (hx : x < 2 ^ (8 * s)) (hs : 3 < s) :
    x >>> (8 * (s - 3)) < 2 ^ 24 := by
  rw [Nat.shiftRight_eq_div_pow, Nat.div_lt_iff_lt_mul (Nat.two_pow_pos _), ← Nat.pow_add]
  exact Nat.lt_of_lt_of_le hx (Nat.pow_le_pow_right (by decide) (by omega))

theorem bnGetWord_of_lt {a : Int} (h : a.natAbs < 2 ^ 64) : bnGetWord a = a.natAbs := by
  rw [bnGetWord, if_pos h]

theorem natAbs_bnRshift (a : Int) (n : Nat) : (bnRshift a n).natAbs = a.natAbs >>> n := by
  unfold bnRshift
  split
  · rw [Int.natAbs_neg, Int.natAbs_natCast]
  · rw [Int.natAbs_natCast]

theorem UInt32.bne_zero_eq (u : UInt32) : (u != 0) = (u.toNat != 0) := by
  by_cases hu : u = 0
  · simp [hu]
  · have : u.toNat ≠ 0 := fun h => hu (UInt32.toNat_inj.mp (by rw [h]; rfl))
    rw [bne_iff_ne.mpr hu, bne_iff_ne.mpr this]

/-- The sign-bit test reads the same bit of a mantissa in `UInt32` as in `Nat`. -/
theorem ofNat_signBit {c : Nat} (hc : c < 2 ^ 32) :
    (UInt32.ofNat c &&& 0x00800000 != 0) = (c &&& 0x00800000 != 0) := by
  rw [UInt32.bne_zero_eq, UInt32.toNat_and, UInt32.toNat_ofNat_of_lt' hc]
  rfl

theorem ofNat_or_shiftLeft (c s : Nat) :
    UInt32.ofNat c ||| UInt32.ofNat s <<< 24 = UInt32.ofNat (c ||| s <<< 24) := by
  apply UInt32.toNat_inj.mp
  rw [UInt32.toNat_or, UInt32.toNat_shiftLeft, UInt32.toNat_ofNat', UInt32.toNat_ofNat',
    UInt32.toNat_ofNat', Nat.or_mod_two_pow]
  have h24 : UInt32.toNat 24 % 32 = 24 := rfl
  rw [h24, Nat.shiftLeft_eq, Nat.shiftLeft_eq, Nat.mod_mul_mod]

/-- The last steps of both encoders, on a mantissa that fits a word: moving a
mantissa whose top bit is set and adding the size byte give, in `UInt32`,
the word they give in `Nat`. -/
theorem compactWord_ofNat {C : UInt32} {c : Nat} (s : Nat) (hC : C = UInt32.ofNat c) (hc : c < 2 ^ 32) :
    (if C &&& 0x00800000 != 0 then (C >>> 8, s + 1) else (C, s)).1 |||
        UInt32.ofNat (if C &&& 0x00800000 != 0 then (C >>> 8, s + 1) else (C, s)).2 <<< 24 =
      UInt32.ofNat ((if c &&& 0x00800000 != 0 then (c >>> 8, s + 1) else (c, s)).1 |||
        (if c &&& 0x00800000 != 0 then (c >>> 8, s + 1) else (c, s)).2 <<< 24) := by
  subst hC
  rw [ofNat_signBit hc]
  by_cases hb : (c &&& 0x00800000 != 0) = true
  · have hshift : UInt32.ofNat c >>> 8 = UInt32.ofNat (c >>> 8) := by
      have hsize : UInt32.size = 2 ^ 32 := rfl
      apply UInt32.toNat_inj.mp
      rw [UInt32.toNat_shiftRight, UInt32.toNat_ofNat_of_lt' hc, UInt32.toNat_ofNat_of_lt' (by
        rw [Nat.shiftRight_eq_div_pow]; omega)]
      rfl
    rw [if_pos hb, if_pos hb, hshift, ofNat_or_shiftLeft]
  · rw [if_neg hb, if_neg hb, ofNat_or_shiftLeft]

/-- `CBigNum::GetCompact` is `arith_uint256::GetCompact` of the magnitude,
with the sign bit of a negative value. -/
theorem bigNumGetCompact_eq (x : Int) :
    bigNumGetCompact x = getCompact x.natAbs ||| (if x < 0 then 0x00800000 else 0) := by
  have hx := lt_two_pow_bytes x.natAbs
  unfold bigNumGetCompact getCompact
  simp only [bnNumBytes, bnNumBits]
  -- both take the same three leading bytes
  have hc : (if (bits x.natAbs + 7) / 8 ≤ 3 then x.natAbs <<< (8 * (3 - (bits x.natAbs + 7) / 8))
      else x.natAbs >>> (8 * ((bits x.natAbs + 7) / 8 - 3))) < 2 ^ 24 := by
    split
    · exact shiftLeft_mantissa_lt hx ‹_›
    · exact shiftRight_mantissa_lt hx (by omega)
  have hC : (if (bits x.natAbs + 7) / 8 ≤ 3 then
        UInt32.ofNat (bnGetWord x <<< (8 * (3 - (bits x.natAbs + 7) / 8)))
      else UInt32.ofNat (bnGetWord (bnRshift x (8 * ((bits x.natAbs + 7) / 8 - 3))))) =
      UInt32.ofNat (if (bits x.natAbs + 7) / 8 ≤ 3 then x.natAbs <<< (8 * (3 - (bits x.natAbs + 7) / 8))
        else x.natAbs >>> (8 * ((bits x.natAbs + 7) / 8 - 3))) := by
    split
    · next hs =>
        have hlt : x.natAbs < 2 ^ 64 := by
          have := shiftLeft_mantissa_lt hx hs
          rw [Nat.shiftLeft_eq] at this
          have := Nat.le_mul_of_pos_right x.natAbs (Nat.two_pow_pos (8 * (3 - (bits x.natAbs + 7) / 8)))
          omega
        rw [bnGetWord_of_lt hlt]
    · next hs =>
        have hlt := shiftRight_mantissa_lt hx (by omega)
        rw [bnGetWord_of_lt (by rw [natAbs_bnRshift]; omega), natAbs_bnRshift]
  exact congrArg (· ||| (if x < 0 then 0x00800000 else 0)) (compactWord_ofNat _ hC (by omega))

/-- A mantissa below `2^b` shifted by `k` fits `n` bits when `k + b ≤ n`. -/
theorem shiftLeft_lt_two_pow {w b k n : Nat} (hw : w < 2 ^ b) (hk : k + b ≤ n) : w <<< k < 2 ^ n := by
  rw [Nat.shiftLeft_eq]
  calc w * 2 ^ k < 2 ^ b * 2 ^ k := Nat.mul_lt_mul_of_pos_right hw (Nat.two_pow_pos k)
    _ = 2 ^ (b + k) := (Nat.pow_add 2 b k).symm
    _ ≤ 2 ^ n := Nat.pow_le_pow_right (by decide) (by omega)

/-- The three sizes the overflow flag lets through each leave the mantissa
room below `2^256`. -/
theorem shiftLeft_lt_of_not_overflow {nWord nSize : Nat} (hw : nWord < 2 ^ 23) (h34 : nSize ≤ 34)
    (h33 : 0xff < nWord → nSize ≤ 33) (h32 : 0xffff < nWord → nSize ≤ 32) :
    nWord <<< (8 * (nSize - 3)) < 2 ^ 256 := by
  by_cases hs32 : nSize ≤ 32
  · exact shiftLeft_lt_two_pow (b := 23) hw (by omega)
  · by_cases hs33 : nSize ≤ 33
    · have hw16 : nWord < 2 ^ 16 := by
        by_cases h : 0xffff < nWord
        · exact absurd (h32 h) hs32
        · omega
      exact shiftLeft_lt_two_pow (b := 16) hw16 (by omega)
    · have hw8 : nWord < 2 ^ 8 := by
        by_cases h : 0xff < nWord
        · exact absurd (h33 h) hs33
        · omega
      exact shiftLeft_lt_two_pow (b := 8) hw8 (by omega)

/-- Whenever `arith_uint256::SetCompact` reports no overflow, `CBigNum::SetCompact`
decodes its value, negated exactly when it reports a negative. -/
theorem bigNumSetCompact_of_not_overflow {nCompact : UInt32} (h : (setCompact nCompact).2.2 = false) :
    bigNumSetCompact nCompact =
      if (setCompact nCompact).2.1 then -((setCompact nCompact).1 : Int) else (setCompact nCompact).1 := by
  unfold setCompact at h ⊢
  unfold bigNumSetCompact
  have hw : nCompact.toNat &&& 0x007fffff < 2 ^ 23 := Nat.and_lt_two_pow _ (by decide)
  generalize nCompact.toNat &&& 0x007fffff = nWord at hw h ⊢
  generalize nCompact.toNat >>> 24 = nSize at h ⊢
  generalize (nCompact.toNat &&& 8388608 != 0) = fSign at h ⊢
  simp only at h ⊢
  by_cases hs : nSize ≤ 3
  · -- a short size: the value is the shifted word, with no modulus
    simp only [hs, if_true] at h ⊢
    by_cases h0 : nWord >>> (8 * (3 - nSize)) = 0
    · simp [h0]
    · simp [h0]
  · -- a long size: no overflow keeps the shifted word below the modulus
    simp only [hs, if_false] at h ⊢
    by_cases h0 : nWord = 0
    · subst h0
      simp
    · have hnz : (nWord != 0) = true := bne_iff_ne.mpr h0
      rw [hnz, Bool.true_and] at h ⊢
      simp only [Bool.or_eq_false_iff, Bool.and_eq_false_iff, decide_eq_false_iff_not, gt_iff_lt,
        not_lt] at h
      obtain ⟨⟨h34, h33⟩, h32⟩ := h
      have hlt := shiftLeft_lt_of_not_overflow hw h34 (fun _ => by omega) (fun _ => by omega)
      rw [Nat.mod_eq_of_lt hlt]

/-- **The two compact codecs agree.**  On every target below `2^256` the
OpenSSL encoder writes what `arith_uint256::GetCompact(false)` writes, and on
every compact that `arith_uint256::SetCompact` decodes without overflow the
OpenSSL decoder gives that value, negated exactly when it is flagged
negative. -/
theorem bigNumCompact_agrees :
    (∀ x : Int, 0 ≤ x → x < 2 ^ 256 → bigNumGetCompact x = getCompact x.toNat) ∧
    ∀ nCompact : UInt32, (setCompact nCompact).2.2 = false →
      bigNumSetCompact nCompact =
        if (setCompact nCompact).2.1 then -((setCompact nCompact).1 : Int) else (setCompact nCompact).1 := by
  refine ⟨fun x hx _ => ?_, fun nCompact h => bigNumSetCompact_of_not_overflow h⟩
  have hsign : ¬ x < 0 := by omega
  have habs : x.natAbs = x.toNat := by omega
  rw [bigNumGetCompact_eq, if_neg hsign, UInt32.or_zero, habs]

/-! ## Encoding, then decoding

`GetCompact` keeps the three leading bytes of a target and `SetCompact`
puts them back in place: a positive target below `2^256` comes back
unflagged, rounded down but still positive (`setCompact_getCompact`).  The
packed word is read back field by field (`setCompact_compactWord`), and the
leading byte of the mantissa is not zero (`mantissa_bounds`). -/

/-- The size in bytes of a positive target below `2^256`, and the lower
bound its top byte gives. -/
theorem bytes_bounds {x : Nat} (hpos : 0 < x) (hlt : x < 2 ^ 256) :
    1 ≤ (bits x + 7) / 8 ∧ (bits x + 7) / 8 ≤ 32 ∧ 2 ^ (8 * ((bits x + 7) / 8 - 1)) ≤ x := by
  have hx : x ≠ 0 := by omega
  have hbits : bits x = Nat.log2 x + 1 := if_neg hx
  have hlog : Nat.log2 x < 256 := (Nat.log2_lt hx).mpr hlt
  refine ⟨by omega, by omega, ?_⟩
  calc 2 ^ (8 * ((bits x + 7) / 8 - 1)) ≤ 2 ^ Nat.log2 x :=
        Nat.pow_le_pow_right (by decide) (by omega)
    _ ≤ x := Nat.log2_self_le hx

/-- The three leading bytes `GetCompact` takes of a positive target: the top
one is not zero. -/
theorem mantissa_bounds {x : Nat} (hpos : 0 < x) (hlt : x < 2 ^ 256) :
    2 ^ 16 ≤ (if (bits x + 7) / 8 ≤ 3 then x <<< (8 * (3 - (bits x + 7) / 8))
      else x >>> (8 * ((bits x + 7) / 8 - 3))) ∧
    (if (bits x + 7) / 8 ≤ 3 then x <<< (8 * (3 - (bits x + 7) / 8))
      else x >>> (8 * ((bits x + 7) / 8 - 3))) < 2 ^ 24 := by
  obtain ⟨h1, -, hlow⟩ := bytes_bounds hpos hlt
  have hx := lt_two_pow_bytes x
  generalize (bits x + 7) / 8 = n at h1 hlow hx
  by_cases hn : n ≤ 3
  · rw [if_pos hn]
    refine ⟨?_, shiftLeft_mantissa_lt hx hn⟩
    rw [Nat.shiftLeft_eq]
    calc 2 ^ 16 = 2 ^ (8 * (n - 1)) * 2 ^ (8 * (3 - n)) := by rw [← Nat.pow_add]; congr 1; omega
      _ ≤ x * 2 ^ (8 * (3 - n)) := Nat.mul_le_mul_right _ hlow
  · rw [if_neg hn]
    refine ⟨?_, shiftRight_mantissa_lt hx (by omega)⟩
    rw [Nat.shiftRight_eq_div_pow, Nat.le_div_iff_mul_le (Nat.two_pow_pos _), ← Nat.pow_add]
    calc 2 ^ (16 + 8 * (n - 3)) = 2 ^ (8 * (n - 1)) := by congr 1; omega
      _ ≤ x := hlow

/-- Rounding a value down to a multiple of `2^k` keeps it positive when
something is left above the cut. -/
theorem truncate_bounds {x k : Nat} (h : 0 < x >>> k) :
    0 < x >>> k <<< k ∧ x >>> k <<< k ≤ x := by
  rw [Nat.shiftLeft_eq]
  refine ⟨Nat.mul_pos h (Nat.two_pow_pos k), ?_⟩
  rw [Nat.shiftRight_eq_div_pow]
  exact Nat.div_mul_le_self x (2 ^ k)

theorem toNat_compactWord {w s : Nat} (hw : w < 2 ^ 23) (hs : s < 2 ^ 8) :
    (UInt32.ofNat (w ||| s <<< 24)).toNat = 2 ^ 24 * s + w := by
  have hor : w ||| s <<< 24 = 2 ^ 24 * s + w := by
    rw [Nat.lor_comm, ← Nat.shiftLeft_add_eq_or_of_lt (by omega), Nat.shiftLeft_eq, Nat.mul_comm]
  rw [hor, UInt32.toNat_ofNat_of_lt' (by show _ < 2 ^ 32; omega)]

theorem compactWord_and_signBit {w : Nat} (s : Nat) (hw : w < 2 ^ 23) :
    (2 ^ 24 * s + w) &&& 0x00800000 = 0 := by
  show _ &&& 2 ^ 23 = 0
  rw [Nat.and_two_pow, Nat.testBit_two_pow_mul_add _ (by omega : w < 2 ^ 24),
    if_pos (by omega), Nat.testBit_lt_two_pow hw]
  rfl

/-- `arith_uint256::SetCompact` reads such a compact back: its size, its
mantissa, and no flag while the size leaves the value below `2^256`. -/
theorem setCompact_compactWord {w s : Nat} (hw : w < 2 ^ 23) (hs : s ≤ 33)
    (h33 : s = 33 → w ≤ 0xffff) :
    setCompact (UInt32.ofNat (w ||| s <<< 24)) =
      (if s ≤ 3 then w >>> (8 * (3 - s)) else (w <<< (8 * (s - 3))) % 2 ^ 256, false, false) := by
  have hsize : (2 ^ 24 * s + w) >>> 24 = s := by
    rw [Nat.shiftRight_eq_div_pow]
    omega
  have hword : (2 ^ 24 * s + w) &&& 0x007fffff = w := by
    show _ &&& (2 ^ 23 - 1) = w
    rw [Nat.and_two_pow_sub_one_eq_mod]
    omega
  have hsign := compactWord_and_signBit s hw
  unfold setCompact
  rw [toNat_compactWord hw (by omega), hsize, hword, hsign]
  by_cases hs3 : s ≤ 3
  · simp [hs3]
    omega
  · simp [hs3]
    omega

/-- The sign-bit test of `GetCompact` on a three-byte mantissa. -/
theorem signBit_eq_decide {c : Nat} (hc : c < 2 ^ 24) :
    (c &&& 0x00800000 != 0) = decide (2 ^ 23 ≤ c) := by
  show (c &&& 2 ^ 23 != 0) = _
  rw [Nat.and_two_pow, Nat.testBit_eq_decide_div_mod_eq]
  by_cases h : 2 ^ 23 ≤ c
  · have hbit : c / 2 ^ 23 % 2 = 1 := by omega
    rw [decide_eq_true hbit, decide_eq_true h]
    rfl
  · have hbit : ¬c / 2 ^ 23 % 2 = 1 := by omega
    rw [decide_eq_false hbit, decide_eq_false h]
    rfl

/-- **Encoding a target rounds it down to its three leading bytes.**  A
positive target below `2^256` comes back from `GetCompact` and `SetCompact`
unflagged, positive, and no larger than it was. -/
theorem setCompact_getCompact {x : Nat} (hpos : 0 < x) (hlt : x < 2 ^ 256) :
    ∃ t, setCompact (getCompact x) = (t, false, false) ∧ 0 < t ∧ t ≤ x := by
  obtain ⟨h1, h32, -⟩ := bytes_bounds hpos hlt
  obtain ⟨hc16, hc24⟩ := mantissa_bounds hpos hlt
  unfold getCompact
  dsimp only
  generalize (bits x + 7) / 8 = n at h1 h32 hc16 hc24 ⊢
  generalize hc : (if n ≤ 3 then x <<< (8 * (3 - n)) else x >>> (8 * (n - 3))) = c at hc16 hc24 ⊢
  simp only [signBit_eq_decide hc24]
  by_cases hb : 2 ^ 23 ≤ c
  · -- the top bit would read as the sign: one byte less of mantissa, one more of size
    simp only [hb, decide_true, if_true]
    rw [setCompact_compactWord (by rw [Nat.shiftRight_eq_div_pow]; omega) (by omega)
      (fun _ => by rw [Nat.shiftRight_eq_div_pow]; omega)]
    by_cases hn : n + 1 ≤ 3
    · -- the whole value fits the mantissa and comes back
      have hcx : c = x <<< (8 * (3 - n)) := by rw [← hc, if_pos (by omega)]
      refine ⟨x, ?_, hpos, le_refl x⟩
      rw [if_pos hn, ← Nat.shiftRight_add, hcx, show 8 + 8 * (3 - (n + 1)) = 8 * (3 - n) by omega,
        Nat.shiftLeft_shiftRight]
    · have hcx : c >>> 8 = x >>> (8 * (n - 2)) := by
        by_cases h3 : n = 3
        · subst h3
          rw [← hc, if_pos (le_refl 3)]
          rfl
        · rw [← hc, if_neg (by omega), ← Nat.shiftRight_add]
          congr 1
          omega
      have hcut : 0 < x >>> (8 * (n - 2)) := by
        rw [← hcx, Nat.shiftRight_eq_div_pow]
        omega
      obtain ⟨ht0, htx⟩ := truncate_bounds hcut
      refine ⟨x >>> (8 * (n - 2)) <<< (8 * (n - 2)), ?_, ht0, htx⟩
      rw [if_neg hn, hcx, show n + 1 - 3 = n - 2 by omega, Nat.mod_eq_of_lt (by omega)]
  · simp only [hb, decide_false, Bool.false_eq_true, if_false]
    rw [setCompact_compactWord (by omega) (by omega) (by omega)]
    by_cases hn : n ≤ 3
    · have hcx : c = x <<< (8 * (3 - n)) := by rw [← hc, if_pos hn]
      refine ⟨x, ?_, hpos, le_refl x⟩
      rw [if_pos hn, hcx, Nat.shiftLeft_shiftRight]
    · have hcx : c = x >>> (8 * (n - 3)) := by rw [← hc, if_neg hn]
      have hcut : 0 < x >>> (8 * (n - 3)) := by omega
      obtain ⟨ht0, htx⟩ := truncate_bounds hcut
      refine ⟨x >>> (8 * (n - 3)) <<< (8 * (n - 3)), ?_, ht0, htx⟩
      rw [if_neg hn, hcx, Nat.mod_eq_of_lt (by omega)]

/-! ## The codec truncates and is idempotent

`GetCompact` writes the value's bytes moved into a 24-bit word at a size
(`compactPlace`, `compactSize`); `SetCompact` moves them back, so the value
comes back with the bytes below the window cleared
(`setCompact_getCompact_eq`).  A word with a nonzero top byte and a clear sign
bit is written back as itself (`getCompact_normal`), which makes the
truncated value encode to the same compact. -/

/-- The word `GetCompact` writes for `x` at the size `nSize`: the bytes of `x`
moved so that byte `nSize - 1` is the top byte of a 24-bit word. -/
def compactPlace (x nSize : Nat) : Nat :=
  if nSize ≤ 3 then x <<< (8 * (3 - nSize)) else x >>> (8 * (nSize - 3))

/-- The size byte `GetCompact` writes for `x`: its length in bytes, one more
when the top bit of its three leading bytes would read as the sign. -/
def compactSize (x : Nat) : Nat :=
  let nSize := (bits x + 7) / 8
  if compactPlace x nSize &&& 0x00800000 != 0 then nSize + 1 else nSize

theorem bytes_le_of_lt {x : Nat} (hlt : x < 2 ^ 256) : (bits x + 7) / 8 ≤ 32 := by
  by_cases hx : x = 0
  · subst hx
    decide
  · exact (bytes_bounds (Nat.pos_of_ne_zero hx) hlt).2.1

theorem compactPlace_lt (x : Nat) : compactPlace x ((bits x + 7) / 8) < 2 ^ 24 := by
  unfold compactPlace
  split
  · exact shiftLeft_mantissa_lt (lt_two_pow_bytes x) ‹_›
  · exact shiftRight_mantissa_lt (lt_two_pow_bytes x) (by omega)

/-- Moving the window down a byte drops the low byte of the word. -/
theorem compactPlace_succ (x n : Nat) (hn : 0 < n) :
    compactPlace x (n + 1) = compactPlace x n >>> 8 := by
  unfold compactPlace
  by_cases h : n + 1 ≤ 3
  · rw [if_pos h, if_pos (by omega), show 8 * (3 - n) = 8 * (3 - (n + 1)) + 8 by omega,
      Nat.shiftLeft_add, Nat.shiftLeft_shiftRight]
  · by_cases h3 : n = 3
    · subst h3
      rfl
    · rw [if_neg h, if_neg (by omega), ← Nat.shiftRight_add]
      congr 1
      omega

/-- Only a nonzero value has a top bit to move. -/
theorem bytes_pos_of_signBit {x : Nat} (hb : 2 ^ 23 ≤ compactPlace x ((bits x + 7) / 8)) :
    0 < (bits x + 7) / 8 := by
  by_contra h0
  have hx0 : x = 0 := by
    have := lt_two_pow_bits x
    rw [show bits x = 0 by omega] at this
    omega
  rw [hx0, show (bits 0 + 7) / 8 = 0 from rfl, show compactPlace 0 0 = 0 from rfl] at hb
  omega

/-- `GetCompact` packs its word and its size byte. -/
theorem getCompact_eq_place (x : Nat) :
    getCompact x = UInt32.ofNat (compactPlace x (compactSize x) ||| compactSize x <<< 24) := by
  have hc := compactPlace_lt x
  unfold getCompact compactSize
  dsimp only
  rw [show (if (bits x + 7) / 8 ≤ 3 then x <<< (8 * (3 - (bits x + 7) / 8))
      else x >>> (8 * ((bits x + 7) / 8 - 3))) = compactPlace x ((bits x + 7) / 8) from rfl]
  simp only [signBit_eq_decide hc]
  by_cases hb : 2 ^ 23 ≤ compactPlace x ((bits x + 7) / 8)
  · have hn := bytes_pos_of_signBit hb
    simp only [hb, decide_true, if_true]
    rw [compactPlace_succ x _ hn]
  · simp only [hb, decide_false, Bool.false_eq_true, if_false]

theorem compactSize_of_signBit {x : Nat} (hb : 2 ^ 23 ≤ compactPlace x ((bits x + 7) / 8)) :
    compactSize x = (bits x + 7) / 8 + 1 := by
  unfold compactSize
  dsimp only
  rw [signBit_eq_decide (compactPlace_lt x), decide_eq_true hb, if_pos rfl]

theorem compactSize_of_not_signBit {x : Nat} (hb : ¬2 ^ 23 ≤ compactPlace x ((bits x + 7) / 8)) :
    compactSize x = (bits x + 7) / 8 := by
  unfold compactSize
  dsimp only
  rw [signBit_eq_decide (compactPlace_lt x), decide_eq_false hb]
  rfl

/-- The word `GetCompact` writes leaves the sign bit clear, fits the sizes the
overflow flag lets through, and has a nonzero top byte for a nonzero value. -/
theorem compactPlace_bounds {x : Nat} (hx : x < 2 ^ 256) :
    compactPlace x (compactSize x) < 2 ^ 23 ∧ compactSize x ≤ 33 ∧
      (compactSize x = 33 → compactPlace x (compactSize x) ≤ 0xffff) ∧
      (0 < x → 2 ^ 15 ≤ compactPlace x (compactSize x)) := by
  have hc := compactPlace_lt x
  have h32 := bytes_le_of_lt hx
  by_cases hb : 2 ^ 23 ≤ compactPlace x ((bits x + 7) / 8)
  · -- the word moved down a byte
    have hn := bytes_pos_of_signBit hb
    rw [compactSize_of_signBit hb, compactPlace_succ x _ hn, Nat.shiftRight_eq_div_pow]
    refine ⟨by omega, by omega, fun _ => by omega, fun _ => by omega⟩
  · rw [compactSize_of_not_signBit hb]
    refine ⟨by omega, by omega, fun h => by omega, fun hpos =>
      Nat.le_trans (by decide) (mantissa_bounds hpos hx).1⟩

theorem shiftRight_shiftLeft_le (x k : Nat) : x >>> k <<< k ≤ x := by
  rw [Nat.shiftLeft_eq, Nat.shiftRight_eq_div_pow]
  exact Nat.div_mul_le_self x (2 ^ k)

/-- `SetCompact` puts the written word back in place: `x` with the bytes
below the window cleared. -/
theorem setCompact_getCompact_eq {x : Nat} (hx : x < 2 ^ 256) :
    setCompact (getCompact x) =
      (x >>> (8 * (compactSize x - 3)) <<< (8 * (compactSize x - 3)), false, false) := by
  obtain ⟨hw, h33, hw33, -⟩ := compactPlace_bounds hx
  rw [getCompact_eq_place, setCompact_compactWord hw h33 hw33]
  unfold compactPlace
  by_cases hs : compactSize x ≤ 3
  · rw [if_pos hs, if_pos hs, Nat.shiftLeft_shiftRight, show compactSize x - 3 = 0 by omega]
    rfl
  · rw [if_neg hs, if_neg hs, Nat.mod_eq_of_lt (Nat.lt_of_le_of_lt (shiftRight_shiftLeft_le _ _) hx)]

/-- A nonzero value moved up `m` bits has `m` more bits. -/
theorem bits_shiftLeft {w : Nat} (hw : w ≠ 0) (m : Nat) : bits (w <<< m) = bits w + m := by
  have hlo := two_pow_le_of_bits hw
  have hhi := lt_two_pow_bits w
  have hpos : 0 < bits w := by
    by_contra h
    rw [Nat.eq_zero_of_not_pos h, Nat.pow_zero] at hhi
    omega
  rw [show bits w + m = (bits w - 1 + m) + 1 by omega, Nat.shiftLeft_eq]
  apply bits_eq_of_lt
  · rw [Nat.pow_add]
    exact Nat.mul_le_mul_right _ hlo
  · rw [show bits w - 1 + m + 1 = bits w + m by omega, Nat.pow_add]
    exact Nat.mul_lt_mul_of_pos_right hhi (Nat.two_pow_pos m)

/-- **`GetCompact` reads back a normal encoding.**  A word with a nonzero top
byte and a clear sign bit, placed at a size above three, is written back as
that word and that size. -/
theorem getCompact_normal {w s : Nat} (hlo : 2 ^ 15 ≤ w) (hhi : w < 2 ^ 23) (hs : 3 < s) :
    getCompact (w <<< (8 * (s - 3))) = UInt32.ofNat (w ||| s <<< 24) := by
  have hw : w ≠ 0 := by omega
  have hbits := bits_shiftLeft hw (8 * (s - 3))
  have hb1 : 16 ≤ bits w := by
    have := lt_two_pow_bits w
    by_contra h
    have := Nat.pow_le_pow_right (show 0 < 2 by decide) (show bits w ≤ 15 by omega)
    omega
  have hb2 : bits w ≤ 23 := by
    have := two_pow_le_of_bits hw
    by_contra h
    have := Nat.pow_le_pow_right (show 0 < 2 by decide) (show 23 ≤ bits w - 1 by omega)
    omega
  rw [getCompact_eq_place]
  by_cases h16 : bits w = 16
  · -- two bytes of mantissa: the window reaches one byte further and moves back
    have hn : (bits (w <<< (8 * (s - 3))) + 7) / 8 = s - 1 := by omega
    have hplace : compactPlace (w <<< (8 * (s - 3))) (s - 1) = w <<< 8 := by
      unfold compactPlace
      by_cases h4 : s - 1 ≤ 3
      · rw [if_pos h4, ← Nat.shiftLeft_add]
        congr 1
        omega
      · rw [if_neg h4, show 8 * (s - 3) = 8 + 8 * (s - 1 - 3) by omega, Nat.shiftLeft_add,
          Nat.shiftLeft_shiftRight]
    have hsign : 2 ^ 23 ≤ compactPlace (w <<< (8 * (s - 3))) ((bits (w <<< (8 * (s - 3))) + 7) / 8) := by
      rw [hn, hplace, Nat.shiftLeft_eq]
      omega
    rw [compactSize_of_signBit hsign, hn, show s - 1 + 1 = s by omega]
    unfold compactPlace
    rw [if_neg (by omega), Nat.shiftLeft_shiftRight]
  · -- three bytes of mantissa: the window is the word itself
    have hn : (bits (w <<< (8 * (s - 3))) + 7) / 8 = s := by omega
    have hplace : compactPlace (w <<< (8 * (s - 3))) s = w := by
      unfold compactPlace
      rw [if_neg (by omega), Nat.shiftLeft_shiftRight]
    rw [compactSize_of_not_signBit (by rw [hn, hplace]; omega), hn, hplace]

theorem sub_shiftRight_shiftLeft_lt (x k : Nat) : x - x >>> k <<< k < 2 ^ k := by
  have hdiv := Nat.mod_add_div x (2 ^ k)
  have hmod := Nat.mod_lt x (Nat.two_pow_pos k)
  rw [Nat.shiftLeft_eq, Nat.shiftRight_eq_div_pow]
  rw [Nat.mul_comm] at hdiv
  omega

/-- **The compact codec truncates, and is idempotent.**  For every value
below `2^256`, `GetCompact(false)` leaves the sign bit clear, `SetCompact`
reads it back unflagged as the value with the bytes below its window cleared
(the window being the three leading bytes, moved down a byte when their top
bit would be the sign), which is at most the value and short of it by less
than one unit of the window's lowest byte; and `GetCompact` of that result
is the same compact. -/
theorem getCompact_truncates (x : Nat) (hx : x < 2 ^ 256) :
    getCompact x &&& 0x00800000 = 0 ∧
      setCompact (getCompact x) =
        (x >>> (8 * (compactSize x - 3)) <<< (8 * (compactSize x - 3)), false, false) ∧
      x >>> (8 * (compactSize x - 3)) <<< (8 * (compactSize x - 3)) ≤ x ∧
      x - x >>> (8 * (compactSize x - 3)) <<< (8 * (compactSize x - 3)) < 256 ^ (compactSize x - 3) ∧
      getCompact (x >>> (8 * (compactSize x - 3)) <<< (8 * (compactSize x - 3))) = getCompact x ∧
      getCompact (setCompact (getCompact x)).1 = getCompact x := by
  obtain ⟨hw, h33, -, hlo⟩ := compactPlace_bounds hx
  have hround := setCompact_getCompact_eq hx
  -- a value whose window sits above its lowest byte is the placed word, moved back up
  have hidem : getCompact (x >>> (8 * (compactSize x - 3)) <<< (8 * (compactSize x - 3))) =
      getCompact x := by
    by_cases hs : compactSize x ≤ 3
    · rw [show compactSize x - 3 = 0 by omega, Nat.shiftRight_zero, Nat.shiftLeft_zero]
    · have hpos : 0 < x := by
        by_contra h0
        rw [show x = 0 by omega] at hs
        exact hs (by decide)
      have hplace : x >>> (8 * (compactSize x - 3)) = compactPlace x (compactSize x) := by
        unfold compactPlace
        rw [if_neg hs]
      rw [hplace, getCompact_normal (hlo hpos) hw (by omega), getCompact_eq_place x]
  refine ⟨?_, hround, shiftRight_shiftLeft_le _ _, ?_, hidem, by rw [hround]; exact hidem⟩
  · apply UInt32.toNat_inj.mp
    rw [getCompact_eq_place, UInt32.toNat_and, toNat_compactWord hw (by omega)]
    exact compactWord_and_signBit _ hw
  · rw [show (256 : Nat) ^ (compactSize x - 3) = 2 ^ (8 * (compactSize x - 3)) by
      rw [Nat.pow_mul]]
    exact sub_shiftRight_shiftLeft_lt _ _

/-- The difficulty-one target `0xffff << 208`: its leading bytes `0xffff00`
would read as negative, so `GetCompact` writes `0x1d00ffff`, a window one byte
lower, and `SetCompact` gives the target back exactly. -/
theorem getCompact_truncates_difficultyOne :
    (0xffff <<< 208 : Nat) < 2 ^ 256 ∧ compactSize (0xffff <<< 208) = 29 ∧
      getCompact (0xffff <<< 208) = 0x1d00ffff ∧
      setCompact 0x1d00ffff = (0xffff <<< 208, false, false) :=
  have h := getCompact_truncates (0xffff <<< 208) (by decide)
  have hsize : compactSize (0xffff <<< 208) = 29 := by decide
  have hc : getCompact (0xffff <<< 208) = 0x1d00ffff := by decide
  ⟨by decide, hsize, hc, by rw [← hc, h.2.1, hsize]; decide⟩

end Veribase
