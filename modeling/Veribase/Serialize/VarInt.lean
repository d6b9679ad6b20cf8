import Mathlib
import Veribase.Serialize.CompactSize

/-!
# VarInt

`serialize.h`'s `VARINT` is the base-128 number format of the coin database
and the undo files.  `WriteVarInt` cuts `n` into 7-bit groups, least
significant first, subtracting one from what is left after each cut, and
writes the groups most significant first, every group but the last marked
with `0x80`.  The subtraction makes the encoding unique.  `ReadVarInt<I>`
undoes it group by group and throws `"ReadVarInt(): size too large"` before
the value would leave the unsigned type `I`, whose largest value is `max`.

`readVarInt_writeVarInt` is the round trip: every value of `I` reads back from
its encoding, and the read stops where the encoding ends.  The encoding has
`GetSizeOfVarInt(n)` bytes (`length_writeVarInt`).  Conversely every read
that returns gives a value of `I` and took exactly its encoding
(`readVarIntLoop_canonical`): the loop's accumulator always stands for the
marked groups read so far (`VarIntPrefix`), and the guards keep it inside
`I` when `I`'s largest value ends in seven set bits.
-/

namespace Veribase

open ByteStream

/-- The message of a `VARINT` too large for its type. -/
def VARINT_TOO_LARGE : String := "ReadVarInt(): size too large"

/-- The first loop of `WriteVarInt`: `tmp[len]`, `tmp[len+1]`, ... for the part
`n` of the value that is left, each group marked unless it is `tmp[0]`. -/
def varIntTmp (n len : Nat) : List UInt8 :=
  let b := UInt8.ofNat ((n &&& 0x7F) ||| if len ≠ 0 then 0x80 else 0)
  if h : n ≤ 0x7F then [b] else b :: varIntTmp ((n >>> 7) - 1) (len + 1)
termination_by n
decreasing_by
  rw [Nat.shiftRight_eq_div_pow]
  omega

/-- `GetSizeOfVarInt(n)`. -/
def getSizeOfVarInt (n : Nat) : Nat :=
  if n ≤ 0x7F then 1 else getSizeOfVarInt ((n >>> 7) - 1) + 1
termination_by n
decreasing_by
  rw [Nat.shiftRight_eq_div_pow]
  omega

/-- `WriteVarInt(os, n)`: the second loop writes `tmp[len]` down to `tmp[0]`. -/
def writeVarInt (n : Nat) : List UInt8 := (varIntTmp n 0).reverse

/-- The loop of `ReadVarInt<I>`, with `n` the value read so far and `max` the
largest value of `I`. -/
def readVarIntLoop (max n : Nat) : List UInt8 → Except String (Nat × List UInt8)
  | [] => .error EOD
  | chData :: rest =>
    if n > max >>> 7 then .error VARINT_TOO_LARGE
    else
      let n := (n <<< 7) ||| (chData.toNat &&& 0x7F)
      if chData.toNat &&& 0x80 ≠ 0 then
        if n = max then .error VARINT_TOO_LARGE else readVarIntLoop max (n + 1) rest
      else .ok (n, rest)

/-- `ReadVarInt<I>(is)`, for the unsigned `I` whose largest value is `max`. -/
def readVarInt (max : Nat) : StreamReader Nat := fun s => readVarIntLoop max 0 s

/-! ## The groups -/

/-- A group as `tmp` holds it: its seven bits, and the mark. -/
theorem toNat_varIntByte (n : Nat) (c : Prop) [Decidable c] :
    (UInt8.ofNat ((n &&& 0x7F) ||| if c then 0x80 else 0)).toNat =
      n % 128 + if c then 128 else 0 := by
  have hlow : n &&& 0x7F = n % 2 ^ 7 := Nat.and_two_pow_sub_one_eq_mod n 7
  have hlt : n % 2 ^ 7 < 2 ^ 7 := Nat.mod_lt _ (by decide)
  rw [hlow, UInt8.toNat_ofNat']
  by_cases hc : c
  · rw [if_pos hc, show (128 : Nat) = 2 ^ 7 from rfl, Nat.or_two_pow_eq_add_of_lt hlt]
    omega
  · rw [if_neg hc, Nat.or_zero]
    omega

/-- Every group after `tmp[0]` is marked, however far the loop has run. -/
theorem varIntTmp_succ (n len : Nat) : varIntTmp n (len + 1) = varIntTmp n 1 := by
  induction n using Nat.strong_induction_on generalizing len with
  | _ n ih =>
    rw [varIntTmp]
    conv_rhs => rw [varIntTmp]
    by_cases h : n ≤ 0x7F
    · simp [h]
    · have hlt : (n >>> 7) - 1 < n := by
        rw [Nat.shiftRight_eq_div_pow]
        omega
      simp [h, ih _ hlt (len + 1), ih _ hlt 1]

/-- One step of the first loop of `WriteVarInt`, as the bytes come out. -/
theorem varIntTmp_reverse (n len : Nat) :
    (varIntTmp n len).reverse =
      (if n ≤ 0x7F then [] else (varIntTmp (n / 128 - 1) 1).reverse) ++
        [UInt8.ofNat ((n &&& 0x7F) ||| if len ≠ 0 then 0x80 else 0)] := by
  rw [varIntTmp]
  by_cases h : n ≤ 0x7F
  · simp [h]
  · simp [h, varIntTmp_succ, Nat.shiftRight_eq_div_pow]

/-- A value of one group is its own encoding. -/
theorem writeVarInt_of_le {n : Nat} (h : n ≤ 0x7F) : writeVarInt n = [UInt8.ofNat n] := by
  have hlow : n &&& 0x7F = n := Nat.and_two_pow_sub_one_of_lt_two_pow (n := 7) (by omega)
  rw [writeVarInt, varIntTmp_reverse, if_pos h, List.nil_append]
  simp [hlow]

/-! ## Reading the groups back -/

/-- One pass of the loop of `ReadVarInt` over a group `g`, marked or not. -/
theorem readVarIntLoop_group {max n g : Nat} (c : Prop) [Decidable c] (hn : n ≤ max / 128)
    (rest : List UInt8) :
    readVarIntLoop max n (UInt8.ofNat ((g &&& 0x7F) ||| if c then 0x80 else 0) :: rest) =
      if c then
        (if n * 128 + g % 128 = max then .error VARINT_TOO_LARGE
         else readVarIntLoop max (n * 128 + g % 128 + 1) rest)
      else .ok (n * 128 + g % 128, rest) := by
  have hcheck : ¬ n > max >>> 7 := by
    rw [Nat.shiftRight_eq_div_pow]
    omega
  have hg : g % 128 < 2 ^ 7 := Nat.mod_lt _ (by decide)
  -- the value so far, shifted, has seven free bits for the group
  have hor : n <<< 7 ||| g % 128 = n * 128 + g % 128 := by
    rw [Nat.shiftLeft_eq, Nat.mul_comm, ← Nat.two_pow_add_eq_or_of_lt hg]
  rw [readVarIntLoop, if_neg hcheck, toNat_varIntByte]
  by_cases hc : c
  · -- a marked group: the loop goes on unless the value reached `max`
    have hlow : (g % 128 + 128) &&& 0x7F = g % 128 := by
      rw [show (0x7F : Nat) = 2 ^ 7 - 1 from rfl, Nat.and_two_pow_sub_one_eq_mod]
      omega
    have hmark : (g % 128 + 128) &&& 0x80 ≠ 0 := (and_mark_ne_zero (by omega)).mpr (by omega)
    simp only [hc, if_true, hlow, hor]
    rw [if_pos hmark]
  · have hlow : g % 128 &&& 0x7F = g % 128 := Nat.and_two_pow_sub_one_of_lt_two_pow hg
    have hmark : ¬ (g % 128 &&& 0x80 ≠ 0) := fun h =>
      absurd ((and_mark_ne_zero (by omega)).mp h) (by omega)
    simp only [hc, if_false, Nat.add_zero, hlow, hor]
    rw [if_neg hmark]

/-- The marked groups of `m` take the loop from zero to `m + 1`. -/
theorem readVarIntLoop_varIntTmp {max : Nat} :
    ∀ m, m < max → ∀ rest,
      readVarIntLoop max 0 ((varIntTmp m 1).reverse ++ rest) = readVarIntLoop max (m + 1) rest := by
  intro m
  induction m using Nat.strong_induction_on with
  | _ m ih =>
    intro hm rest
    rw [varIntTmp_reverse]
    by_cases h : m ≤ 0x7F
    · -- one group: the loop starts from zero
      rw [if_pos h, List.nil_append, List.singleton_append,
        readVarIntLoop_group _ (Nat.zero_le _), if_pos one_ne_zero, if_neg (by omega)]
      congr 1
      omega
    · -- the groups of `m / 128 - 1` first, which leave `m / 128`
      have hlt : m / 128 - 1 < m := by omega
      rw [if_neg h, List.append_assoc, List.singleton_append, ih _ hlt (by omega),
        Nat.sub_add_cancel (by omega),
        readVarIntLoop_group _ (Nat.div_le_div_right hm.le), if_pos one_ne_zero]
      have hm' : m / 128 * 128 + m % 128 = m := Nat.div_add_mod' m 128
      rw [hm', if_neg (by omega)]

theorem length_varIntTmp (n len : Nat) : (varIntTmp n len).length = getSizeOfVarInt n := by
  induction n using Nat.strong_induction_on generalizing len with
  | _ n ih =>
    rw [varIntTmp, getSizeOfVarInt]
    by_cases h : n ≤ 0x7F
    · simp [h]
    · have hlt : (n >>> 7) - 1 < n := by
        rw [Nat.shiftRight_eq_div_pow]
        omega
      simp [h, ih _ hlt]

/-- The encoding has `GetSizeOfVarInt(n)` bytes. -/
theorem length_writeVarInt (n : Nat) : (writeVarInt n).length = getSizeOfVarInt n := by
  rw [writeVarInt, List.length_reverse, length_varIntTmp]

/-- **VarInt round trip.**  Every value of the type reads back from its
encoding, and the read stops where the encoding ends. -/
theorem readVarInt_writeVarInt {max n : Nat} (h : n ≤ max) (rest : List UInt8) :
    (readVarInt max).run (writeVarInt n ++ rest) = .ok (n, rest) := by
  show readVarIntLoop max 0 (writeVarInt n ++ rest) = _
  rw [writeVarInt, varIntTmp_reverse]
  by_cases hn : n ≤ 0x7F
  · rw [if_pos hn, List.nil_append, List.singleton_append,
      readVarIntLoop_group _ (Nat.zero_le _), if_neg (by simp)]
    congr 2
    omega
  · -- the marked groups leave `n / 128`, and the last group completes `n`
    rw [if_neg hn, List.append_assoc, List.singleton_append,
      readVarIntLoop_varIntTmp _ (by omega), Nat.sub_add_cancel (by omega),
      readVarIntLoop_group _ (Nat.div_le_div_right h), if_neg (by simp),
      Nat.div_add_mod' n 128]

/-! ## Every read is of an encoding -/

/-- What the loop of `ReadVarInt` has read when its accumulator is `n`:
nothing, or the marked groups of some `m`, which leave `m + 1`. -/
def VarIntPrefix (n : Nat) (p : List UInt8) : Prop :=
  (n = 0 ∧ p = []) ∨ ∃ m, n = m + 1 ∧ p = (varIntTmp m 1).reverse

/-- The value the loop forms from its accumulator and the next byte. -/
theorem shiftLeft_or_low (n : Nat) (c : UInt8) : (n <<< 7) ||| (c.toNat &&& 0x7F) = n * 128 + c.toNat % 128 := by
  have hlow : c.toNat &&& 0x7F = c.toNat % 2 ^ 7 := Nat.and_two_pow_sub_one_eq_mod _ 7
  have hlt : c.toNat % 2 ^ 7 < 2 ^ 7 := Nat.mod_lt _ (by decide)
  rw [hlow, Nat.shiftLeft_eq, Nat.mul_comm, ← Nat.two_pow_add_eq_or_of_lt hlt]
  omega

/-- The bytes before the prefix's own groups: the groups of `m / 128 - 1`, or
nothing for a value of one group. -/
theorem varIntPrefix_head {n : Nat} {p : List UInt8} (hp : VarIntPrefix n p) (low : Nat) (hlow : low < 128) :
    (if n * 128 + low ≤ 0x7F then [] else (varIntTmp ((n * 128 + low) / 128 - 1) 1).reverse) = p := by
  rcases hp with ⟨rfl, rfl⟩ | ⟨m, rfl, rfl⟩
  · rw [if_pos (by omega)]
  · rw [if_neg (by omega), show ((m + 1) * 128 + low) / 128 - 1 = m by omega]

/-- A marked byte extends the prefix to the marked groups of the value so far. -/
theorem varIntPrefix_marked {n : Nat} {p : List UInt8} (hp : VarIntPrefix n p) {c : UInt8} (hc : 128 ≤ c.toNat) :
    p ++ [c] = (varIntTmp (n * 128 + c.toNat % 128) 1).reverse := by
  have hbyte : UInt8.ofNat (((n * 128 + c.toNat % 128) &&& 0x7F) ||| if 1 ≠ 0 then 0x80 else 0) = c := by
    apply UInt8.toNat_inj.mp
    rw [toNat_varIntByte, if_pos one_ne_zero]
    have := c.toNat_lt
    omega
  rw [varIntTmp_reverse, hbyte, varIntPrefix_head hp _ (Nat.mod_lt _ (by decide))]

/-- An unmarked byte ends the encoding of the value so far. -/
theorem varIntPrefix_last {n : Nat} {p : List UInt8} (hp : VarIntPrefix n p) {c : UInt8} (hc : c.toNat < 128) :
    p ++ [c] = writeVarInt (n * 128 + c.toNat % 128) := by
  have hbyte : UInt8.ofNat (((n * 128 + c.toNat % 128) &&& 0x7F) ||| if 0 ≠ 0 then 0x80 else 0) = c := by
    apply UInt8.toNat_inj.mp
    rw [toNat_varIntByte, if_neg (by decide)]
    omega
  rw [writeVarInt, varIntTmp_reverse, hbyte, varIntPrefix_head hp _ (Nat.mod_lt _ (by decide))]

/-- **Every read is of an encoding.**  When `I`'s largest value `max` ends in
seven set bits, a read that returns gives a value of `I`, and what it took,
after the prefix already read, is that value's encoding. -/
theorem readVarIntLoop_canonical {max : Nat} (hmax : max % 128 = 127) :
    ∀ (s : List UInt8) (n : Nat) (p : List UInt8), VarIntPrefix n p → ∀ v rest,
      readVarIntLoop max n s = .ok (v, rest) → v ≤ max ∧ p ++ s = writeVarInt v ++ rest := by
  intro s
  induction s with
  | nil =>
    intro n p _ v rest h
    cases h
  | cons c s ih =>
    intro n p hp v rest h
    rw [readVarIntLoop, shiftLeft_or_low] at h
    by_cases hbig : n > max >>> 7
    · rw [if_pos hbig] at h
      cases h
    rw [if_neg hbig] at h
    rw [Nat.shiftRight_eq_div_pow] at hbig
    have hc := c.toNat_lt
    by_cases hmark : c.toNat &&& 0x80 ≠ 0
    · -- a marked byte: the loop goes on from the next accumulator
      have hc128 : 128 ≤ c.toNat := (and_mark_ne_zero hc).mp hmark
      rw [if_pos hmark] at h
      by_cases hfull : n * 128 + c.toNat % 128 = max
      · rw [if_pos hfull] at h
        cases h
      rw [if_neg hfull] at h
      have hp' : VarIntPrefix (n * 128 + c.toNat % 128 + 1) (p ++ [c]) :=
        Or.inr ⟨_, rfl, varIntPrefix_marked hp hc128⟩
      obtain ⟨hv, heq⟩ := ih _ _ hp' v rest h
      exact ⟨hv, by rw [← heq, List.append_assoc, List.singleton_append]⟩
    · -- an unmarked byte ends the value
      have hc128 : c.toNat < 128 := by
        by_contra hge
        exact hmark ((and_mark_ne_zero hc).mpr (by omega))
      rw [if_neg hmark] at h
      cases h
      refine ⟨by omega, ?_⟩
      rw [← varIntPrefix_last hp hc128, List.append_assoc, List.singleton_append]

/-- The largest value of a type of `w ≥ 7` bits ends in seven set bits. -/
theorem two_pow_sub_one_mod {w : Nat} (hw : 7 ≤ w) : (2 ^ w - 1) % 128 = 127 := by
  have hsplit : 2 ^ w = 128 * 2 ^ (w - 7) := by
    rw [show (128 : Nat) = 2 ^ 7 from rfl, ← Nat.pow_add, Nat.add_sub_cancel' hw]
  have hpos : 0 < 2 ^ (w - 7) := Nat.two_pow_pos _
  rw [hsplit]
  omega

/-- **VarInt is a canonical bijection.**  For an unsigned type of `w` bits
(`uint32_t`, `uint64_t`): every value reads back from its encoding, which has
`GetSizeOfVarInt(n)` bytes; every read that returns gives a value of the type
and took exactly that value's encoding; and the encoding of a value beyond
the type does not read: `ReadVarInt` throws rather than wrap. -/
theorem varInt_canonical (w : Nat) (hw : 7 ≤ w) :
    (∀ n < 2 ^ w, ∀ rest, (readVarInt (2 ^ w - 1)).run (writeVarInt n ++ rest) = .ok (n, rest) ∧
      (writeVarInt n).length = getSizeOfVarInt n) ∧
    (∀ s v rest, (readVarInt (2 ^ w - 1)).run s = .ok (v, rest) → v < 2 ^ w ∧ s = writeVarInt v ++ rest) ∧
    (∀ n, 2 ^ w ≤ n → ∀ rest, ∃ e, (readVarInt (2 ^ w - 1)).run (writeVarInt n ++ rest) = .error e) := by
  have hpos : 0 < 2 ^ w := Nat.two_pow_pos w
  have hcanon : ∀ s v rest, (readVarInt (2 ^ w - 1)).run s = .ok (v, rest) →
      v < 2 ^ w ∧ s = writeVarInt v ++ rest := by
    intro s v rest h
    obtain ⟨hv, heq⟩ := readVarIntLoop_canonical (two_pow_sub_one_mod hw) s 0 [] (Or.inl ⟨rfl, rfl⟩) v rest h
    exact ⟨by omega, heq⟩
  refine ⟨fun n hn rest => ⟨readVarInt_writeVarInt (by omega) rest, length_writeVarInt n⟩, hcanon, ?_⟩
  intro n hn rest
  cases hread : (readVarInt (2 ^ w - 1)).run (writeVarInt n ++ rest) with
  | error e => exact ⟨e, rfl⟩
  | ok r =>
    -- a read that returned took an encoding of a value of the type, which a
    -- reader with room for both would tell apart from `n`'s
    obtain ⟨v, rest'⟩ := r
    obtain ⟨hv, heq⟩ := hcanon _ v rest' hread
    have hn' := readVarInt_writeVarInt (le_refl n) rest
    rw [heq, readVarInt_writeVarInt (by omega) rest'] at hn'
    cases hn'
    omega

/-- `uint64_t`: the value `2^32` of the comment in `serialize.h` reads back. -/
theorem varInt_canonical_uint64 :
    7 ≤ 64 ∧ (readVarInt (2 ^ 64 - 1)).run (writeVarInt (2 ^ 32) ++ []) = .ok (2 ^ 32, []) :=
  ⟨by decide, ((varInt_canonical 64 (by decide)).1 (2 ^ 32) (by decide) []).1⟩

end Veribase
