import Veribase.Script.Eval

/-!
# Script numbers

`CScriptNum::serialize` writes an integer as its magnitude in minimal
little-endian bytes, with the sign in bit 7 of the last byte; a magnitude
whose top byte needs that bit gets one more byte, `0x80` or `0x00`.  The
constructor `CScriptNum(vch, true, nMaxNumSize)` reads such a vector back and
rejects one whose last byte carries no magnitude, unless the byte before it
needs its sign bit.

Every argument here splits the top byte off.  `minimalLEBytes_spec` says the
magnitude's bytes end in a nonzero byte, and `minimalLEBytes_leValue` that
bytes ending so are the minimal bytes of their own value.
`scriptNumSerialize_eq`, `scriptNumValue_append` and `nonMinimal_append_eq_false`
give the three functions on a vector whose top byte is split off.  From them,
`scriptNumSerialize_spec` says what `serialize` writes below `2^39`: at most
five bytes, which the constructor accepts and reads back as the value; and
`scriptNumSerialize_of_scriptNum` that an accepted vector of up to eight bytes
is the serialization of its value, so that negative zero, which no value
serializes to, is rejected.
-/

namespace Veribase

open ByteStream

/-! ## The sign bit -/

theorem toNat_and_0x7f (b : UInt8) : (b &&& 0x7f).toNat = b.toNat % 128 := by
  rw [UInt8.toNat_and]
  exact Nat.and_two_pow_sub_one_eq_mod b.toNat 7

theorem and_0x80_ne_zero (b : UInt8) : b &&& 0x80 ≠ 0 ↔ 128 ≤ b.toNat := by
  rw [← and_mark_ne_zero b.toNat_lt, Ne, Ne, ← UInt8.toNat_inj, UInt8.toNat_and]
  rfl

theorem toNat_or_0x80 {b : UInt8} (hb : b.toNat < 128) : (b ||| 0x80).toNat = b.toNat + 128 := by
  rw [UInt8.toNat_or]
  exact Nat.or_two_pow_eq_add_of_lt (n := 7) hb

/-! ## The bytes of the magnitude -/

theorem minimalLEBytes_zero : ∀ fuel, minimalLEBytes fuel 0 = []
  | 0 => rfl
  | _ + 1 => by simp [minimalLEBytes]

theorem leValue_concat_pos {u : List UInt8} {b : UInt8} (hb : 0 < b.toNat) :
    0 < leValue (u ++ [b]) := by
  rw [leValue_append, leValue_cons, leValue_nil, Nat.mul_zero, Nat.add_zero]
  have := Nat.mul_pos (Nat.pow_pos (n := u.length) (show 0 < 256 by decide)) hb
  omega

/-- The bytes of a positive magnitude end in a nonzero byte and read back as it. -/
theorem minimalLEBytes_spec : ∀ (fuel m : Nat), 0 < m → m < 256 ^ fuel →
    ∃ u b, minimalLEBytes fuel m = u ++ [b] ∧ 0 < b.toNat ∧ leValue (u ++ [b]) = m
  | 0, m, hm, hlt => by
      rw [Nat.pow_zero] at hlt
      omega
  | fuel + 1, m, hm, hlt => by
      have hlow : (UInt8.ofNat (m % 256)).toNat = m % 256 := by
        rw [UInt8.toNat_ofNat']
        omega
      by_cases hhigh : m / 256 = 0
      · -- the magnitude fits its lowest byte
        refine ⟨[], UInt8.ofNat (m % 256), ?_, by omega, by simp [hlow]; omega⟩
        simp [minimalLEBytes, hm.ne', hhigh, minimalLEBytes_zero]
      · rw [Nat.pow_succ] at hlt
        obtain ⟨u, b, hu, hb, hv⟩ := minimalLEBytes_spec fuel (m / 256) (by omega) (by omega)
        refine ⟨UInt8.ofNat (m % 256) :: u, b, ?_, hb, ?_⟩
        · rw [minimalLEBytes, if_neg hm.ne', hu, List.cons_append]
        · rw [List.cons_append, leValue_cons, hv, hlow]
          omega

/-- Bytes that end in a nonzero byte are the minimal bytes of their own value. -/
theorem minimalLEBytes_leValue {b : UInt8} (hb : 0 < b.toNat) :
    ∀ (u : List UInt8) (fuel : Nat), u.length < fuel →
      minimalLEBytes fuel (leValue (u ++ [b])) = u ++ [b]
  | [], fuel + 1, _ => by
      have hb' : b.toNat / 256 = 0 := Nat.div_eq_of_lt b.toNat_lt
      simp [minimalLEBytes, hb.ne', hb', minimalLEBytes_zero]
  | a :: u, fuel + 1, hlen => by
      have ha := a.toNat_lt
      have hpos := leValue_concat_pos (u := u) hb
      have hlow : (a.toNat + 256 * leValue (u ++ [b])) % 256 = a.toNat := by omega
      have hhigh : (a.toNat + 256 * leValue (u ++ [b])) / 256 = leValue (u ++ [b]) := by omega
      rw [List.cons_append, leValue_cons, minimalLEBytes, if_neg (by omega), hlow, hhigh,
        minimalLEBytes_leValue hb u fuel (by simpa using hlen)]
      simp

/-! ## The three functions, top byte first -/

/-- `CScriptNum::serialize` of a nonzero value from the bytes of its magnitude. -/
theorem scriptNumSerialize_eq {n : Int} {u : List UInt8} {b : UInt8}
    (h : minimalLEBytes 8 n.natAbs = u ++ [b]) :
    scriptNumSerialize n =
      if 128 ≤ b.toNat then u ++ [b, if n < 0 then 0x80 else 0]
      else if n < 0 then u ++ [b ||| 0x80] else u ++ [b] := by
  unfold scriptNumSerialize
  simp only [h, List.getLast?_concat, bne_iff_ne, and_0x80_ne_zero, List.dropLast_concat]
  split_ifs <;> simp

/-- `set_vch` of a vector whose top byte is `b`: the magnitude without bit 7
of `b`, negated when that bit is set. -/
theorem scriptNumValue_append (u : List UInt8) (b : UInt8) :
    scriptNumValue (u ++ [b]) =
      if 128 ≤ b.toNat then -((leValue u + 256 ^ u.length * (b.toNat % 128) : Nat) : Int)
      else ((leValue u + 256 ^ u.length * b.toNat : Nat) : Int) := by
  unfold scriptNumValue
  simp only [List.getLast?_concat, bne_iff_ne, and_0x80_ne_zero, List.dropLast_concat]
  split_ifs <;>
    simp only [leValue_append, leValue_cons, leValue_nil, toNat_and_0x7f, Nat.mul_zero, Nat.add_zero]

/-- The minimality test of a vector whose top byte is `b`: it passes when `b`
carries magnitude, or when the byte below needs its sign bit. -/
theorem nonMinimal_append_eq_false (u : List UInt8) (b : UInt8) :
    nonMinimal (u ++ [b]) = false ↔ b.toNat % 128 ≠ 0 ∨ 128 ≤ (u.getLastD 0).toNat := by
  have hlow : (b &&& 0x7f == 0) = decide (b.toNat % 128 = 0) := by
    rw [Bool.eq_iff_iff, beq_iff_eq, decide_eq_true_iff, ← toNat_and_0x7f, ← UInt8.toNat_inj]
    rfl
  have hsign : ∀ a : UInt8, (a &&& 0x80 == 0) = decide (a.toNat < 128) := by
    intro a
    rw [Bool.eq_iff_iff, beq_iff_eq, decide_eq_true_iff, ← not_le, ← and_0x80_ne_zero, not_not]
  unfold nonMinimal
  rw [List.getLast?_concat]
  rcases List.eq_nil_or_concat u with rfl | ⟨u', a, rfl⟩
  · simp [hlow]
  · have hlen : ¬ (u' ++ [a] ++ [b]).length ≤ 1 := by simp
    have hget : (u' ++ [a] ++ [b]).getD ((u' ++ [a] ++ [b]).length - 2) 0 = a := by
      simp [List.getD_eq_getElem?_getD]
    simp only [hlow, hlen, hget, hsign, List.concat_eq_append, List.getLastD_concat]
    simp only [decide_false, Bool.false_or, Bool.and_eq_false_iff, decide_eq_false_iff_not]
    omega

theorem scriptNum_eq_ok_iff {vch : List UInt8} {nMaxNumSize : Nat} {x : Int} :
    scriptNum vch true nMaxNumSize = .ok x ↔
      vch.length ≤ nMaxNumSize ∧ nonMinimal vch = false ∧ scriptNumValue vch = x := by
  unfold scriptNum
  by_cases hlen : vch.length > nMaxNumSize
  · rw [if_pos hlen]
    constructor
    · intro h
      cases h
    · rintro ⟨h, -⟩
      omega
  · rw [if_neg hlen]
    cases hmin : nonMinimal vch with
    | true =>
      simp only [Bool.and_true, if_true, Bool.true_eq_false, false_and, and_false, iff_false]
      intro h
      cases h
    | false =>
      simp only [Bool.and_false, Bool.false_eq_true, if_false, true_and]
      constructor
      · intro h
        cases h
        exact ⟨by omega, rfl⟩
      · rintro ⟨-, rfl⟩
        rfl

/-! ## Round trip -/

/-- What `serialize` writes below `2^39`: at most five bytes, minimal, and
read back as the value. -/
theorem scriptNumSerialize_spec {n : Int} (hn : n.natAbs < 2 ^ 39) :
    (scriptNumSerialize n).length ≤ 5 ∧ nonMinimal (scriptNumSerialize n) = false ∧
      scriptNumValue (scriptNumSerialize n) = n := by
  rcases Nat.eq_zero_or_pos n.natAbs with h0 | hpos
  · rw [Int.natAbs_eq_zero.mp h0]
    decide
  obtain ⟨u, b, hR, hb, hv⟩ := minimalLEBytes_spec 8 n.natAbs hpos (by omega)
  rw [leValue_append, leValue_cons, leValue_nil, Nat.mul_zero, Nat.add_zero] at hv
  -- the top byte weighs `256 ^ u.length`, and `2^39` bounds it
  have hweight : 256 ^ u.length ≤ n.natAbs := by
    calc 256 ^ u.length ≤ 256 ^ u.length * b.toNat := Nat.le_mul_of_pos_right _ hb
      _ ≤ n.natAbs := by omega
  have hshort : u.length ≤ 4 := by
    by_contra hlong
    have : 256 ^ 5 ≤ 256 ^ u.length := Nat.pow_le_pow_right (by decide) (by omega)
    omega
  have htop : u.length = 4 → b.toNat < 128 := by
    intro h4
    rw [h4] at hv
    omega
  rw [scriptNumSerialize_eq hR]
  by_cases hbig : 128 ≤ b.toNat
  · -- the sign takes a byte of its own
    have hlen : u.length ≤ 3 := by
      by_contra h
      have := htop (by omega)
      omega
    rw [if_pos hbig, show u ++ [b, if n < 0 then 0x80 else 0] =
      (u ++ [b]) ++ [if n < 0 then 0x80 else 0] by simp]
    refine ⟨by simp; omega, (nonMinimal_append_eq_false (u ++ [b]) _).mpr (.inr ?_), ?_⟩
    · rw [List.getLastD_concat]
      exact hbig
    rw [scriptNumValue_append, leValue_append, leValue_cons, leValue_nil, Nat.mul_zero,
      Nat.add_zero, hv]
    by_cases hneg : n < 0
    · rw [if_pos hneg, if_pos (by decide : 128 ≤ (0x80 : UInt8).toNat)]
      show -((n.natAbs + 256 ^ (u ++ [b]).length * (128 % 128) : Nat) : Int) = n
      omega
    · rw [if_neg hneg, if_neg (by decide : ¬ 128 ≤ (0 : UInt8).toNat)]
      show ((n.natAbs + 256 ^ (u ++ [b]).length * 0 : Nat) : Int) = n
      omega
  · rw [if_neg hbig]
    by_cases hneg : n < 0
    · have hor := toNat_or_0x80 (b := b) (by omega)
      rw [if_pos hneg]
      refine ⟨by simp; omega, (nonMinimal_append_eq_false u _).mpr (.inl (by omega)), ?_⟩
      rw [scriptNumValue_append, if_pos (by omega), hor, Nat.add_mod_right,
        Nat.mod_eq_of_lt (by omega : b.toNat < 128), hv]
      omega
    · rw [if_neg hneg]
      refine ⟨by simp; omega, (nonMinimal_append_eq_false u b).mpr (.inl (by omega)), ?_⟩
      rw [scriptNumValue_append, if_neg hbig]
      omega

/-- **An accepted vector is a serialization.**  Whatever vector of up to eight
bytes `CScriptNum(vch, true, nMaxNumSize)` accepts is what `serialize` writes
for the value it returns. -/
theorem scriptNumSerialize_of_scriptNum {vch : List UInt8} {nMaxNumSize : Nat} {x : Int}
    (hlen : vch.length ≤ 8) (h : scriptNum vch true nMaxNumSize = .ok x) :
    scriptNumSerialize x = vch := by
  obtain ⟨-, hmin, rfl⟩ := scriptNum_eq_ok_iff.mp h
  rcases List.eq_nil_or_concat vch with rfl | ⟨u, b, rfl⟩
  · decide
  rw [List.concat_eq_append] at hmin hlen ⊢
  rw [List.length_append, List.length_singleton] at hlen
  rw [scriptNumValue_append]
  have hb := b.toNat_lt
  by_cases hlow : b.toNat % 128 = 0
  · -- the top byte is the sign alone, and the byte below needs bit 7
    have hsign := ((nonMinimal_append_eq_false u b).mp hmin).resolve_left (not_not.mpr hlow)
    rcases List.eq_nil_or_concat u with rfl | ⟨u', a, rfl⟩
    · simp at hsign
    rw [List.concat_eq_append, List.getLastD_concat] at hsign
    rw [List.concat_eq_append] at hlen ⊢
    rw [List.length_append, List.length_singleton] at hlen
    have hmag := minimalLEBytes_leValue (b := a) (by omega) u' 8 (by omega)
    have hpos := leValue_concat_pos (u := u') (b := a) (by omega)
    by_cases hbig : 128 ≤ b.toNat
    · have hb80 : b = 0x80 := UInt8.toNat_inj.mp (by show b.toNat = 128; omega)
      rw [if_pos hbig, hlow, Nat.mul_zero, Nat.add_zero, scriptNumSerialize_eq (u := u') (b := a)
        (by rw [Int.natAbs_neg, Int.natAbs_natCast]; exact hmag), if_pos hsign, if_pos (by omega),
        hb80]
      simp
    · have hb0 : b = 0 := UInt8.toNat_inj.mp (by show b.toNat = 0; omega)
      rw [if_neg hbig, hb0, show (0 : UInt8).toNat = 0 from rfl, Nat.mul_zero, Nat.add_zero,
        scriptNumSerialize_eq (u := u') (b := a) (by rw [Int.natAbs_natCast]; exact hmag),
        if_pos hsign, if_neg (by omega)]
      simp
  · -- the top byte carries magnitude: without bit 7 it is the magnitude's top byte
    have hb' : (b &&& 0x7f).toNat = b.toNat % 128 := toNat_and_0x7f b
    have hmag := minimalLEBytes_leValue (b := b &&& 0x7f) (by omega) u 8 (by omega)
    rw [leValue_append, leValue_cons, leValue_nil, Nat.mul_zero, Nat.add_zero, hb'] at hmag
    have hpos : 0 < leValue u + 256 ^ u.length * (b.toNat % 128) := by
      have := leValue_concat_pos (u := u) (b := b &&& 0x7f) (by omega)
      rwa [leValue_append, leValue_cons, leValue_nil, Nat.mul_zero, Nat.add_zero, hb'] at this
    by_cases hbig : 128 ≤ b.toNat
    · have hb80 : (b &&& 0x7f) ||| 0x80 = b := by
        apply UInt8.toNat_inj.mp
        rw [toNat_or_0x80 (by omega), hb']
        omega
      rw [if_pos hbig, scriptNumSerialize_eq (u := u) (b := b &&& 0x7f)
        (by rw [Int.natAbs_neg, Int.natAbs_natCast]; exact hmag), if_neg (by omega),
        if_pos (by omega), hb80]
    · have hb7 : b &&& 0x7f = b := by
        apply UInt8.toNat_inj.mp
        rw [hb']
        omega
      rw [Nat.mod_eq_of_lt (show b.toNat < 128 by omega)] at hmag hpos
      rw [if_neg hbig, scriptNumSerialize_eq (u := u) (b := b &&& 0x7f)
        (by rw [Int.natAbs_natCast]; exact hmag), if_neg (by omega), if_neg (by omega), hb7]

theorem scriptNum_minimal_roundtrip :
    (∀ n : Int, n.natAbs < 2 ^ 39 →
      (scriptNumSerialize n).length ≤ 5 ∧ scriptNum (scriptNumSerialize n) true 5 = .ok n) ∧
    (∀ (v : List UInt8) (x : Int), v.length ≤ 5 → scriptNum v true 5 = .ok x →
      scriptNumSerialize x = v) ∧
    scriptNum [0x80] true 5 = .error .SCRIPT_ERR_UNKNOWN_ERROR := by
  refine ⟨fun n hn => ?_, fun v x hv h => scriptNumSerialize_of_scriptNum (by omega) h, rfl⟩
  obtain ⟨hlen, hmin, hval⟩ := scriptNumSerialize_spec hn
  exact ⟨hlen, scriptNum_eq_ok_iff.mpr ⟨hlen, hmin, hval⟩⟩

end Veribase
