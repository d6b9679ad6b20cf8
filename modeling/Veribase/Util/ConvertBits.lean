import Veribase.Lib.Radix
import Mathlib.Data.Nat.Bitwise

/-!
# ConvertBits

`ConvertBits<frombits, tobits, pad>` of `util/strencodings.h` regroups a
stream of `frombits`-bit values into `tobits`-bit values, the most
significant bits first.  The accumulator `acc` holds the `bits` bits read and
not yet written, under a mask of `frombits + tobits - 1` bits that never cuts
one of them.  With `pad` the bits left at the end are written as one more
value, filled with zeros; without it they must be fewer than `frombits` and
all zero.  Values are natural numbers: the source's are bytes, and every value
either direction writes fits one.

`ConvertInv` is what the loop keeps: the values written, followed by the
`bits` low bits of `acc`, are the stream read (`convertInv_foldl`, from
`emitLoop_spec` for the inner loop).  So `convertBits_pad` writes the stream
followed by fewer than `tobits` zeros, and `convertBits_noPad` reads back a
stream that ends in fewer than `frombits` zeros.  Between bytes and five-bit
values the two are inverse: `convertBits_roundtrip` and
`convertBits_values_roundtrip`.
-/

namespace Veribase

open Radix

/-- The inner loop `while (bits >= tobits) { bits -= tobits; outfn((acc >> bits) & maxv); }`,
for at most `fuel` turns: each turn takes `tobits` bits, so `bits` turns are
enough whenever `tobits` is not zero. -/
def emitLoop (tobits acc : Nat) : Nat → Nat → List Nat × Nat
  | 0, bits => ([], bits)
  | fuel + 1, bits =>
    if bits ≥ tobits then
      let r := emitLoop tobits acc fuel (bits - tobits)
      (((acc >>> (bits - tobits)) &&& ((1 <<< tobits) - 1)) :: r.1, r.2)
    else ([], bits)

/-- One turn of the outer loop on `(acc, bits, out)`: shift the value in under
the mask, and write what fills whole groups. -/
def convertStep (frombits tobits : Nat) (st : Nat × Nat × List Nat) (x : Nat) :
    Nat × Nat × List Nat :=
  let acc := ((st.1 <<< frombits) ||| x) &&& ((1 <<< (frombits + tobits - 1)) - 1)
  let bits := st.2.1 + frombits
  let r := emitLoop tobits acc bits bits
  (acc, r.2, st.2.2 ++ r.1)

/-- `ConvertBits<frombits, tobits, pad>(outfn, it, end)`: the values given to
`outfn`, in order, and what it returns. -/
def convertBits (frombits tobits : Nat) (pad : Bool) (input : List Nat) : List Nat × Bool :=
  let maxv := (1 <<< tobits) - 1
  let st := input.foldl (convertStep frombits tobits) (0, 0, [])
  let acc := st.1
  let bits := st.2.1
  if pad then
    (if bits ≠ 0 then st.2.2 ++ [(acc <<< (tobits - bits)) &&& maxv] else st.2.2, true)
  else if bits ≥ frombits ∨ (acc <<< (tobits - bits)) &&& maxv ≠ 0 then (st.2.2, false)
  else (st.2.2, true)

example : convertBits 8 5 true [255, 1] = ([31, 28, 0, 16], true) := by decide

example : convertBits 5 8 false [31, 28, 0, 16] = ([255, 1], true) := by decide

example : convertBits 5 8 false [31, 28, 0, 17] = ([255, 1], false) := by decide

/-! ## The loops -/

theorem mask_eq_mod (x k : Nat) : x &&& ((1 <<< k) - 1) = x % 2 ^ k := by
  rw [Nat.one_shiftLeft, Nat.and_two_pow_sub_one_eq_mod]

/-- The last group of a padded stream: the bits left, moved to the top. -/
theorem shiftLeft_mask_eq {acc bits t : Nat} (hbits : bits ≤ t) :
    (acc <<< (t - bits)) &&& ((1 <<< t) - 1) = acc % 2 ^ bits * 2 ^ (t - bits) := by
  have hpow : 2 ^ t = 2 ^ bits * 2 ^ (t - bits) := by rw [← pow_add, Nat.add_sub_cancel' hbits]
  rw [mask_eq_mod, Nat.shiftLeft_eq, hpow, Nat.mul_mod_mul_right]

/-- The inner loop writes the `bits` low bits of `acc` as whole groups, and
leaves fewer than `tobits` of them. -/
theorem emitLoop_spec {t : Nat} (ht : 0 < t) (acc : Nat) : ∀ fuel bits, bits ≤ fuel →
    ∃ out rest, emitLoop t acc fuel bits = (out, rest) ∧ rest < t ∧ out.length * t + rest = bits ∧
      horner (2 ^ t) 0 out * 2 ^ rest + acc % 2 ^ rest = acc % 2 ^ bits ∧ ∀ v ∈ out, v < 2 ^ t
  | 0, bits, hfuel => by
    obtain rfl : bits = 0 := by omega
    exact ⟨[], 0, rfl, ht, by simp, by simp, fun _ hv => nomatch hv⟩
  | fuel + 1, bits, hfuel => by
    by_cases hbits : bits ≥ t
    · -- one group, the top `t` of the `bits` bits, then the loop on the rest
      obtain ⟨out, rest, hloop, hrest, hlen, hvalue, hout⟩ :=
        emitLoop_spec ht acc fuel (bits - t) (by omega)
      refine ⟨((acc >>> (bits - t)) &&& ((1 <<< t) - 1)) :: out, rest,
        by rw [emitLoop, if_pos hbits, hloop], hrest, ?_, ?_, ?_⟩
      · rw [List.length_cons, Nat.succ_mul]
        omega
      · have hpow : (2 ^ t) ^ out.length * 2 ^ rest = 2 ^ (bits - t) := by
          rw [← pow_mul, ← pow_add]
          congr 1
          rw [Nat.mul_comm]
          omega
        have hsplit : acc % 2 ^ bits =
            acc % 2 ^ (bits - t) + 2 ^ (bits - t) * (acc / 2 ^ (bits - t) % 2 ^ t) := by
          rw [← Nat.mod_mul, ← pow_add, Nat.sub_add_cancel hbits]
        rw [horner_cons, horner_start, mask_eq_mod, Nat.shiftRight_eq_div_pow, Nat.mul_zero,
          Nat.add_zero, hsplit, ← hvalue]
        calc (acc / 2 ^ (bits - t) % 2 ^ t * (2 ^ t) ^ out.length + horner (2 ^ t) 0 out) * 2 ^ rest +
              acc % 2 ^ rest
            = acc / 2 ^ (bits - t) % 2 ^ t * ((2 ^ t) ^ out.length * 2 ^ rest) +
              (horner (2 ^ t) 0 out * 2 ^ rest + acc % 2 ^ rest) := by ring
          _ = _ := by rw [hpow]; ring
      · intro v hv
        rcases List.mem_cons.mp hv with rfl | hv
        · rw [mask_eq_mod]
          exact Nat.mod_lt _ (by positivity)
        · exact hout v hv
    · exact ⟨[], bits, by rw [emitLoop, if_neg hbits], by omega, by simp, by simp,
        fun _ hv => nomatch hv⟩

/-- What the outer loop keeps: fewer than `tobits` bits wait in `acc`, and the
values written, followed by those bits, are the stream read. -/
structure ConvertInv (f t : Nat) (xs : List Nat) (st : Nat × Nat × List Nat) : Prop where
  bits_lt : st.2.1 < t
  length : st.2.2.length * t + st.2.1 = xs.length * f
  value : horner (2 ^ t) 0 st.2.2 * 2 ^ st.2.1 + st.1 % 2 ^ st.2.1 = horner (2 ^ f) 0 xs
  out_lt : ∀ v ∈ st.2.2, v < 2 ^ t

theorem ConvertInv.nil (f : Nat) {t : Nat} (ht : 0 < t) : ConvertInv f t [] (0, 0, []) :=
  ⟨ht, by simp, by simp, fun _ hv => nomatch hv⟩

/-- One value read keeps the invariant: the mask keeps the `bits + frombits`
bits that wait, and the inner loop writes what fills whole groups. -/
theorem ConvertInv.step {f t x : Nat} {xs : List Nat} {st : Nat × Nat × List Nat} (ht : 0 < t)
    (hinv : ConvertInv f t xs st) (hx : x < 2 ^ f) :
    ConvertInv f t (xs ++ [x]) (convertStep f t st x) := by
  obtain ⟨acc, bits, out⟩ := st
  obtain ⟨hbits, hlen, hvalue, hout⟩ := hinv
  dsimp only at hbits hlen hvalue hout
  set A := ((acc <<< f) ||| x) &&& ((1 <<< (f + t - 1)) - 1) with hA
  -- the mask cuts none of the bits that wait
  have hAmod : A % 2 ^ (bits + f) = acc % 2 ^ bits * 2 ^ f + x := by
    have hdvd : 2 ^ (f + bits) ∣ 2 ^ (f + t - 1) := Nat.pow_dvd_pow 2 (by omega)
    have hor : (acc <<< f) ||| x = 2 ^ f * acc + x := by
      rw [← Nat.shiftLeft_add_eq_or_of_lt hx, Nat.shiftLeft_eq, Nat.mul_comm]
    rw [hA, mask_eq_mod, Nat.add_comm bits f, Nat.mod_mod_of_dvd _ hdvd, hor, pow_add,
      Nat.mod_mul, Nat.mul_add_mod, Nat.mod_eq_of_lt hx, Nat.mul_add_div (by positivity),
      Nat.div_eq_of_lt hx, Nat.add_zero]
    ring
  obtain ⟨out', rest, hloop, hrest, hlen', hvalue', hout'⟩ :=
    emitLoop_spec ht A (bits + f) (bits + f) le_rfl
  have hstep : convertStep f t (acc, bits, out) x = (A, rest, out ++ out') := by
    simp only [convertStep, ← hA, hloop]
  rw [hstep]
  refine ⟨hrest, ?_, ?_, ?_⟩ <;> dsimp only
  · rw [List.length_append, List.length_append, List.length_singleton, Nat.add_mul, Nat.add_mul]
    omega
  · have hpow : (2 ^ t) ^ out'.length * 2 ^ rest = 2 ^ bits * 2 ^ f := by
      rw [← pow_mul, ← pow_add, ← pow_add]
      congr 1
      rw [Nat.mul_comm]
      omega
    rw [horner_append, horner_start (n := horner (2 ^ t) 0 out), horner_append, horner_cons,
      horner_nil, ← hvalue]
    calc (horner (2 ^ t) 0 out * (2 ^ t) ^ out'.length + horner (2 ^ t) 0 out') * 2 ^ rest +
          A % 2 ^ rest
        = horner (2 ^ t) 0 out * ((2 ^ t) ^ out'.length * 2 ^ rest) +
          (horner (2 ^ t) 0 out' * 2 ^ rest + A % 2 ^ rest) := by ring
      _ = x + 2 ^ f * (horner (2 ^ t) 0 out * 2 ^ bits + acc % 2 ^ bits) := by
        rw [hpow, hvalue', hAmod]
        ring
  · intro v hv
    rcases List.mem_append.mp hv with hv | hv
    exacts [hout v hv, hout' v hv]

theorem convertInv_foldl {f t : Nat} (ht : 0 < t) {xs : List Nat} (hxs : ∀ x ∈ xs, x < 2 ^ f) :
    ConvertInv f t xs (xs.foldl (convertStep f t) (0, 0, [])) := by
  induction xs using List.reverseRecOn with
  | nil => exact ConvertInv.nil f ht
  | append_singleton xs x ih =>
    rw [List.foldl_append, List.foldl_cons, List.foldl_nil]
    exact (ih fun y hy => hxs y (List.mem_append_left _ hy)).step ht (hxs x (by simp))

/-- The state the outer loop ends in, with what `ConvertInv` says of it. -/
theorem exists_convertInv {f t : Nat} (ht : 0 < t) {xs : List Nat} (hxs : ∀ x ∈ xs, x < 2 ^ f) :
    ∃ acc bits out, xs.foldl (convertStep f t) (0, 0, []) = (acc, bits, out) ∧ bits < t ∧
      out.length * t + bits = xs.length * f ∧
      horner (2 ^ t) 0 out * 2 ^ bits + acc % 2 ^ bits = horner (2 ^ f) 0 xs ∧
      ∀ v ∈ out, v < 2 ^ t := by
  obtain ⟨hbits, hlen, hvalue, hout⟩ := convertInv_foldl ht hxs
  exact ⟨_, _, _, rfl, hbits, hlen, hvalue, hout⟩

/-! ## Padded and unpadded -/

section Ends

variable {f t : Nat} {xs : List Nat}

/-- With padding, the values written are the stream followed by `P < tobits`
zero bits. -/
theorem convertBits_pad (ht : 0 < t) (hxs : ∀ x ∈ xs, x < 2 ^ f) :
    ∃ out P, convertBits f t true xs = (out, true) ∧ P < t ∧ out.length * t = xs.length * f + P ∧
      horner (2 ^ t) 0 out = horner (2 ^ f) 0 xs * 2 ^ P ∧ ∀ v ∈ out, v < 2 ^ t := by
  obtain ⟨acc, bits, out, hst, hbits, hlen, hvalue, hout⟩ := exists_convertInv ht hxs
  by_cases hzero : bits = 0
  · -- nothing is left over
    subst hzero
    exact ⟨out, 0, by simp [convertBits, hst], ht, by omega,
      by simpa [Nat.mod_one] using hvalue, hout⟩
  · -- the bits left over, moved to the top of one more value
    have hpow : 2 ^ t = 2 ^ bits * 2 ^ (t - bits) := by
      rw [← pow_add, Nat.add_sub_cancel' hbits.le]
    refine ⟨out ++ [acc % 2 ^ bits * 2 ^ (t - bits)], t - bits, ?_, by omega, ?_, ?_, ?_⟩
    · simp [convertBits, hst, hzero, shiftLeft_mask_eq hbits.le]
    · rw [List.length_append, List.length_singleton, Nat.add_mul, Nat.one_mul]
      omega
    · rw [horner_append, horner_cons, horner_nil, ← hvalue, hpow]
      ring
    · intro v hv
      rcases List.mem_append.mp hv with hv | hv
      · exact hout v hv
      · rw [List.mem_singleton.mp hv, hpow]
        exact Nat.mul_lt_mul_of_pos_right (Nat.mod_lt _ (by positivity)) (by positivity)

/-- Without padding, a stream is read back when fewer than `frombits` bits are
left over, all of them zero: the values are the stream less those bits. -/
theorem convertBits_noPad (ht : 0 < t) (hxs : ∀ x ∈ xs, x < 2 ^ f) {out : List Nat}
    (h : convertBits f t false xs = (out, true)) :
    ∃ B, B < f ∧ out.length * t + B = xs.length * f ∧
      horner (2 ^ t) 0 out * 2 ^ B = horner (2 ^ f) 0 xs ∧ ∀ v ∈ out, v < 2 ^ t := by
  obtain ⟨acc, bits, out', hst, hbits, hlen, hvalue, hout⟩ := exists_convertInv ht hxs
  simp only [convertBits, hst, Bool.false_eq_true, if_false, shiftLeft_mask_eq hbits.le] at h
  split_ifs at h with hfail
  · exact absurd (Prod.mk.inj h).2 Bool.false_ne_true
  obtain ⟨rfl, -⟩ := Prod.mk.inj h
  -- the bits left over are zero
  have hzero : acc % 2 ^ bits = 0 := by
    have hmul : acc % 2 ^ bits * 2 ^ (t - bits) = 0 := by omega
    exact (Nat.mul_eq_zero.mp hmul).resolve_right (by positivity)
  refine ⟨bits, by omega, hlen, by rw [← hvalue, hzero, Nat.add_zero], hout⟩

/-- It reads the stream back whenever what is left over is fewer than
`frombits` bits, all zero. -/
theorem convertBits_noPad_ok (ht : 0 < t) (hxs : ∀ x ∈ xs, x < 2 ^ f)
    (hleft : xs.length * f % t < f) (hdvd : 2 ^ (xs.length * f % t) ∣ horner (2 ^ f) 0 xs) :
    (convertBits f t false xs).2 = true := by
  obtain ⟨acc, bits, out, hst, hbits, hlen, hvalue, hout⟩ := exists_convertInv ht hxs
  have hbitsEq : xs.length * f % t = bits := by
    rw [← hlen, Nat.add_comm, Nat.add_mul_mod_self_right, Nat.mod_eq_of_lt hbits]
  rw [hbitsEq] at hleft hdvd
  -- the bits left over are zero
  have hzero : acc % 2 ^ bits = 0 := by
    rw [← hvalue] at hdvd
    exact Nat.eq_zero_of_dvd_of_lt ((Nat.dvd_add_right (Dvd.intro_left _ rfl)).mp hdvd)
      (Nat.mod_lt _ (by positivity))
  simp [convertBits, hst, shiftLeft_mask_eq hbits.le, hzero, Nat.not_le.mpr hleft]

end Ends

/-! ## Bytes and five-bit values -/

/-- Bytes written as five-bit values with padding, `(8 n + 4) / 5` of them,
read back as the same bytes. -/
theorem convertBits_roundtrip {bytes : List Nat} (hbytes : ∀ b ∈ bytes, b < 256) :
    ∃ values, convertBits 8 5 true bytes = (values, true) ∧ (∀ v ∈ values, v < 32) ∧
      values.length = (bytes.length * 8 + 4) / 5 ∧ convertBits 5 8 false values = (bytes, true) := by
  obtain ⟨values, P, hpad, hP, hlen, hvalue, hlt⟩ :=
    convertBits_pad (f := 8) (t := 5) (by norm_num) (fun b hb => by simpa using hbytes b hb)
  have hleft : values.length * 5 % 8 = P := by omega
  -- reading the values back leaves the `P` padding bits
  have hok := convertBits_noPad_ok (f := 5) (t := 8) (by norm_num) hlt (by omega)
    (by rw [hleft, hvalue]; exact Dvd.intro_left _ rfl)
  set out := (convertBits 5 8 false values).1
  have hout : convertBits 5 8 false values = (out, true) := Prod.ext rfl hok
  obtain ⟨B, hB, hlen', hvalue', hout8⟩ := convertBits_noPad (by norm_num) hlt hout
  obtain rfl : B = P := by omega
  have hsame : horner (2 ^ 8) 0 out = horner (2 ^ 8) 0 bytes :=
    Nat.eq_of_mul_eq_mul_right (by positivity) (hvalue'.trans hvalue)
  have hbytes' : ∀ b ∈ bytes, b < 2 ^ 8 := fun b hb => by simpa using hbytes b hb
  refine ⟨values, hpad, fun v hv => by simpa using hlt v hv, by omega, ?_⟩
  rw [hout, horner_inj (by norm_num) (by omega) hout8 hbytes' hsame]

/-- Five-bit values that read without padding as bytes are what those bytes
give with padding. -/
theorem convertBits_values_roundtrip {values bytes : List Nat} (hvalues : ∀ v ∈ values, v < 32)
    (h : convertBits 5 8 false values = (bytes, true)) :
    (∀ b ∈ bytes, b < 256) ∧ convertBits 8 5 true bytes = (values, true) := by
  have hvalues' : ∀ v ∈ values, v < 2 ^ 5 := fun v hv => by simpa using hvalues v hv
  obtain ⟨B, hB, hlen, hvalue, hbytes⟩ := convertBits_noPad (by norm_num) hvalues' h
  obtain ⟨out, P, hpad, hP, hlen', hvalue', hout⟩ :=
    convertBits_pad (f := 8) (t := 5) (by norm_num) hbytes
  obtain rfl : P = B := by omega
  have hsame : horner (2 ^ 5) 0 out = horner (2 ^ 5) 0 values := by rw [hvalue', hvalue]
  refine ⟨fun b hb => by simpa using hbytes b hb, ?_⟩
  rw [hpad, horner_inj (by norm_num) (by omega) hout hvalues' hsame]

end Veribase
