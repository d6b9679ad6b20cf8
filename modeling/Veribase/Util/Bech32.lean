import Veribase.Lib.Fault
import Veribase.Lib.Bits
import Veribase.Lib.Radix

/-!
# Bech32 and Bech32m

A Bech32 string is a human-readable part, the separator `'1'`, and values of
five bits written over `CHARSET`, the last six of them a checksum.
`PolyMod` reads a list of values as a polynomial over GF(32) and reduces it
modulo the code's generator, five bits a coefficient in one 32-bit word.
`CreateChecksum` appends six zero values and takes the six values to XOR
into them so that `PolyMod` gives the encoding's constant, `1` for Bech32
and `0x2bc830a3` for Bech32m; `VerifyChecksum` recomputes `PolyMod` and
compares it with both constants.  `Decode` accepts a string of printable
characters in one case, finds the separator with `rfind('1')` (the
human-readable part may itself hold a `'1'`), reads the values back through
`CHARSET_REV` and lower-cases the human-readable part.

Strings are lists of characters and values are `UInt8`, as the source's
`std::vector<uint8_t>`; a failed `assert` or an out-of-range read is a
`Fault`, and `DecodeResult()` is `DecodeResult.invalid`.

The checksum works because `PolyMod` is linear: a step of its loop moves
what was XORed into the low bits of the state up by five bits, untouched,
until it reaches the top (`polyModStep_xor_low`, `polyModStep_value`).  So
six more values XOR their packed word into the result
(`foldl_polyModStep_inject`), and the checksum, unpacked from the word to
add, packs back to it (`packValues_checksumValues`).  Hence
`verifyChecksum_createChecksum`, and with the character tables
`decode_encode`: decoding an encoded string, in lower or in upper case,
gives back the encoding, the human-readable part and the values.
-/

namespace Veribase.Bech32

/-- `bech32::Encoding`. -/
inductive Encoding
  | INVALID
  | BECH32
  | BECH32M
deriving DecidableEq, Repr

/-- `CHARSET`, the character of each five-bit value. -/
def CHARSET : List Char :=
  ['q', 'p', 'z', 'r', 'y', '9', 'x', '8', 'g', 'f', '2', 't', 'v', 'd', 'w', '0',
   's', '3', 'j', 'n', '5', '4', 'k', 'h', 'c', 'e', '6', 'm', 'u', 'a', '7', 'l']

/-- `CHARSET_REV`, the value of each ASCII character, `-1` for one not in
`CHARSET` in either case. -/
def CHARSET_REV : List Int :=
  [-1, -1, -1, -1, -1, -1, -1, -1, -1, -1, -1, -1, -1, -1, -1, -1,
   -1, -1, -1, -1, -1, -1, -1, -1, -1, -1, -1, -1, -1, -1, -1, -1,
   -1, -1, -1, -1, -1, -1, -1, -1, -1, -1, -1, -1, -1, -1, -1, -1,
   15, -1, 10, 17, 21, 20, 26, 30,  7,  5, -1, -1, -1, -1, -1, -1,
   -1, 29, -1, 24, 13, 25,  9,  8, 23, -1, 18, 22, 31, 27, 19, -1,
    1,  0,  3, 16, 11, 28, 12, 14,  6,  4,  2, -1, -1, -1, -1, -1,
   -1, 29, -1, 24, 13, 25,  9,  8, 23, -1, 18, 22, 31, 27, 19, -1,
    1,  0,  3, 16, 11, 28, 12, 14,  6,  4,  2, -1, -1, -1, -1, -1]

/-- `EncodingConstant(encoding)`. -/
def encodingConstant (encoding : Encoding) : Faulty UInt32 :=
  Fault.check (encoding == .BECH32 || encoding == .BECH32M) >>= fun _ =>
  .ok (if encoding == .BECH32 then 1 else 0x2bc830a3)

/-- One iteration of the loop of `PolyMod`: the state `c`, times `x`, plus
`v_i`, modulo the generator. -/
def polyModStep (c : UInt32) (v_i : UInt8) : UInt32 :=
  -- First, determine the value of c0:
  let c0 : UInt8 := (c >>> 25).toUInt8
  -- Then compute c1*x^5 + c2*x^4 + c3*x^3 + c4*x^2 + c5*x + v_i:
  let c := ((c &&& 0x1ffffff) <<< 5) ^^^ v_i.toUInt32
  -- Finally, for each set bit n in c0, conditionally add {2^n}k(x):
  let c := if c0 &&& 1 ≠ 0 then c ^^^ 0x3b6a57b2 else c
  let c := if c0 &&& 2 ≠ 0 then c ^^^ 0x26508e6d else c
  let c := if c0 &&& 4 ≠ 0 then c ^^^ 0x1ea119fa else c
  let c := if c0 &&& 8 ≠ 0 then c ^^^ 0x3d4233dd else c
  if c0 &&& 16 ≠ 0 then c ^^^ 0x2a1462b3 else c

/-- `PolyMod(v)`. -/
def polyMod (v : List UInt8) : UInt32 := v.foldl polyModStep 1

/-- `LowerCase(c)`. -/
def lowerCase (c : Char) : Char :=
  if 'A'.toNat ≤ c.toNat ∧ c.toNat ≤ 'Z'.toNat then Char.ofNat (c.toNat - 'A'.toNat + 'a'.toNat)
  else c

/-- `ExpandHRP(hrp)`: the high bits of each character, a zero, then the low
five bits of each. -/
def expandHRP (hrp : List Char) : List UInt8 :=
  hrp.map (fun c => (c.toNat >>> 5).toUInt8) ++ 0 :: hrp.map (fun c => (c.toNat &&& 0x1f).toUInt8)

/-- `VerifyChecksum(hrp, values)`. -/
def verifyChecksum (hrp : List Char) (values : List UInt8) : Faulty Encoding :=
  let check := polyMod (expandHRP hrp ++ values)
  encodingConstant .BECH32 >>= fun bech32 =>
  if check = bech32 then .ok .BECH32
  else encodingConstant .BECH32M >>= fun bech32m =>
    if check = bech32m then .ok .BECH32M else .ok .INVALID

/-- The six values of a checksum, the five-bit groups of `mod` from the top. -/
def checksumValues (mod : UInt32) : List UInt8 :=
  (List.range 6).map fun i => ((mod >>> (5 * (5 - i)).toUInt32) &&& 31).toUInt8

/-- `CreateChecksum(encoding, hrp, values)`. -/
def createChecksum (encoding : Encoding) (hrp : List Char) (values : List UInt8) :
    Faulty (List UInt8) :=
  let enc := expandHRP hrp ++ values ++ List.replicate 6 0
  encodingConstant encoding >>= fun k => .ok (checksumValues (polyMod enc ^^^ k))

/-- `Encode(encoding, hrp, values)`.  Its first loop asserts that no
character of `hrp` is an upper case letter. -/
def encode (encoding : Encoding) (hrp : List Char) (values : List UInt8) : Faulty (List Char) :=
  Fault.check (hrp.all fun c => c.toNat < 'A'.toNat || c.toNat > 'Z'.toNat) >>= fun _ =>
  createChecksum encoding hrp values >>= fun checksum =>
  (values ++ checksum).mapM (fun c => Fault.index CHARSET c.toNat) >>= fun data =>
  .ok (hrp ++ '1' :: data)

/-- `bech32::DecodeResult`. -/
structure DecodeResult where
  encoding : Encoding
  hrp : List Char
  data : List UInt8
deriving DecidableEq, Repr

/-- `DecodeResult()`, a failed decoding. -/
def DecodeResult.invalid : DecodeResult := ⟨.INVALID, [], []⟩

/-- The first loop of `Decode`: whether the string has a lower case and an
upper case letter, or `none` when a character lies outside `[33, 126]`. -/
def caseScan : List Char → Option (Bool × Bool)
  | [] => some (false, false)
  | c :: str =>
    if 'a'.toNat ≤ c.toNat ∧ c.toNat ≤ 'z'.toNat then (caseScan str).map fun r => (true, r.2)
    else if 'A'.toNat ≤ c.toNat ∧ c.toNat ≤ 'Z'.toNat then (caseScan str).map fun r => (r.1, true)
    else if c.toNat < 33 ∨ c.toNat > 126 then none
    else caseScan str

/-- `str.rfind(ch)`, the position of the last `ch`. -/
def rfind (ch : Char) : List Char → Option Nat
  | [] => none
  | c :: str =>
    match rfind ch str with
    | some pos => some (pos + 1)
    | none => if c = ch then some 0 else none

/-- The loop of `Decode` over the characters after the separator, each read
through `CHARSET_REV`; one not in `CHARSET` fails. -/
def decodeValues : List Char → Faulty (Option (List UInt8))
  | [] => .ok (some [])
  | c :: str =>
    Fault.index CHARSET_REV c.toNat >>= fun rev =>
    if rev = -1 then .ok none
    else decodeValues str >>= fun values => .ok (values.map (rev.toNat.toUInt8 :: ·))

/-- `Decode(str)`. -/
def decode (str : List Char) : Faulty DecodeResult :=
  match caseScan str with
  | none => .ok .invalid
  | some (lower, upper) =>
    if lower && upper then .ok .invalid
    else
      match rfind '1' str with
      | none => .ok .invalid
      | some pos =>
        if str.length > 90 || pos == 0 || pos + 7 > str.length then .ok .invalid
        else
          decodeValues (str.drop (pos + 1)) >>= fun
          | none => .ok .invalid
          | some values =>
            let hrp := (str.take pos).map lowerCase
            verifyChecksum hrp values >>= fun result =>
            if result = .INVALID then .ok .invalid
            else .ok ⟨result, hrp, values.take (values.length - 6)⟩

/-- `ToUpper(c)` of `util/strencodings`. -/
def toUpperChar (c : Char) : Char :=
  if 'a'.toNat ≤ c.toNat ∧ c.toNat ≤ 'z'.toNat then Char.ofNat (c.toNat - 'a'.toNat + 'A'.toNat)
  else c

/-- `ToUpper(str)` of `util/strencodings`. -/
def toUpper (str : List Char) : List Char := str.map toUpperChar

/-! ## `PolyMod` is linear -/

section PolyMod

/-- The multiple of `k(x)` that the top coefficient `c0` adds. -/
def generatorMultiple (c0 : UInt8) : UInt32 :=
  (if c0 &&& 1 ≠ 0 then 0x3b6a57b2 else 0) ^^^ (if c0 &&& 2 ≠ 0 then 0x26508e6d else 0) ^^^
    (if c0 &&& 4 ≠ 0 then 0x1ea119fa else 0) ^^^ (if c0 &&& 8 ≠ 0 then 0x3d4233dd else 0) ^^^
    (if c0 &&& 16 ≠ 0 then 0x2a1462b3 else 0)

theorem ite_xor {b : Prop} [Decidable b] (x k : UInt32) :
    (if b then x ^^^ k else x) = x ^^^ if b then k else 0 := by
  split <;> simp

/-- A step shifts the state up five bits, XORs the value in and adds the
multiple of the generator that the coefficient shifted out asks for. -/
theorem polyModStep_eq (c : UInt32) (v : UInt8) :
    polyModStep c v =
      ((c &&& 0x1ffffff) <<< 5) ^^^ v.toUInt32 ^^^ generatorMultiple (c >>> 25).toUInt8 := by
  simp only [polyModStep, ite_xor]
  simp only [generatorMultiple, UInt32.xor_assoc]

theorem polyModStep_value (c : UInt32) (v : UInt8) :
    polyModStep c v = polyModStep c 0 ^^^ v.toUInt32 := by
  have hzero : (0 : UInt8).toUInt32 = 0 := rfl
  rw [polyModStep_eq, polyModStep_eq, hzero, UInt32.xor_zero]
  ac_rfl

/-- What is XORed into the low 25 bits of the state moves up five bits. -/
theorem polyModStep_xor_low {c w : UInt32} (hw : w.toNat < 2 ^ 25) :
    polyModStep (c ^^^ w) 0 = polyModStep c 0 ^^^ (w <<< 5) := by
  have htop : (c ^^^ w) >>> 25 = c >>> 25 := by
    have hzero : w >>> (25 : Nat).toUInt32 = 0 := Bits.shiftRight_eq_zero (by norm_num) hw
    rw [UInt32.shiftRight_xor, show (25 : UInt32) = (25 : Nat).toUInt32 from rfl, hzero,
      UInt32.xor_zero]
  have hlow : (c ^^^ w) &&& 0x1ffffff = (c &&& 0x1ffffff) ^^^ w := by
    have hmask : w &&& UInt32.ofNat (2 ^ 25 - 1) = w := Bits.and_low_mask (by norm_num) hw
    rw [Bits.and_xor, show (0x1ffffff : UInt32) = UInt32.ofNat (2 ^ 25 - 1) from rfl, hmask]
  rw [polyModStep_eq, polyModStep_eq, htop, hlow, UInt32.shiftLeft_xor]
  ac_rfl

theorem toNat_ite_lt {b : Prop} [Decidable b] {k : UInt32} (hk : k.toNat < 2 ^ 30) :
    (if b then k else 0).toNat < 2 ^ 30 := by
  split
  · exact hk
  · simp

theorem toNat_generatorMultiple_lt (c0 : UInt8) : (generatorMultiple c0).toNat < 2 ^ 30 := by
  have h1 := toNat_ite_lt (b := c0 &&& 1 ≠ 0) (k := 0x3b6a57b2) (by decide)
  have h2 := toNat_ite_lt (b := c0 &&& 2 ≠ 0) (k := 0x26508e6d) (by decide)
  have h4 := toNat_ite_lt (b := c0 &&& 4 ≠ 0) (k := 0x1ea119fa) (by decide)
  have h8 := toNat_ite_lt (b := c0 &&& 8 ≠ 0) (k := 0x3d4233dd) (by decide)
  have h16 := toNat_ite_lt (b := c0 &&& 16 ≠ 0) (k := 0x2a1462b3) (by decide)
  exact Bits.toNat_xor_lt (Bits.toNat_xor_lt (Bits.toNat_xor_lt (Bits.toNat_xor_lt h1 h2) h4) h8) h16

/-- A step that reads a zero leaves a state of 30 bits. -/
theorem toNat_polyModStep_zero_lt (c : UInt32) : (polyModStep c 0).toNat < 2 ^ 30 := by
  have hlow : (c &&& 0x1ffffff).toNat < 2 ^ (32 - 5) := by
    rw [UInt32.toNat_and]
    exact lt_of_lt_of_le (Nat.and_lt_two_pow _ (by decide : (0x1ffffff : UInt32).toNat < 2 ^ 25))
      (by norm_num)
  have hshift : ((c &&& 0x1ffffff) <<< 5).toNat < 2 ^ 30 := by
    rw [show (5 : UInt32) = (5 : Nat).toUInt32 from rfl, Bits.toNat_shiftLeft (by norm_num) hlow]
    have : (c &&& 0x1ffffff).toNat < 2 ^ 25 := by
      rw [UInt32.toNat_and]
      exact Nat.and_lt_two_pow _ (by decide)
    omega
  rw [polyModStep_eq]
  exact Bits.toNat_xor_lt (Bits.toNat_xor_lt hshift (by simp)) (toNat_generatorMultiple_lt _)

/-- The word packed from values, each shifting it up five bits into which it
is XORed. -/
def packValues (w : UInt32) (vs : List UInt8) : UInt32 :=
  vs.foldl (fun acc v => acc <<< 5 ^^^ v.toUInt32) w

/-- Up to six more values XOR their packed word into the state, as long as
it does not yet reach the top coefficient: the steps are linear, and an
injected word moves up untouched. -/
theorem foldl_polyModStep_inject : ∀ (vs : List UInt8) (c w : UInt32), vs.length ≤ 6 →
    (∀ v ∈ vs, v.toNat < 32) → w.toNat < 2 ^ (5 * (6 - vs.length)) →
    vs.foldl polyModStep (c ^^^ w) =
      (List.replicate vs.length (0 : UInt8)).foldl polyModStep c ^^^ packValues w vs
  | [], _, _, _, _, _ => rfl
  | v :: vs, c, w, hlen, hvs, hw => by
    simp only [List.length_cons] at hlen hw
    have hv : v.toNat < 32 := hvs v List.mem_cons_self
    have hpow : 2 ^ (5 * (6 - vs.length)) = 2 ^ (5 * (6 - (vs.length + 1))) * 2 ^ 5 := by
      rw [← pow_add]
      congr 1
      omega
    have hw25 : w.toNat < 2 ^ 25 :=
      lt_of_lt_of_le hw (Nat.pow_le_pow_right (by norm_num) (by omega))
    -- the word injected next: this one moved up, the value below it
    have hw' : (w <<< 5 ^^^ v.toUInt32).toNat < 2 ^ (5 * (6 - vs.length)) := by
      have hw27 : w.toNat < 2 ^ (32 - 5) := lt_of_lt_of_le hw25 (by norm_num)
      rw [show (5 : UInt32) = (5 : Nat).toUInt32 from rfl,
        Bits.toNat_shiftLeft_xor (by norm_num) hw27 (by simpa using hv), hpow]
      simp only [UInt8.toNat_toUInt32]
      omega
    rw [List.foldl_cons, polyModStep_value, polyModStep_xor_low hw25, UInt32.xor_assoc,
      foldl_polyModStep_inject vs _ _ (by omega) (fun x hx => hvs x (List.mem_cons_of_mem v hx)) hw']
    rfl

/-- Values of five bits pack into the number they write in base 32, as long
as it fits the word. -/
theorem toNat_packValues : ∀ (vs : List UInt8) (w : UInt32), (∀ v ∈ vs, v.toNat < 32) →
    Radix.horner 32 w.toNat (vs.map UInt8.toNat) < 2 ^ 32 →
    (packValues w vs).toNat = Radix.horner 32 w.toNat (vs.map UInt8.toNat)
  | [], _, _, _ => rfl
  | v :: vs, w, hvs, hfit => by
    have hv : v.toNat < 32 := hvs v List.mem_cons_self
    rw [List.map_cons, Radix.horner_cons] at hfit ⊢
    have hstep := lt_of_le_of_lt (Radix.le_horner (by norm_num)) hfit
    have hw : w.toNat < 2 ^ (32 - 5) := by omega
    have hnext : (w <<< 5 ^^^ v.toUInt32).toNat = v.toNat + 32 * w.toNat := by
      rw [show (5 : UInt32) = (5 : Nat).toUInt32 from rfl,
        Bits.toNat_shiftLeft_xor (by norm_num) hw (by simpa using hv)]
      simp only [UInt8.toNat_toUInt32]
      omega
    have hrest := toNat_packValues vs (w <<< 5 ^^^ v.toUInt32)
      (fun x hx => hvs x (List.mem_cons_of_mem v hx)) (by rwa [hnext])
    rw [hnext] at hrest
    exact hrest

/-- The checksum's values are the six five-bit groups of the word, from the
top. -/
theorem map_toNat_checksumValues (y : UInt32) : (checksumValues y).map UInt8.toNat =
    [y.toNat / 2 ^ 25 % 32, y.toNat / 2 ^ 20 % 32, y.toNat / 2 ^ 15 % 32,
      y.toNat / 2 ^ 10 % 32, y.toNat / 2 ^ 5 % 32, y.toNat % 32] := by
  have hand : ∀ n : Nat, n &&& 31 = n % 32 := fun n => Nat.and_two_pow_sub_one_eq_mod n 5
  simp [checksumValues, List.range_succ, UInt32.toNat_shiftRight, Nat.shiftRight_eq_div_pow, hand]

/-- The checksum's six values pack back into the word they were cut from. -/
theorem packValues_checksumValues {y : UInt32} (hy : y.toNat < 2 ^ 30) :
    packValues 0 (checksumValues y) = y := by
  have hvals := map_toNat_checksumValues y
  have hbits : ∀ v ∈ checksumValues y, v.toNat < 32 := by
    intro v hv
    have : v.toNat ∈ (checksumValues y).map UInt8.toNat := List.mem_map_of_mem hv
    rw [hvals] at this
    simp only [List.mem_cons, List.not_mem_nil, or_false] at this
    omega
  have hnum : Radix.horner 32 (0 : UInt32).toNat ((checksumValues y).map UInt8.toNat) = y.toNat := by
    rw [hvals]
    simp only [Radix.horner, List.foldl, UInt32.toNat_zero]
    omega
  apply UInt32.toNat_inj.mp
  rw [toNat_packValues _ _ hbits (by omega), hnum]

/-- And six values of five bits are the checksum values of the word they
pack into. -/
theorem checksumValues_packValues {c : List UInt8} (hlen : c.length = 6)
    (hc : ∀ v ∈ c, v.toNat < 32) : checksumValues (packValues 0 c) = c := by
  match c, hlen with
  | [v0, v1, v2, v3, v4, v5], _ =>
    have h0 := hc v0 (by simp)
    have h1 := hc v1 (by simp)
    have h2 := hc v2 (by simp)
    have h3 := hc v3 (by simp)
    have h4 := hc v4 (by simp)
    have h5 := hc v5 (by simp)
    have hpack := toNat_packValues _ 0 hc (by simp only [Radix.horner, List.map, List.foldl, UInt32.toNat_zero]; omega)
    apply List.map_injective_iff.mpr (fun a b h => UInt8.toNat_inj.mp h)
    rw [map_toNat_checksumValues, hpack]
    simp only [Radix.horner, List.map, List.foldl, UInt32.toNat_zero, List.cons.injEq, and_true]
    omega

end PolyMod

/-! ## The checksum -/

section Checksum

theorem polyMod_append (u w : List UInt8) : polyMod (u ++ w) = w.foldl polyModStep (polyMod u) :=
  List.foldl_append

/-- Six zeros end in a step that reads a zero, so the state is of 30 bits. -/
theorem toNat_polyMod_zeros_lt (u : List UInt8) : (polyMod (u ++ List.replicate 6 0)).toNat < 2 ^ 30 := by
  have hsplit : List.replicate 6 (0 : UInt8) = List.replicate 5 0 ++ [0] := rfl
  rw [hsplit, ← List.append_assoc, polyMod_append, List.foldl_cons, List.foldl_nil]
  exact toNat_polyModStep_zero_lt _

theorem length_checksumValues (mod : UInt32) : (checksumValues mod).length = 6 := rfl

theorem checksumValues_lt (mod : UInt32) : ∀ v ∈ checksumValues mod, v.toNat < 32 := by
  intro v hv
  obtain ⟨i, -, rfl⟩ := List.mem_map.mp hv
  have hand : ((mod >>> (5 * (5 - i)).toUInt32) &&& 31).toNat < 32 := by
    rw [UInt32.toNat_and]
    exact Nat.and_lt_two_pow (n := 5) _ (by decide)
  simp only [UInt32.toNat_toUInt8]
  omega

/-- The checksum of `u` for the constant `k` makes `PolyMod` give `k`. -/
theorem polyMod_checksum {u : List UInt8} {k : UInt32} (hk : k.toNat < 2 ^ 30) :
    polyMod (u ++ checksumValues (polyMod (u ++ List.replicate 6 0) ^^^ k)) = k := by
  set m := polyMod (u ++ List.replicate 6 0) with hm
  have hmk : (m ^^^ k).toNat < 2 ^ 30 := Bits.toNat_xor_lt (toNat_polyMod_zeros_lt u) hk
  -- the six values XOR their packed word, `m ^^^ k`, into what six zeros give, `m`
  have hinject := foldl_polyModStep_inject (checksumValues (m ^^^ k)) (polyMod u) 0
    (length_checksumValues _).le (checksumValues_lt _) (by simp)
  rw [UInt32.xor_zero, length_checksumValues, packValues_checksumValues hmk,
    ← polyMod_append u (List.replicate 6 0), ← hm] at hinject
  rw [polyMod_append, hinject, ← UInt32.xor_assoc, UInt32.xor_self, UInt32.zero_xor]

theorem encodingConstant_bech32 : encodingConstant .BECH32 = .ok 1 := rfl

theorem encodingConstant_bech32m : encodingConstant .BECH32M = .ok 0x2bc830a3 := rfl

/-- The checksum `CreateChecksum` appends verifies, as the encoding it was
made for. -/
theorem verifyChecksum_createChecksum {e : Encoding} (he : e = .BECH32 ∨ e = .BECH32M)
    (hrp : List Char) (values : List UInt8) :
    ∃ checksum, createChecksum e hrp values = .ok checksum ∧ (∀ v ∈ checksum, v.toNat < 32) ∧
      checksum.length = 6 ∧ verifyChecksum hrp (values ++ checksum) = .ok e := by
  have hassoc : expandHRP hrp ++ (values ++ List.replicate 6 0) =
      expandHRP hrp ++ values ++ List.replicate 6 0 := (List.append_assoc _ _ _).symm
  rcases he with rfl | rfl
  · refine ⟨_, by rw [createChecksum, encodingConstant_bech32]; rfl, checksumValues_lt _, rfl, ?_⟩
    rw [verifyChecksum, ← List.append_assoc, polyMod_checksum (by decide), encodingConstant_bech32]
    rfl
  · refine ⟨_, by rw [createChecksum, encodingConstant_bech32m]; rfl, checksumValues_lt _, rfl, ?_⟩
    rw [verifyChecksum, ← List.append_assoc, polyMod_checksum (by decide), encodingConstant_bech32,
      encodingConstant_bech32m]
    rfl

/-- A checksum that verifies is the one `CreateChecksum` makes: six values of
five bits XOR their packed word into what six zeros give, so `k` fixes the
word, and the word the values. -/
theorem checksum_unique {u c : List UInt8} {k : UInt32} (hlen : c.length = 6)
    (hc : ∀ v ∈ c, v.toNat < 32) (h : polyMod (u ++ c) = k) :
    c = checksumValues (polyMod (u ++ List.replicate 6 0) ^^^ k) := by
  have hinject := foldl_polyModStep_inject c (polyMod u) 0 hlen.le hc (by simp)
  rw [UInt32.xor_zero, hlen, ← polyMod_append u (List.replicate 6 0), ← polyMod_append u c] at hinject
  rw [hinject] at h
  rw [← h, ← UInt32.xor_assoc, UInt32.xor_self, UInt32.zero_xor, checksumValues_packValues hlen hc]

/-- A checksum that verifies as Bech32 or Bech32m makes `PolyMod` give that
encoding's constant. -/
theorem polyMod_of_verifyChecksum {hrp : List Char} {values : List UInt8} {e : Encoding}
    (h : verifyChecksum hrp values = .ok e) (he : e ≠ .INVALID) :
    ∃ k, encodingConstant e = .ok k ∧ polyMod (expandHRP hrp ++ values) = k := by
  simp only [verifyChecksum, encodingConstant_bech32, encodingConstant_bech32m, Fault.ok_bind] at h
  split_ifs at h with h1 h2
  · cases h
    exact ⟨1, rfl, h1⟩
  · cases h
    exact ⟨_, rfl, h2⟩
  · cases h
    exact absurd rfl he

theorem createChecksum_of_verifyChecksum {hrp : List Char} {data c : List UInt8} {e : Encoding}
    (hlen : c.length = 6) (hc : ∀ v ∈ c, v.toNat < 32)
    (h : verifyChecksum hrp (data ++ c) = .ok e) (he : e ≠ .INVALID) :
    createChecksum e hrp data = .ok c := by
  obtain ⟨k, hk, hmod⟩ := polyMod_of_verifyChecksum h he
  rw [← List.append_assoc] at hmod
  rw [createChecksum, hk, Fault.ok_bind, ← checksum_unique hlen hc hmod]

end Checksum

/-! ## Characters -/

section Chars

/-- The character of a five-bit value. -/
def charsetChar (v : Nat) : Char := CHARSET.getD v 'q'

/-- A character of a human-readable part: printable ASCII, and not an upper
case letter. -/
def HrpChar (c : Char) : Prop :=
  33 ≤ c.toNat ∧ c.toNat ≤ 126 ∧ ¬('A'.toNat ≤ c.toNat ∧ c.toNat ≤ 'Z'.toNat)

instance : DecidablePred HrpChar := fun c =>
  inferInstanceAs (Decidable (33 ≤ c.toNat ∧ c.toNat ≤ 126 ∧ ¬('A'.toNat ≤ c.toNat ∧ c.toNat ≤ 'Z'.toNat)))

theorem charsetRev_charsetChar : ∀ v < 32, CHARSET_REV[(charsetChar v).toNat]? = some (v : Int) := by
  decide

theorem charsetRev_toUpperChar : ∀ v < 32,
    CHARSET_REV[(toUpperChar (charsetChar v)).toNat]? = some (v : Int) := by
  decide

/-- The character of a value is printable, not an upper case letter, and not
the separator. -/
theorem charsetChar_lower : ∀ v < 32,
    (33 ≤ (charsetChar v).toNat ∧ (charsetChar v).toNat ≤ 126) ∧
    ¬('A'.toNat ≤ (charsetChar v).toNat ∧ (charsetChar v).toNat ≤ 'Z'.toNat) ∧
    charsetChar v ≠ '1' := by
  decide

/-- Its upper case form is printable, not a lower case letter, and not the
separator. -/
theorem toUpperChar_charsetChar_upper : ∀ v < 32,
    (33 ≤ (toUpperChar (charsetChar v)).toNat ∧ (toUpperChar (charsetChar v)).toNat ≤ 126) ∧
    ¬('a'.toNat ≤ (toUpperChar (charsetChar v)).toNat ∧
      (toUpperChar (charsetChar v)).toNat ≤ 'z'.toNat) ∧
    toUpperChar (charsetChar v) ≠ '1' := by
  decide

/-- The characters of a human-readable part: `LowerCase` keeps them, and
`ToUpper` keeps them printable, takes them out of the lower case, and
`LowerCase` brings them back. -/
theorem hrpChar_ofNat : ∀ n < 127, HrpChar (Char.ofNat n) →
    lowerCase (Char.ofNat n) = Char.ofNat n ∧
    (33 ≤ (toUpperChar (Char.ofNat n)).toNat ∧ (toUpperChar (Char.ofNat n)).toNat ≤ 126) ∧
    ¬('a'.toNat ≤ (toUpperChar (Char.ofNat n)).toNat ∧
      (toUpperChar (Char.ofNat n)).toNat ≤ 'z'.toNat) ∧
    lowerCase (toUpperChar (Char.ofNat n)) = Char.ofNat n := by
  decide

theorem HrpChar.ofNat_toNat {c : Char} (hc : HrpChar c) :
    lowerCase c = c ∧
    (33 ≤ (toUpperChar c).toNat ∧ (toUpperChar c).toNat ≤ 126) ∧
    ¬('a'.toNat ≤ (toUpperChar c).toNat ∧ (toUpperChar c).toNat ≤ 'z'.toNat) ∧
    lowerCase (toUpperChar c) = c := by
  -- check it at `Char.ofNat c.toNat`, which is `c`
  have hlt : c.toNat < 127 := by
    have := hc.2.1
    omega
  have h := hrpChar_ofNat c.toNat hlt (by rwa [Char.ofNat_toNat])
  rwa [Char.ofNat_toNat] at h

theorem HrpChar.lowerCase_eq {c : Char} (hc : HrpChar c) : lowerCase c = c := hc.ofNat_toNat.1

theorem HrpChar.toUpperChar_upper {c : Char} (hc : HrpChar c) :
    (33 ≤ (toUpperChar c).toNat ∧ (toUpperChar c).toNat ≤ 126) ∧
    ¬('a'.toNat ≤ (toUpperChar c).toNat ∧ (toUpperChar c).toNat ≤ 'z'.toNat) :=
  ⟨hc.ofNat_toNat.2.1, hc.ofNat_toNat.2.2.1⟩

theorem HrpChar.lowerCase_toUpperChar {c : Char} (hc : HrpChar c) : lowerCase (toUpperChar c) = c :=
  hc.ofNat_toNat.2.2.2

end Chars

/-! ## Encoding and decoding -/

section Codec

/-- On printable characters the first loop of `Decode` reports whether there
is a lower case and an upper case letter. -/
theorem caseScan_printable : ∀ {str : List Char}, (∀ c ∈ str, 33 ≤ c.toNat ∧ c.toNat ≤ 126) →
    caseScan str = some (str.any fun c => 'a'.toNat ≤ c.toNat ∧ c.toNat ≤ 'z'.toNat,
      str.any fun c => 'A'.toNat ≤ c.toNat ∧ c.toNat ≤ 'Z'.toNat)
  | [], _ => rfl
  | c :: str, h => by
    have hc := h c List.mem_cons_self
    have ih := caseScan_printable (fun x hx => h x (List.mem_cons_of_mem c hx))
    have ha : 'a'.toNat = 97 := rfl
    have hZ : 'Z'.toNat = 90 := rfl
    rw [caseScan]
    by_cases hl : 'a'.toNat ≤ c.toNat ∧ c.toNat ≤ 'z'.toNat
    · have hu : ¬('A'.toNat ≤ c.toNat ∧ c.toNat ≤ 'Z'.toNat) := by omega
      rw [if_pos hl, ih]
      simp only [Option.map_some, List.any_cons, decide_eq_true hl, decide_eq_false hu,
        Bool.true_or, Bool.false_or]
    · rw [if_neg hl]
      by_cases hu : 'A'.toNat ≤ c.toNat ∧ c.toNat ≤ 'Z'.toNat
      · rw [if_pos hu, ih]
        simp only [Option.map_some, List.any_cons, decide_eq_false hl, decide_eq_true hu,
          Bool.true_or, Bool.false_or]
      · rw [if_neg hu, if_neg (by omega), ih]
        simp only [List.any_cons, decide_eq_false hl, decide_eq_false hu, Bool.false_or]

theorem rfind_eq_none {ch : Char} : ∀ {t : List Char}, ch ∉ t → rfind ch t = none
  | [], _ => rfl
  | c :: t, h => by
    have hc : c ≠ ch := fun hc => h (hc ▸ List.mem_cons_self)
    rw [rfind, rfind_eq_none (fun hm => h (List.mem_cons_of_mem c hm))]
    exact if_neg hc

/-- The last `ch` of a string is the one no other follows. -/
theorem rfind_append_cons {ch : Char} {t : List Char} (ht : ch ∉ t) :
    ∀ s : List Char, rfind ch (s ++ ch :: t) = some s.length
  | [] => by
    rw [List.nil_append, rfind, rfind_eq_none ht]
    exact if_pos rfl
  | c :: s => by
    rw [List.cons_append, rfind, rfind_append_cons ht s]
    rfl

/-- The values loop reads back the characters of values, through any
character map that `CHARSET_REV` inverts. -/
theorem decodeValues_map {f : Nat → Char}
    (hf : ∀ v < 32, CHARSET_REV[(f v).toNat]? = some (v : Int)) :
    ∀ vs : List UInt8, (∀ v ∈ vs, v.toNat < 32) →
      decodeValues (vs.map fun v => f v.toNat) = .ok (some vs)
  | [], _ => rfl
  | v :: vs, hvs => by
    have hv := hvs v List.mem_cons_self
    have hne : ¬((v.toNat : Int) = -1) := by omega
    rw [List.map_cons, decodeValues, Fault.index_of_getElem? (hf _ hv), Fault.ok_bind, if_neg hne,
      decodeValues_map hf vs (fun x hx => hvs x (List.mem_cons_of_mem v hx)), Fault.ok_bind]
    simp

theorem mapM_index_charset : ∀ vs : List UInt8, (∀ v ∈ vs, v.toNat < 32) →
    vs.mapM (fun c => Fault.index CHARSET c.toNat) = .ok (vs.map fun v => charsetChar v.toNat)
  | [], _ => rfl
  | v :: vs, hvs => by
    have hv : v.toNat < CHARSET.length := hvs v List.mem_cons_self
    have hchar : Fault.index CHARSET v.toNat = .ok (charsetChar v.toNat) := by
      rw [Fault.index_of_lt hv, charsetChar, List.getD_eq_getElem _ _ hv]
    rw [List.mapM_cons, hchar, Fault.ok_bind,
      mapM_index_charset vs (fun x hx => hvs x (List.mem_cons_of_mem v hx))]
    rfl

/-- What `Encode` writes: the human-readable part, the separator, and the
characters of the values and of a checksum that verifies. -/
theorem encode_eq {e : Encoding} (he : e = .BECH32 ∨ e = .BECH32M) {hrp : List Char}
    (hhrp : ∀ c ∈ hrp, HrpChar c) {values : List UInt8} (hvalues : ∀ v ∈ values, v.toNat < 32) :
    ∃ checksum, (∀ v ∈ checksum, v.toNat < 32) ∧ checksum.length = 6 ∧
      verifyChecksum hrp (values ++ checksum) = .ok e ∧
      encode e hrp values = .ok (hrp ++ '1' :: (values ++ checksum).map fun v => charsetChar v.toNat) := by
  obtain ⟨checksum, hcreate, hlt, hlen, hverify⟩ := verifyChecksum_createChecksum he hrp values
  have hall : (hrp.all fun c => c.toNat < 'A'.toNat || c.toNat > 'Z'.toNat) = true := by
    rw [List.all_eq_true]
    intro c hc
    have := (hhrp c hc).2.2
    simp only [Bool.or_eq_true, decide_eq_true_eq]
    omega
  have hmap := mapM_index_charset (values ++ checksum) (by
    intro v hv
    rcases List.mem_append.mp hv with h | h
    exacts [hvalues v h, hlt v h])
  refine ⟨checksum, hlt, hlen, hverify, ?_⟩
  rw [encode, hall, Fault.check_true, Fault.ok_bind, hcreate, Fault.ok_bind, hmap, Fault.ok_bind]

/-- `Decode` on a human-readable part, the separator and the characters of
values: a string in one case with no other `'1'` after the separator. -/
theorem decode_of_parts {hrp' data hrp : List Char} {values : List UInt8} {e : Encoding}
    (hprint : ∀ c ∈ hrp' ++ '1' :: data, 33 ≤ c.toNat ∧ c.toNat ≤ 126)
    (hcase : (∀ c ∈ hrp' ++ '1' :: data, ¬('a'.toNat ≤ c.toNat ∧ c.toNat ≤ 'z'.toNat)) ∨
      (∀ c ∈ hrp' ++ '1' :: data, ¬('A'.toNat ≤ c.toNat ∧ c.toNat ≤ 'Z'.toNat)))
    (hone : '1' ∉ data) (hhrp : hrp' ≠ []) (hlen : hrp'.length + 1 + data.length ≤ 90)
    (hdata : 6 ≤ data.length) (hvalues : decodeValues data = .ok (some values))
    (hlower : hrp'.map lowerCase = hrp) (hverify : verifyChecksum hrp values = .ok e)
    (he : e ≠ .INVALID) :
    decode (hrp' ++ '1' :: data) = .ok ⟨e, hrp, values.take (values.length - 6)⟩ := by
  have hnotboth : ¬(((hrp' ++ '1' :: data).any fun c => 'a'.toNat ≤ c.toNat ∧ c.toNat ≤ 'z'.toNat) &&
      ((hrp' ++ '1' :: data).any fun c => 'A'.toNat ≤ c.toNat ∧ c.toNat ≤ 'Z'.toNat)) = true := by
    simp only [Bool.and_eq_true, List.any_eq_true, decide_eq_true_eq]
    rintro ⟨⟨c, hc, hcl⟩, ⟨d, hd, hdu⟩⟩
    rcases hcase with h | h
    exacts [h c hc hcl, h d hd hdu]
  have hpos : hrp'.length ≠ 0 := fun h => hhrp (List.length_eq_zero_iff.mp h)
  have hchecks : ¬((hrp' ++ '1' :: data).length > 90 || hrp'.length == 0 ||
      hrp'.length + 7 > (hrp' ++ '1' :: data).length) = true := by
    simp only [List.length_append, List.length_cons, Bool.or_eq_true, decide_eq_true_eq,
      beq_iff_eq]
    omega
  have hdrop : (hrp' ++ '1' :: data).drop (hrp'.length + 1) = data := by
    rw [List.drop_length_add_append, List.drop_one, List.tail_cons]
  have htake : (hrp' ++ '1' :: data).take hrp'.length = hrp' := List.take_left' rfl
  rw [decode, caseScan_printable hprint]
  dsimp only
  rw [if_neg hnotboth, rfind_append_cons hone]
  dsimp only
  rw [if_neg hchecks, hdrop, hvalues, Fault.ok_bind]
  dsimp only
  rw [htake, hlower, hverify, Fault.ok_bind, if_neg he]

theorem forall_mem_parts {P : Char → Prop} {a b : List Char} (ha : ∀ c ∈ a, P c) (h1 : P '1')
    (hb : ∀ c ∈ b, P c) : ∀ c ∈ a ++ '1' :: b, P c := by
  intro c hc
  rcases List.mem_append.mp hc with h | h
  · exact ha c h
  · rcases List.mem_cons.mp h with rfl | h
    exacts [h1, hb c h]

theorem forall_mem_map_value {P : Char → Prop} {f : Nat → Char} (hf : ∀ v < 32, P (f v))
    {vs : List UInt8} (hvs : ∀ v ∈ vs, v.toNat < 32) : ∀ c ∈ vs.map fun v => f v.toNat, P c := by
  intro c hc
  obtain ⟨v, hv, rfl⟩ := List.mem_map.mp hc
  exact hf _ (hvs v hv)

/-- Decoding what `Encode` writes gives back the encoding, the human-readable
part and the values.  The string is printable, and six characters of
checksum longer than its parts. -/
theorem decode_encode {e : Encoding} (he : e = .BECH32 ∨ e = .BECH32M) {hrp : List Char}
    {values : List UInt8} (hhrp : hrp ≠ []) (hchars : ∀ c ∈ hrp, HrpChar c)
    (hvalues : ∀ v ∈ values, v.toNat < 32) (hlen : hrp.length + 1 + values.length + 6 ≤ 90) :
    ∃ str, encode e hrp values = .ok str ∧ decode str = .ok ⟨e, hrp, values⟩ ∧
      str.length = hrp.length + 1 + values.length + 6 ∧ ∀ c ∈ str, 33 ≤ c.toNat ∧ c.toNat ≤ 126 := by
  obtain ⟨checksum, hlt, hclen, hverify, hencode⟩ := encode_eq he hchars hvalues
  have hall : ∀ v ∈ values ++ checksum, v.toNat < 32 := by
    intro v hv
    rcases List.mem_append.mp hv with h | h
    exacts [hvalues v h, hlt v h]
  have hresult : (values ++ checksum).take ((values ++ checksum).length - 6) = values := by
    rw [List.length_append, hclen, Nat.add_sub_cancel, List.take_left' rfl]
  have hinvalid : e ≠ .INVALID := by
    rcases he with rfl | rfl <;> decide
  have hdlen : ((values ++ checksum).map fun v => charsetChar v.toNat).length =
      values.length + 6 := by
    rw [List.length_map, List.length_append, hclen]
  -- the string as written: printable, and lower case letters only
  have hprint : ∀ c ∈ hrp ++ '1' :: (values ++ checksum).map fun v => charsetChar v.toNat,
      33 ≤ c.toNat ∧ c.toNat ≤ 126 :=
    forall_mem_parts (fun c hc => ⟨(hchars c hc).1, (hchars c hc).2.1⟩) (by decide)
      (forall_mem_map_value (fun v hv => (charsetChar_lower v hv).1) hall)
  have hdecode := decode_of_parts hprint
    (.inr (forall_mem_parts (fun c hc => (hchars c hc).2.2) (by decide)
      (forall_mem_map_value (fun v hv => (charsetChar_lower v hv).2.1) hall)))
    (fun hone => absurd rfl (forall_mem_map_value (P := (· ≠ '1'))
      (fun v hv => (charsetChar_lower v hv).2.2) hall '1' hone))
    hhrp (by omega) (by omega)
    (decodeValues_map charsetRev_charsetChar _ hall)
    ((List.map_congr_left fun c hc => (hchars c hc).lowerCase_eq).trans (List.map_id hrp))
    hverify hinvalid
  rw [hresult] at hdecode
  refine ⟨_, hencode, hdecode, ?_, hprint⟩
  rw [List.length_append, List.length_cons, hdlen]
  omega

/-- Bech32 and Bech32m round-trip: decoding what `Encode` writes, in lower
or in upper case, gives back the encoding, the human-readable part and the
values. -/
theorem bech32_roundtrip (e : Encoding) (he : e = .BECH32 ∨ e = .BECH32M) (hrp : List Char)
    (values : List UInt8) (hhrp : hrp ≠ []) (hchars : ∀ c ∈ hrp, HrpChar c)
    (hvalues : ∀ v ∈ values, v.toNat < 32) (hlen : hrp.length + 1 + values.length + 6 ≤ 90) :
    ∃ str, encode e hrp values = .ok str ∧ decode str = .ok ⟨e, hrp, values⟩ ∧
      decode (toUpper str) = .ok ⟨e, hrp, values⟩ := by
  obtain ⟨checksum, hlt, hclen, hverify, hencode⟩ := encode_eq he hchars hvalues
  have hall : ∀ v ∈ values ++ checksum, v.toNat < 32 := by
    intro v hv
    rcases List.mem_append.mp hv with h | h
    exacts [hvalues v h, hlt v h]
  have hresult : (values ++ checksum).take ((values ++ checksum).length - 6) = values := by
    rw [List.length_append, hclen, Nat.add_sub_cancel, List.take_left' rfl]
  have hinvalid : e ≠ .INVALID := by
    rcases he with rfl | rfl <;> decide
  have hdlen : ((values ++ checksum).map fun v => charsetChar v.toNat).length =
      values.length + 6 := by
    rw [List.length_map, List.length_append, hclen]
  refine ⟨_, hencode, ?_, ?_⟩
  · -- the string as written
    obtain ⟨str, hencode', hdecode, -⟩ := decode_encode he hhrp hchars hvalues hlen
    rw [hencode] at hencode'
    rwa [Except.ok.inj hencode']
  · -- the upper case form: `ToUpper` moves every letter to upper case
    have hupper : toUpper (hrp ++ '1' :: (values ++ checksum).map fun v => charsetChar v.toNat) =
        hrp.map toUpperChar ++
          '1' :: (values ++ checksum).map fun v => toUpperChar (charsetChar v.toNat) := by
      simp only [toUpper, List.map_append, List.map_cons, List.map_map]
      rfl
    have hhrp' : ∀ c ∈ hrp.map toUpperChar,
        (33 ≤ c.toNat ∧ c.toNat ≤ 126) ∧ ¬('a'.toNat ≤ c.toNat ∧ c.toNat ≤ 'z'.toNat) := by
      intro c hc
      obtain ⟨d, hd, rfl⟩ := List.mem_map.mp hc
      exact (hchars d hd).toUpperChar_upper
    have hdecode := decode_of_parts
      (forall_mem_parts (fun c hc => (hhrp' c hc).1) (by decide)
        (forall_mem_map_value (fun v hv => (toUpperChar_charsetChar_upper v hv).1) hall))
      (.inl (forall_mem_parts (fun c hc => (hhrp' c hc).2) (by decide)
        (forall_mem_map_value (fun v hv => (toUpperChar_charsetChar_upper v hv).2.1) hall)))
      (fun hone => absurd rfl (forall_mem_map_value (P := (· ≠ '1'))
        (fun v hv => (toUpperChar_charsetChar_upper v hv).2.2) hall '1' hone))
      (by simpa using hhrp) (by simp only [List.length_map] at hdlen ⊢; omega)
      (by simp only [List.length_map] at hdlen ⊢; omega)
      (decodeValues_map charsetRev_toUpperChar _ hall)
      (by
        rw [List.map_map]
        exact (List.map_congr_left fun c hc => (hchars c hc).lowerCase_toUpperChar).trans
          (List.map_id hrp))
      hverify hinvalid
    rw [hupper]
    rwa [hresult] at hdecode

theorem bech32_roundtrip_vry :
    ∃ str, encode .BECH32 ['v', 'r', 'y'] [0] = .ok str ∧
      decode str = .ok ⟨.BECH32, ['v', 'r', 'y'], [0]⟩ ∧
      decode (toUpper str) = .ok ⟨.BECH32, ['v', 'r', 'y'], [0]⟩ :=
  bech32_roundtrip .BECH32 (.inl rfl) ['v', 'r', 'y'] [0] (by decide)
    (by
      intro c hc
      rcases List.mem_cons.mp hc with rfl | hc
      · decide
      rcases List.mem_cons.mp hc with rfl | hc
      · decide
      rcases List.mem_singleton.mp hc with rfl
      decide)
    (by simp) (by decide)

end Codec

/-! ## Decoding is canonical -/

section Canonical

/-- An ASCII character that `CHARSET_REV` reads as a value: the value is of
five bits, and its character is the one read, in lower case. -/
theorem charsetRev_valid : ∀ n < 128, CHARSET_REV.getD n (-1) ≠ -1 →
    (0 ≤ CHARSET_REV.getD n (-1) ∧ CHARSET_REV.getD n (-1) < 32) ∧
    charsetChar (CHARSET_REV.getD n (-1)).toNat = lowerCase (Char.ofNat n) := by
  decide

/-- `LowerCase` leaves no upper case letter. -/
theorem lowerCase_not_upper (c : Char) :
    ¬('A'.toNat ≤ (lowerCase c).toNat ∧ (lowerCase c).toNat ≤ 'Z'.toNat) := by
  have hletters : ∀ n < 91, 65 ≤ n → (Char.ofNat (n - 65 + 97)).toNat = n + 32 := by decide
  have hA : 'A'.toNat = 65 := rfl
  have ha : 'a'.toNat = 97 := rfl
  have hZ : 'Z'.toNat = 90 := rfl
  rw [lowerCase]
  split_ifs with h
  · rw [hA, ha, hletters c.toNat (by omega) (by omega)]
    omega
  · exact h

/-- What the values loop reads: values of five bits whose characters are the
characters read, in lower case. -/
theorem decodeValues_eq_some : ∀ {cs : List Char} {vs : List UInt8},
    decodeValues cs = .ok (some vs) →
    (∀ v ∈ vs, v.toNat < 32) ∧ vs.map (fun v => charsetChar v.toNat) = cs.map lowerCase
  | [], vs, h => by
    obtain rfl : vs = [] := (Option.some.inj (Except.ok.inj h)).symm
    simp
  | c :: cs, vs, h => by
    rw [decodeValues] at h
    obtain ⟨rev, hrev, h⟩ := Fault.bind_eq_ok.mp h
    -- the character is ASCII, and `rev` is its entry of the table
    have hidx : CHARSET_REV[c.toNat]? = some rev := by
      unfold Fault.index at hrev
      split at hrev
      · rename_i a ha
        rw [ha, Except.ok.inj hrev]
      · cases hrev
    obtain ⟨hlt, hget⟩ := List.getElem?_eq_some_iff.mp hidx
    have hgetD : CHARSET_REV.getD c.toNat (-1) = rev := by
      rw [List.getD_eq_getElem _ _ hlt, hget]
    split_ifs at h with hinv
    · cases h
    obtain ⟨rest, hrest, h⟩ := Fault.bind_eq_ok.mp h
    cases rest with
    | none => cases h
    | some vs' =>
      obtain rfl : vs = rev.toNat.toUInt8 :: vs' := (Option.some.inj (Except.ok.inj h)).symm
      obtain ⟨hvs', hmap⟩ := decodeValues_eq_some hrest
      obtain ⟨⟨h0, h32⟩, hchar⟩ := charsetRev_valid c.toNat hlt (by rwa [hgetD])
      rw [hgetD] at h0 h32 hchar
      rw [Char.ofNat_toNat] at hchar
      have hval : (rev.toNat.toUInt8).toNat = rev.toNat := by
        simp only [Nat.toUInt8_eq, UInt8.toNat_ofNat']
        omega
      refine ⟨?_, ?_⟩
      · intro v hv
        rcases List.mem_cons.mp hv with rfl | hv
        · rw [hval]
          omega
        · exact hvs' v hv
      · rw [List.map_cons, List.map_cons, hval, hchar, hmap]

/-- `rfind` finds the character where it says. -/
theorem rfind_eq_some {ch : Char} : ∀ {t : List Char} {pos : Nat}, rfind ch t = some pos →
    t[pos]? = some ch
  | [], _, h => by cases h
  | c :: t, pos, h => by
    rw [rfind] at h
    split at h
    · rename_i p hp
      obtain rfl := (Option.some.inj h).symm
      have ht := rfind_eq_some hp
      simpa using ht
    · split_ifs at h with hc
      obtain rfl := (Option.some.inj h).symm
      rw [hc]
      rfl

/-- The one branch in which `Decode` accepts: the last separator at `pos`,
at least six values after it, and a checksum that verifies. -/
theorem decode_eq_ok {str : List Char} {r : DecodeResult} (h : decode str = .ok r)
    (he : r.encoding ≠ .INVALID) :
    ∃ pos values, rfind '1' str = some pos ∧ pos + 7 ≤ str.length ∧
      decodeValues (str.drop (pos + 1)) = .ok (some values) ∧
      verifyChecksum r.hrp values = .ok r.encoding ∧
      r.hrp = (str.take pos).map lowerCase ∧ r.data = values.take (values.length - 6) := by
  -- every other branch returns `DecodeResult()`, whose encoding is `INVALID`
  have hinvalid : (Except.ok DecodeResult.invalid : Faulty DecodeResult) ≠ .ok r := by
    intro hr
    cases hr
    exact he rfl
  unfold decode at h
  split at h
  · exact absurd h hinvalid
  split_ifs at h with hboth
  · exact absurd h hinvalid
  split at h
  · exact absurd h hinvalid
  rename_i pos hpos
  split_ifs at h with hchecks
  · exact absurd h hinvalid
  obtain ⟨res, hres, h⟩ := Fault.bind_eq_ok.mp h
  cases res with
  | none => exact absurd h hinvalid
  | some values =>
    obtain ⟨result, hresult, h⟩ := Fault.bind_eq_ok.mp h
    split_ifs at h with hinv
    · exact absurd h hinvalid
    cases h
    refine ⟨pos, values, hpos, ?_, hres, hresult, rfl, rfl⟩
    simp only [Bool.or_eq_true, decide_eq_true_eq, beq_iff_eq, not_or] at hchecks
    omega

/-- Decoding is canonical: a string `Decode` accepts is what `Encode` writes,
in lower case, for what it decodes to, and the values are of five bits. -/
theorem encode_decode {str : List Char} {r : DecodeResult} (h : decode str = .ok r)
    (he : r.encoding ≠ .INVALID) :
    (∀ v ∈ r.data, v.toNat < 32) ∧ encode r.encoding r.hrp r.data = .ok (str.map lowerCase) := by
  obtain ⟨pos, values, hpos, hlen, hvalues, hverify, hhrp, hdata⟩ := decode_eq_ok h he
  obtain ⟨hlt, hchars⟩ := decodeValues_eq_some hvalues
  have hvlen : values.length = str.length - (pos + 1) := by
    simpa using congrArg List.length hchars
  -- the values: the data, then six of checksum
  have hsplit : values = r.data ++ values.drop (values.length - 6) := by
    rw [hdata, List.take_append_drop]
  have hcreate := createChecksum_of_verifyChecksum (c := values.drop (values.length - 6))
    (by simp only [List.length_drop]; omega)
    (fun v hv => hlt v (List.mem_of_mem_drop hv)) (by rw [← hsplit]; exact hverify) he
  -- the human-readable part is in lower case, and the string splits at the separator
  have hall : (r.hrp.all fun c => c.toNat < 'A'.toNat || c.toNat > 'Z'.toNat) = true := by
    rw [hhrp, List.all_eq_true]
    intro c hc
    obtain ⟨d, -, rfl⟩ := List.mem_map.mp hc
    have := lowerCase_not_upper d
    simp only [Bool.or_eq_true, decide_eq_true_eq]
    omega
  have hstr : str = str.take pos ++ '1' :: str.drop (pos + 1) := by
    obtain ⟨hlt', hget⟩ := List.getElem?_eq_some_iff.mp (rfind_eq_some hpos)
    rw [← hget, ← List.drop_eq_getElem_cons hlt', List.take_append_drop]
  refine ⟨fun v hv => hlt v (List.mem_of_mem_take (hdata ▸ hv)), ?_⟩
  rw [encode, hall, Fault.check_true, Fault.ok_bind, hcreate, Fault.ok_bind, ← hsplit,
    mapM_index_charset values hlt, Fault.ok_bind, hchars, hhrp]
  conv_rhs => rw [hstr]
  rw [List.map_append, List.map_cons]
  rfl

end Canonical

end Veribase.Bech32
