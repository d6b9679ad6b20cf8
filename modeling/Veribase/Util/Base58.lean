import Veribase.Util.MoneyStr
import Veribase.Lib.Radix
import Veribase.Primitives.Uint256

/-!
# Base58

`EncodeBase58` writes each leading zero byte as a `'1'` and the rest of the
bytes, read as one big-endian number, in base 58 over the alphabet
`pszBase58`.  `DecodeBase58` undoes it: it skips white space around the
string, counts the leading `'1'`s and reads the remaining characters back
into base 256 through the table `mapBase58`.  Both conversions keep the
number in a big-endian buffer whose size is estimated in advance
(`len * 138 / 100 + 1` digits of base 58, `len * 733 / 1000 + 1` bytes), and
both multiply it by the other base and add one digit with the same inner
loop, `Radix.carryLoop`, walking the buffer from its end and stopping once
the carry is spent and the `length` digits in use are passed; an
`assert(carry == 0)` follows it.  Strings are lists of characters, the
`char`s of the C string; a character beyond the table reads as invalid.

The proofs keep the buffer in one shape, `bufferOf`: zeros, then the digits
of the number held.  `mulAdd_bufferOf` is one iteration of either conversion
on that shape, whenever the result fits; the size estimates make every
result fit (`pow_le_pow_div_add_one` with `256 ^ 100 ≤ 58 ^ 138` and
`58 ^ 1000 ≤ 256 ^ 733`), so that neither conversion ever faults
(`encodeBase58_eq`, `decodeBase58_ok`).  `encodeBase58_eq` says what the
encoder writes, and the two round trips follow from it:
`decodeBase58_encodeBase58` and `encodeBase58_decodeBase58`.
-/

namespace Veribase

open Radix ByteStream

/-! ## The alphabet and its table -/

/-- `pszBase58`: all alphanumeric characters except `0`, `I`, `O` and `l`. -/
def pszBase58 : List Char :=
  ['1', '2', '3', '4', '5', '6', '7', '8', '9', 'A', 'B', 'C', 'D', 'E', 'F', 'G', 'H',
   'J', 'K', 'L', 'M', 'N', 'P', 'Q', 'R', 'S', 'T', 'U', 'V', 'W', 'X', 'Y', 'Z',
   'a', 'b', 'c', 'd', 'e', 'f', 'g', 'h', 'i', 'j', 'k', 'm', 'n', 'o', 'p', 'q', 'r',
   's', 't', 'u', 'v', 'w', 'x', 'y', 'z']

/-- `mapBase58`: the digit of each byte, `-1` for a byte not in the alphabet. -/
def mapBase58 : List Int :=
  [-1,-1,-1,-1,-1,-1,-1,-1, -1,-1,-1,-1,-1,-1,-1,-1,
   -1,-1,-1,-1,-1,-1,-1,-1, -1,-1,-1,-1,-1,-1,-1,-1,
   -1,-1,-1,-1,-1,-1,-1,-1, -1,-1,-1,-1,-1,-1,-1,-1,
   -1, 0, 1, 2, 3, 4, 5, 6,  7, 8,-1,-1,-1,-1,-1,-1,
   -1, 9,10,11,12,13,14,15, 16,-1,17,18,19,20,21,-1,
   22,23,24,25,26,27,28,29, 30,31,32,-1,-1,-1,-1,-1,
   -1,33,34,35,36,37,38,39, 40,41,42,43,-1,44,45,46,
   47,48,49,50,51,52,53,54, 55,56,57,-1,-1,-1,-1,-1,
   -1,-1,-1,-1,-1,-1,-1,-1, -1,-1,-1,-1,-1,-1,-1,-1,
   -1,-1,-1,-1,-1,-1,-1,-1, -1,-1,-1,-1,-1,-1,-1,-1,
   -1,-1,-1,-1,-1,-1,-1,-1, -1,-1,-1,-1,-1,-1,-1,-1,
   -1,-1,-1,-1,-1,-1,-1,-1, -1,-1,-1,-1,-1,-1,-1,-1,
   -1,-1,-1,-1,-1,-1,-1,-1, -1,-1,-1,-1,-1,-1,-1,-1,
   -1,-1,-1,-1,-1,-1,-1,-1, -1,-1,-1,-1,-1,-1,-1,-1,
   -1,-1,-1,-1,-1,-1,-1,-1, -1,-1,-1,-1,-1,-1,-1,-1,
   -1,-1,-1,-1,-1,-1,-1,-1, -1,-1,-1,-1,-1,-1,-1,-1]

/-- `mapBase58[(uint8_t)c]`. -/
def mapBase58At (c : Char) : Int := mapBase58.getD c.toNat (-1)

/-! ## The two conversions -/

/-- The inner loop of both conversions, `b = b * mul + carry` in base `base`
on the big-endian buffer `b`, walked from its end by the reverse iterator;
then `assert(carry == 0)` and `length = i`. -/
def mulAdd (mul base : Nat) (b : List Nat) (length carry : Nat) : Faulty (List Nat × Nat) :=
  let r := carryLoop mul base length carry 0 b.reverse
  Fault.check (r.2.1 == 0) >>= fun _ => .ok (r.1.reverse, r.2.2)

/-- The byte loop of `EncodeBase58`: `b58 = b58 * 256 + ch` for each byte. -/
def encodeLoop : List Nat → Nat → List UInt8 → Faulty (List Nat × Nat)
  | b58, length, [] => .ok (b58, length)
  | b58, length, ch :: pbegin =>
    mulAdd 256 58 b58 length ch.toNat >>= fun r => encodeLoop r.1 r.2 pbegin

/-- `EncodeBase58(pbegin, pend)`, also `EncodeBase58(vch)`. -/
def encodeBase58 (input : List UInt8) : Faulty (List Char) :=
  -- Skip & count leading zeroes.
  let zeroes := (input.takeWhile (· == 0)).length
  let pbegin := input.dropWhile (· == 0)
  -- Allocate enough space in big-endian base58 representation.
  let size := pbegin.length * 138 / 100 + 1
  encodeLoop (List.replicate size 0) 0 pbegin >>= fun r =>
  -- Skip leading zeroes in base58 result.
  let it := (r.1.drop (size - r.2)).dropWhile (· == 0)
  -- Translate the result into a string.
  it.mapM (Fault.index pszBase58) >>= fun str =>
  .ok (List.replicate zeroes '1' ++ str)

/-- The loop of `DecodeBase58` that skips and counts the leading `'1'`s; it
fails once the count passes `max_ret_len`. -/
def countOnes (max_ret_len : Int) : Nat → List Char → Option (Nat × List Char)
  | zeroes, [] => some (zeroes, [])
  | zeroes, c :: psz =>
    if c = '1' then
      if (zeroes + 1 : Int) > max_ret_len then none else countOnes max_ret_len (zeroes + 1) psz
    else some (zeroes, c :: psz)

/-- The character loop of `DecodeBase58`, up to the end of the string or a
space: `b256 = b256 * 58 + digit` for each character.  An invalid character,
or a result of more than `max_ret_len` bytes with the zeroes, fails.  It
returns the buffer, its length in use and the characters from the space on. -/
def decodeLoop (max_ret_len : Int) (zeroes : Nat) :
    List Nat → Nat → List Char → Faulty (Option (List Nat × Nat × List Char))
  | b256, length, [] => .ok (some (b256, length, []))
  | b256, length, c :: psz =>
    if isSpace c then .ok (some (b256, length, c :: psz))
    else
      -- Decode base58 character
      let carry := mapBase58At c
      if carry = -1 then .ok none
      else
        mulAdd 58 256 b256 length carry.toNat >>= fun r =>
        if (r.2 + zeroes : Int) > max_ret_len then .ok none
        else decodeLoop max_ret_len zeroes r.1 r.2 psz

/-- `DecodeBase58(psz, vch, max_ret_len)` on the characters of a C string;
`none` is a `false` return. -/
def decodeBase58Psz (psz : List Char) (max_ret_len : Int) : Faulty (Option (List UInt8)) :=
  -- Skip leading spaces, then skip and count leading '1's.
  match countOnes max_ret_len 0 (psz.dropWhile isSpace) with
  | none => .ok none
  | some (zeroes, psz) =>
    -- Allocate enough space in big-endian base256 representation.
    let size := psz.length * 733 / 1000 + 1
    decodeLoop max_ret_len zeroes (List.replicate size 0) 0 psz >>= fun
    | none => .ok none
    | some (b256, length, psz) =>
      -- Skip trailing spaces.
      if psz.dropWhile isSpace ≠ [] then .ok none
      -- Skip leading zeroes in b256.
      else .ok (some (List.replicate zeroes 0 ++ (b256.drop (size - length)).map Nat.toUInt8))

/-- `DecodeBase58(str, vchRet, max_ret_len)`. -/
def decodeBase58 (str : List Char) (max_ret_len : Int) : Faulty (Option (List UInt8)) :=
  if validAsCString str then decodeBase58Psz str max_ret_len else .ok none

/-! ## Facts about the table -/

/-- The character of a digit. -/
def base58Char (d : Nat) : Char := pszBase58.getD d '1'

theorem mapBase58At_base58Char : ∀ d < 58, mapBase58At (base58Char d) = d := by decide

theorem isSpace_base58Char : ∀ d < 58, isSpace (base58Char d) = false := by decide

theorem base58Char_eq_one : ∀ d < 58, base58Char d = '1' ↔ d = 0 := by decide

theorem nul_not_mem_pszBase58 : '\x00' ∉ pszBase58 := by decide

/-- Every character of the alphabet is the character of its digit. -/
theorem base58Char_mapBase58At {c : Char} (hc : c ∈ pszBase58) :
    (mapBase58At c).toNat < 58 ∧ base58Char (mapBase58At c).toNat = c := by
  obtain ⟨d, hd, rfl⟩ := List.getElem_of_mem hc
  have hchar : pszBase58[d] = base58Char d := by
    rw [base58Char, List.getD_eq_getElem _ _ hd]
  have hd58 : d < 58 := hd
  rw [hchar, mapBase58At_base58Char d hd58, Int.toNat_natCast]
  exact ⟨hd58, rfl⟩

theorem base58Char_mem {d : Nat} (hd : d < 58) : base58Char d ∈ pszBase58 := by
  rw [base58Char, List.getD_eq_getElem _ _ hd]
  exact List.getElem_mem _

set_option maxRecDepth 2048 in
/-- The table reads each character as invalid, or as the digit whose character
it is. -/
theorem mapBase58_table : ∀ n < 256, mapBase58.getD n (-1) = -1 ∨
    (0 ≤ mapBase58.getD n (-1) ∧ mapBase58.getD n (-1) < 58 ∧
      base58Char (mapBase58.getD n (-1)).toNat = Char.ofNat n) := by
  decide

set_option maxRecDepth 2048 in
theorem length_mapBase58 : mapBase58.length = 256 := rfl

/-- A character beyond the table reads as invalid. -/
theorem mapBase58At_of_le {c : Char} (hc : 256 ≤ c.toNat) : mapBase58At c = -1 :=
  List.getD_eq_default _ _ (by rw [length_mapBase58]; omega)

/-- A character is invalid or stands for a digit. -/
theorem mapBase58At_cases (c : Char) :
    mapBase58At c = -1 ∨ (0 ≤ mapBase58At c ∧ mapBase58At c < 58) := by
  by_cases hc : c.toNat < 256
  · rcases mapBase58_table c.toNat hc with h | ⟨h0, h58, -⟩
    exacts [.inl h, .inr ⟨h0, h58⟩]
  · exact .inl (mapBase58At_of_le (by omega))

/-- The table reads as a digit only the characters of the alphabet. -/
theorem mem_of_mapBase58At_ne {c : Char} (hc : mapBase58At c ≠ -1) : c ∈ pszBase58 := by
  have hlt : c.toNat < 256 := by
    by_contra hge
    exact hc (mapBase58At_of_le (by omega))
  rcases mapBase58_table c.toNat hlt with h | ⟨-, h58, hchar⟩
  · exact absurd h hc
  · rw [Char.ofNat_toNat] at hchar
    rw [← hchar]
    exact base58Char_mem (by omega)

/-! ## One iteration of either conversion -/

section Buffer

variable {mul base size n c : Nat}

/-- A big-endian buffer of `size` digits of base `base` holding `n`: zeros,
then the digits of `n`. -/
def bufferOf (base size n : Nat) : List Nat :=
  List.replicate (size - (base.digits n).length) 0 ++ (base.digits n).reverse

theorem bufferOf_zero : bufferOf base size 0 = List.replicate size 0 := by
  simp [bufferOf]

/-- The digits in use are the last `length` of the buffer. -/
theorem drop_bufferOf :
    (bufferOf base size n).drop (size - (base.digits n).length) = (base.digits n).reverse :=
  List.drop_left' (by simp)

/-- One iteration: multiplying by `mul` and adding `c` keeps the buffer's
shape, whenever the result fits. -/
theorem mulAdd_bufferOf (hbase : 1 < base) (hmul : 0 < mul) (hfit : c + mul * n < base ^ size) :
    mulAdd mul base (bufferOf base size n) (base.digits n).length c =
      .ok (bufferOf base size (c + mul * n), (base.digits (c + mul * n)).length) := by
  have hn : n < base ^ size := by
    have : n ≤ mul * n := Nat.le_mul_of_pos_left n hmul
    omega
  have hlen : (base.digits n).length ≤ size := (Nat.digits_length_le_iff hbase n).mpr hn
  have hrev : (bufferOf base size n).reverse =
      base.digits n ++ List.replicate (size - (base.digits n).length) 0 := by
    simp [bufferOf]
  have hfit' : c + mul * n < base ^ ((base.digits n).length + (size - (base.digits n).length)) := by
    rwa [Nat.add_sub_cancel' hlen]
  obtain ⟨z', hloop⟩ := carryLoop_digits hbase hmul hfit'
  -- the buffer keeps its size, so the zeros in front are what the new digits leave
  have hz' : z' = size - (base.digits (c + mul * n)).length := by
    have := congrArg (fun r => r.1.length) hloop
    simp only [length_carryLoop, List.length_append, List.length_replicate] at this
    omega
  simp only [mulAdd, hrev, hloop, hz']
  simp [bufferOf]

end Buffer

/-! ## `EncodeBase58` -/

/-- `len * 138 / 100 + 1` digits of base 58 hold every number of `len` bytes. -/
theorem pow_256_le_encodeSize (len : Nat) : 256 ^ len ≤ 58 ^ (len * 138 / 100 + 1) := by
  rw [Nat.mul_comm]
  exact pow_le_pow_div_add_one len (by norm_num) (by norm_num) (by decide)

/-- The number the bytes write fits the encoder's buffer. -/
theorem horner_lt_encodeSize (xs : List UInt8) :
    horner 256 0 (xs.map UInt8.toNat) < 58 ^ (xs.length * 138 / 100 + 1) := by
  have hbytes : ∀ d ∈ xs.map UInt8.toNat, d < 256 := by
    intro d hd
    obtain ⟨x, -, rfl⟩ := List.mem_map.mp hd
    exact x.toNat_lt
  calc horner 256 0 (xs.map UInt8.toNat) < 256 ^ (0 + (xs.map UInt8.toNat).length) :=
        horner_lt_pow (by norm_num) hbytes (by norm_num)
    _ ≤ 58 ^ (xs.length * 138 / 100 + 1) := by
        rw [Nat.zero_add, List.length_map]
        exact pow_256_le_encodeSize _

/-- The byte loop keeps the buffer's shape: it ends holding the number the
bytes extend `n` to, whenever that fits. -/
theorem encodeLoop_bufferOf {size : Nat} : ∀ (xs : List UInt8) (n : Nat),
    horner 256 n (xs.map UInt8.toNat) < 58 ^ size →
    encodeLoop (bufferOf 58 size n) (Nat.digits 58 n).length xs =
      .ok (bufferOf 58 size (horner 256 n (xs.map UInt8.toNat)),
        (Nat.digits 58 (horner 256 n (xs.map UInt8.toNat))).length)
  | [], _, _ => rfl
  | x :: xs, n, hfit => by
    have hstep : x.toNat + 256 * n < 58 ^ size := lt_of_le_of_lt (le_horner (by norm_num)) hfit
    rw [encodeLoop, mulAdd_bufferOf (by norm_num) (by norm_num) hstep, Fault.ok_bind]
    exact encodeLoop_bufferOf xs _ hfit

/-- Translating digits below 58 into the alphabet never reads past it. -/
theorem mapM_index_pszBase58 : ∀ ds : List Nat, (∀ d ∈ ds, d < 58) →
    ds.mapM (Fault.index pszBase58) = .ok (ds.map base58Char)
  | [], _ => rfl
  | d :: ds, hds => by
    have hd : d < pszBase58.length := hds d List.mem_cons_self
    have hchar : Fault.index pszBase58 d = .ok (base58Char d) := by
      rw [Fault.index_of_lt hd, base58Char, List.getD_eq_getElem _ _ hd]
    rw [List.mapM_cons, hchar, Fault.ok_bind,
      mapM_index_pszBase58 ds (fun x hx => hds x (List.mem_cons_of_mem d hx))]
    rfl

/-- What `EncodeBase58` writes: a `'1'` for each leading zero byte, then the
base 58 digits, most significant first, of the number the other bytes make.
It never faults: the buffer always holds the number. -/
theorem encodeBase58_eq (input : List UInt8) :
    encodeBase58 input = .ok (List.replicate (input.takeWhile (· == 0)).length '1' ++
      (Nat.digits 58 (horner 256 0 ((input.dropWhile (· == 0)).map UInt8.toNat))).reverse.map
        base58Char) := by
  simp only [encodeBase58]
  set pbegin := input.dropWhile (· == 0)
  set N := horner 256 0 (pbegin.map UInt8.toNat) with hN
  have hfit : N < 58 ^ (pbegin.length * 138 / 100 + 1) := horner_lt_encodeSize pbegin
  have hloop := encodeLoop_bufferOf pbegin 0 hfit
  rw [bufferOf_zero, Nat.digits_zero, List.length_nil, ← hN] at hloop
  have hdigits : ∀ d ∈ (Nat.digits 58 N).reverse, d < 58 :=
    fun d hd => Nat.digits_lt_base (by norm_num) (List.mem_reverse.mp hd)
  simp only [hloop, Fault.ok_bind, drop_bufferOf, dropWhile_digits_reverse,
    mapM_index_pszBase58 _ hdigits]

/-- `EncodeBase58` writes at most `len * 138 / 100 + 1` characters for `len`
bytes: a `'1'` for each leading zero, then digits that the buffer holds. -/
theorem length_encodeBase58_le (v : List UInt8) {s : List Char} (h : encodeBase58 v = .ok s) :
    s.length ≤ v.length * 138 / 100 + 1 := by
  rw [encodeBase58_eq] at h
  obtain rfl := (Except.ok.inj h).symm
  have hdigits := (Nat.digits_length_le_iff (by norm_num) _).mpr
    (horner_lt_encodeSize (v.dropWhile (· == 0)))
  have hsplit := congrArg List.length (List.takeWhile_append_dropWhile (p := (· == (0 : UInt8))) (l := v))
  rw [List.length_append] at hsplit
  simp only [List.length_append, List.length_replicate, List.length_map, List.length_reverse]
  omega

/-! ## `DecodeBase58` -/

/-- `len * 733 / 1000 + 1` bytes hold every number of `len` base 58 digits;
`58 ^ 71 ≤ 256 ^ 52` is a bound of a ratio below `733 / 1000` with exponents
small enough to evaluate. -/
theorem pow_58_le_decodeSize (len : Nat) : 58 ^ len ≤ 256 ^ (len * 733 / 1000 + 1) := by
  rw [Nat.mul_comm]
  exact pow_le_pow_div_add_one len (by norm_num) (by norm_num)
    (pow_le_pow_of_le_ratio (p := 52) (q := 71) (by norm_num) (by norm_num) (by decide) (by norm_num))

section Decode

variable (max_ret_len : Int)

/-- The leading `'1'`s of a string are all counted, unless the count passes
`max_ret_len`. -/
theorem countOnes_replicate {t : List Char} (ht : t.head? ≠ some '1') :
    ∀ (k zeroes : Nat), countOnes max_ret_len zeroes (List.replicate k '1' ++ t) =
      if 0 < k ∧ max_ret_len < ((zeroes + k : Nat) : Int) then none else some (zeroes + k, t)
  | 0, zeroes => by
    rw [if_neg (by omega), List.replicate_zero, List.nil_append, Nat.add_zero]
    cases t with
    | nil => rfl
    | cons c t =>
      have hc : c ≠ '1' := fun h => ht (by rw [h]; rfl)
      rw [countOnes, if_neg hc]
  | k + 1, zeroes => by
    rw [List.replicate_succ, List.cons_append, countOnes, if_pos rfl]
    by_cases hmax : (zeroes + 1 : Int) > max_ret_len
    · rw [if_pos hmax, if_pos ⟨by omega, by push_cast at hmax ⊢; omega⟩]
    · rw [if_neg hmax, countOnes_replicate ht k (zeroes + 1), Nat.add_assoc, Nat.add_comm 1 k]
      -- once the count is within bounds, the rest decides alone
      by_cases hk : 0 < k ∧ max_ret_len < ((zeroes + (k + 1) : Nat) : Int)
      · rw [if_pos hk, if_pos ⟨by omega, hk.2⟩]
      · rw [if_neg hk, if_neg]
        rintro ⟨-, hlt⟩
        push_cast at hmax hlt hk
        omega

/-- A successful count: the string is the `'1'`s counted, then a rest that
does not start with one. -/
theorem countOnes_eq_some : ∀ {s : List Char} {zeroes zeroes' : Nat} {t : List Char},
    countOnes max_ret_len zeroes s = some (zeroes', t) →
    ∃ k, s = List.replicate k '1' ++ t ∧ zeroes' = zeroes + k ∧ t.head? ≠ some '1'
  | [], zeroes, zeroes', t, h => by
    simp only [countOnes, Option.some.injEq, Prod.mk.injEq] at h
    obtain ⟨rfl, rfl⟩ := h
    exact ⟨0, rfl, rfl, by simp⟩
  | c :: s, zeroes, zeroes', t, h => by
    rw [countOnes] at h
    by_cases hc : c = '1'
    · rw [if_pos hc] at h
      by_cases hmax : (zeroes + 1 : Int) > max_ret_len
      · rw [if_pos hmax] at h
        cases h
      · rw [if_neg hmax] at h
        obtain ⟨k, rfl, rfl, ht⟩ := countOnes_eq_some h
        exact ⟨k + 1, by rw [hc]; rfl, by omega, ht⟩
    · rw [if_neg hc] at h
      simp only [Option.some.injEq, Prod.mk.injEq] at h
      obtain ⟨rfl, rfl⟩ := h
      exact ⟨0, rfl, rfl, by simpa using hc⟩

variable (zeroes : Nat) {size : Nat}

/-- On base58 characters the loop reads the digits into the buffer.  It fails
only when the bytes with the zeroes pass `max_ret_len`, and since the number
only grows, the last check is the one that decides. -/
theorem decodeLoop_base58Chars : ∀ (ds : List Nat) (n : Nat),
    (∀ d ∈ ds, d < 58) → horner 58 n ds < 256 ^ size →
    decodeLoop max_ret_len zeroes (bufferOf 256 size n) (Nat.digits 256 n).length
        (ds.map base58Char) =
      .ok (if ds = [] ∨ ((Nat.digits 256 (horner 58 n ds)).length + zeroes : Int) ≤ max_ret_len
        then some (bufferOf 256 size (horner 58 n ds), (Nat.digits 256 (horner 58 n ds)).length, [])
        else none)
  | [], n, _, _ => by simp [decodeLoop]
  | d :: ds, n, hds, hfit => by
    have hd : d < 58 := hds d List.mem_cons_self
    rw [horner_cons] at hfit ⊢
    have hstep : d + 58 * n < 256 ^ size := lt_of_le_of_lt (le_horner (by norm_num)) hfit
    have hvalid : mapBase58At (base58Char d) ≠ -1 := by
      rw [mapBase58At_base58Char d hd]
      omega
    rw [List.map_cons, decodeLoop, if_neg (by rw [isSpace_base58Char d hd]; decide)]
    simp only [if_neg hvalid]
    rw [mapBase58At_base58Char d hd, Int.toNat_natCast,
      mulAdd_bufferOf (by norm_num) (by norm_num) hstep, Fault.ok_bind]
    have hmono : (Nat.digits 256 (d + 58 * n)).length ≤
        (Nat.digits 256 (horner 58 (d + 58 * n) ds)).length :=
      Nat.le_length_digits_le _ _ _ (le_horner (by norm_num))
    by_cases hlen : ((Nat.digits 256 (d + 58 * n)).length + zeroes : Int) > max_ret_len
    · rw [if_pos hlen, if_neg]
      rintro (hnil | hle)
      · exact List.cons_ne_nil d ds hnil
      · omega
    · rw [if_neg hlen, decodeLoop_base58Chars ds (d + 58 * n)
        (fun x hx => hds x (List.mem_cons_of_mem d hx)) hfit]
      -- the conditions agree: with no digit left, the check just made is the last
      have hlast : ds = [] →
          ((Nat.digits 256 (horner 58 (d + 58 * n) ds)).length + zeroes : Int) ≤ max_ret_len := by
        rintro rfl
        simpa using hlen
      by_cases hP : ((Nat.digits 256 (horner 58 (d + 58 * n) ds)).length + zeroes : Int) ≤ max_ret_len
      · rw [if_pos (Or.inr hP), if_pos (Or.inr hP)]
      · rw [if_neg (by rintro (h | h); exacts [hP (hlast h), hP h]),
          if_neg (by rintro (h | h); exacts [List.cons_ne_nil d ds h, hP h])]

/-- The loop never faults: after `j` characters the number is below `58 ^ j`,
and the buffer holds `58 ^ L` for `L` the length of the whole string. -/
theorem decodeLoop_ok : ∀ (cs : List Char) (n j : Nat),
    n < 58 ^ j → 58 ^ (j + cs.length) ≤ 256 ^ size →
    ∃ r, decodeLoop max_ret_len zeroes (bufferOf 256 size n) (Nat.digits 256 n).length cs = .ok r
  | [], _, _, _, _ => ⟨_, rfl⟩
  | c :: cs, n, j, hn, hsize => by
    rw [decodeLoop]
    by_cases hsp : isSpace c = true
    · rw [if_pos hsp]
      exact ⟨_, rfl⟩
    rw [if_neg hsp]
    rcases mapBase58At_cases c with hinv | ⟨hlo, hhi⟩
    · simp only [hinv, if_true]
      exact ⟨_, rfl⟩
    have hvalid : mapBase58At c ≠ -1 := by omega
    simp only [if_neg hvalid]
    have hnext : (mapBase58At c).toNat + 58 * n < 58 ^ (j + 1) := by
      rw [pow_succ]
      omega
    have hfit : (mapBase58At c).toNat + 58 * n < 256 ^ size := by
      refine lt_of_lt_of_le hnext (le_trans (Nat.pow_le_pow_right (by norm_num) ?_) hsize)
      simp only [List.length_cons]
      omega
    rw [mulAdd_bufferOf (by norm_num) (by norm_num) hfit, Fault.ok_bind]
    split
    · exact ⟨_, rfl⟩
    · refine decodeLoop_ok cs _ (j + 1) hnext ?_
      rwa [List.length_cons, ← Nat.add_assoc, Nat.add_right_comm] at hsize

/-- On any string the loop reads base58 characters up to its end or a space,
and on those characters alone it ends the same way. -/
theorem decodeLoop_eq_some : ∀ {cs : List Char} {b : List Nat} {len : Nat} {b' : List Nat}
    {len' : Nat} {rest : List Char},
    decodeLoop max_ret_len zeroes b len cs = .ok (some (b', len', rest)) →
    ∃ ds : List Nat, cs = ds.map base58Char ++ rest ∧ (∀ d ∈ ds, d < 58) ∧
      (∀ c ∈ rest.head?, isSpace c = true) ∧
      decodeLoop max_ret_len zeroes b len (ds.map base58Char) = .ok (some (b', len', []))
  | [], b, len, b', len', rest, h => by
    simp only [decodeLoop, Except.ok.injEq, Option.some.injEq, Prod.mk.injEq] at h
    obtain ⟨rfl, rfl, rfl⟩ := h
    exact ⟨[], rfl, by simp, by simp, rfl⟩
  | c :: cs, b, len, b', len', rest, h => by
    rw [decodeLoop] at h
    by_cases hsp : isSpace c = true
    · -- the loop stops at a space
      rw [if_pos hsp] at h
      simp only [Except.ok.injEq, Option.some.injEq, Prod.mk.injEq] at h
      obtain ⟨rfl, rfl, rfl⟩ := h
      exact ⟨[], rfl, by simp, by simpa using hsp, rfl⟩
    rw [if_neg hsp] at h
    have hvalid : mapBase58At c ≠ -1 := by
      intro hinv
      simp [hinv] at h
    simp only [if_neg hvalid] at h
    obtain ⟨r, hr, h⟩ := Fault.bind_eq_ok.mp h
    split_ifs at h with hmax
    · cases h
    obtain ⟨ds, rfl, hds, hrest, hloop⟩ := decodeLoop_eq_some h
    obtain ⟨hd, hchar⟩ := base58Char_mapBase58At (mem_of_mapBase58At_ne hvalid)
    refine ⟨(mapBase58At c).toNat :: ds, by rw [List.map_cons, hchar, List.cons_append], ?_, hrest, ?_⟩
    · intro d hd'
      rcases List.mem_cons.mp hd' with rfl | hd'
      exacts [hd, hds d hd']
    · rw [List.map_cons, hchar, decodeLoop, if_neg hsp]
      simp only [if_neg hvalid]
      rw [hr, Fault.ok_bind, if_neg hmax, hloop]

end Decode

/-! ## The round trips -/

theorem isSpace_of_mem_pszBase58 {c : Char} (hc : c ∈ pszBase58) : isSpace c = false := by
  obtain ⟨hd, hchar⟩ := base58Char_mapBase58At hc
  rw [← hchar]
  exact isSpace_base58Char _ hd

/-- `'1'`s and then the characters of some digits: a string over the alphabet. -/
theorem mem_ones_digits {z : Nat} {ds : List Nat} (hds : ∀ d ∈ ds, d < 58) :
    ∀ c ∈ List.replicate z '1' ++ ds.map base58Char, c ∈ pszBase58 := by
  intro c hc
  rcases List.mem_append.mp hc with h | h
  · rw [List.eq_of_mem_replicate h]
    decide
  · obtain ⟨d, hd, rfl⟩ := List.mem_map.mp h
    exact base58Char_mem (hds d hd)

theorem validAsCString_of_mem {s : List Char} (hs : ∀ c ∈ s, c ∈ pszBase58) :
    validAsCString s = true := by
  simp [validAsCString]
  exact fun h => nul_not_mem_pszBase58 (hs _ h)

theorem dropWhile_isSpace_of_mem {s : List Char} (hs : ∀ c ∈ s, c ∈ pszBase58) :
    s.dropWhile isSpace = s :=
  List.dropWhile_eq_self_iff.mpr fun hl => by
    rw [isSpace_of_mem_pszBase58 (hs _ (List.getElem_mem hl))]
    decide

/-- A base58 string is its leading `'1'`s, then the characters of digits
that do not start with a zero. -/
theorem eq_ones_append_digits {s : List Char} (hs : ∀ c ∈ s, c ∈ pszBase58) :
    ∃ (z : Nat) (ds : List Nat), s = List.replicate z '1' ++ ds.map base58Char ∧ (∀ d ∈ ds, d < 58) ∧
      ds.head? ≠ some 0 := by
  set t := s.dropWhile (· == '1')
  have ht : ∀ c ∈ t, c ∈ pszBase58 := fun c hc => hs c ((List.dropWhile_sublist _).subset hc)
  refine ⟨(s.takeWhile (· == '1')).length, t.map fun c => (mapBase58At c).toNat, ?_, ?_, ?_⟩
  · have hchars : (t.map fun c => (mapBase58At c).toNat).map base58Char = t := by
      rw [List.map_map]
      refine (List.map_congr_left fun c hc => ?_).trans (List.map_id t)
      exact (base58Char_mapBase58At (ht c hc)).2
    rw [hchars, ← takeWhile_beq_eq_replicate '1' s, List.takeWhile_append_dropWhile]
  · intro d hd
    obtain ⟨c, hc, rfl⟩ := List.mem_map.mp hd
    exact (base58Char_mapBase58At (ht c hc)).1
  · -- the rest starts with some other character, whose digit is not zero
    refine head?_map_ne fun c hc hc0 => head?_dropWhile_beq_ne '1' s ?_
    rw [hc, ← (base58Char_mapBase58At (ht c (List.mem_of_head? hc))).2, hc0]
    rfl

/-- A string of `'1'`s, then the characters of digits with no leading zero,
decodes to as many zero bytes, then the bytes of the number the digits write.
It fails only when the count of `'1'`s or the bytes pass `max_ret_len`. -/
theorem decodeBase58_ones_digits (max_ret_len : Int) (z : Nat) {ds : List Nat}
    (hds : ∀ d ∈ ds, d < 58) (hhead : ds.head? ≠ some 0) :
    decodeBase58 (List.replicate z '1' ++ ds.map base58Char) max_ret_len =
      .ok (if ¬(0 < z ∧ max_ret_len < z) ∧
          (ds = [] ∨ ((Nat.digits 256 (horner 58 0 ds)).length + z : Int) ≤ max_ret_len)
        then some (List.replicate z 0 ++ (Nat.digits 256 (horner 58 0 ds)).reverse.map Nat.toUInt8)
        else none) := by
  have hmem := mem_ones_digits (z := z) hds
  have ht : (ds.map base58Char).head? ≠ some '1' := head?_map_ne fun d hd hd1 =>
    hhead (by rw [hd, (base58Char_eq_one d (hds d (List.mem_of_head? hd))).mp hd1])
  have hfit : horner 58 0 ds < 256 ^ ((ds.map base58Char).length * 733 / 1000 + 1) := by
    calc horner 58 0 ds < 58 ^ (0 + ds.length) := horner_lt_pow (by norm_num) hds (by norm_num)
      _ ≤ 256 ^ ((ds.map base58Char).length * 733 / 1000 + 1) := by
        rw [Nat.zero_add, ← List.length_map (f := base58Char)]
        exact pow_58_le_decodeSize _
  have hloop := decodeLoop_base58Chars max_ret_len z ds 0 hds hfit
  rw [bufferOf_zero, Nat.digits_zero, List.length_nil] at hloop
  rw [decodeBase58, if_pos (validAsCString_of_mem hmem), decodeBase58Psz,
    dropWhile_isSpace_of_mem hmem, countOnes_replicate max_ret_len ht z 0, Nat.zero_add]
  by_cases hones : 0 < z ∧ max_ret_len < z
  · rw [if_pos hones, if_neg (fun h => h.1 hones)]
  · rw [if_neg hones]
    dsimp only
    rw [hloop, Fault.ok_bind]
    by_cases hP : ds = [] ∨ ((Nat.digits 256 (horner 58 0 ds)).length + z : Int) ≤ max_ret_len
    · rw [if_pos hP, if_pos ⟨hones, hP⟩]
      simp only [List.dropWhile_nil, ne_eq, not_true_eq_false, if_false, drop_bufferOf]
    · rw [if_neg hP, if_neg (fun h => hP h.2)]

/-- Decoding what `EncodeBase58` writes gives the bytes back, whenever they
fit `max_ret_len`. -/
theorem decodeBase58_encodeBase58 (v : List UInt8) (max_ret_len : Int)
    (hv : (v.length : Int) ≤ max_ret_len) :
    ∃ s, encodeBase58 v = .ok s ∧ decodeBase58 s max_ret_len = .ok (some v) := by
  set z := (v.takeWhile (· == 0)).length
  set bytes := v.dropWhile (· == 0)
  set N := horner 256 0 (bytes.map UInt8.toNat)
  refine ⟨_, encodeBase58_eq v, ?_⟩
  have hzeros : v.takeWhile (· == 0) = List.replicate z 0 := takeWhile_beq_eq_replicate 0 v
  have hsplit : v = List.replicate z 0 ++ bytes := by
    rw [← hzeros, List.takeWhile_append_dropWhile]
  have hbytes : ∀ d ∈ bytes.map UInt8.toNat, d < 256 := by
    intro d hd
    obtain ⟨x, -, rfl⟩ := List.mem_map.mp hd
    exact x.toNat_lt
  have hhead : (bytes.map UInt8.toNat).head? ≠ some 0 := head?_map_ne fun x hx hx0 =>
    head?_dropWhile_beq_ne 0 v (by rw [hx, (UInt8.toNat_inj.mp hx0 : x = 0)])
  have hN : Nat.digits 256 N = (bytes.map UInt8.toNat).reverse :=
    digits_horner (by norm_num) hbytes hhead
  have hds : ∀ d ∈ (Nat.digits 58 N).reverse, d < 58 :=
    fun d hd => Nat.digits_lt_base (by norm_num) (List.mem_reverse.mp hd)
  have hlen : (v.length : Int) = (Nat.digits 256 N).length + z := by
    rw [hN, List.length_reverse, List.length_map]
    conv_lhs => rw [hsplit]
    simp only [List.length_append, List.length_replicate]
    push_cast
    ring
  have hz : (z : Int) ≤ v.length := by
    rw [hlen]
    omega
  rw [decodeBase58_ones_digits max_ret_len z hds (head?_digits_reverse_ne_zero 58 N),
    horner_digits, if_pos ⟨fun h => by omega, Or.inr (by omega)⟩, hN, List.reverse_reverse,
    map_toUInt8_toNat, ← hsplit]

/-- Zero bytes in front of bytes that do not start with one are the leading
zeros the encoder counts. -/
theorem takeWhile_replicate_append {z : Nat} {bs : List UInt8} (hbs : bs.head? ≠ some 0) :
    (List.replicate z 0 ++ bs).takeWhile (· == 0) = List.replicate z 0 ∧
      (List.replicate z 0 ++ bs).dropWhile (· == 0) = bs := by
  induction z with
  | zero =>
    cases bs with
    | nil => simp
    | cons b bs =>
      have hb : (b == 0) = false := by simpa using fun h => hbs (by rw [h]; rfl)
      simp [List.takeWhile_cons_of_neg, hb]
  | succ z ih =>
    rw [List.replicate_succ, List.cons_append, List.takeWhile_cons_of_pos (by rfl),
      List.dropWhile_cons_of_pos (by rfl), ih.1, ih.2]
    exact ⟨rfl, rfl⟩

/-- Every base58 string that `DecodeBase58` accepts is what `EncodeBase58`
writes for the bytes it decodes to. -/
theorem encodeBase58_decodeBase58 {s : List Char} {max_ret_len : Int} {w : List UInt8}
    (hs : ∀ c ∈ s, c ∈ pszBase58) (h : decodeBase58 s max_ret_len = .ok (some w)) :
    encodeBase58 w = .ok s := by
  obtain ⟨z, ds, rfl, hds, hhead⟩ := eq_ones_append_digits hs
  rw [decodeBase58_ones_digits max_ret_len z hds hhead] at h
  set W := horner 58 0 ds
  by_cases hP : ¬(0 < z ∧ max_ret_len < z) ∧
      (ds = [] ∨ ((Nat.digits 256 W).length + z : Int) ≤ max_ret_len)
  · rw [if_pos hP] at h
    obtain rfl := Option.some.inj (Except.ok.inj h)
    -- the bytes decoded: zeros, then the digits of `W`, which do not start with zero
    have hlt : ∀ x ∈ (Nat.digits 256 W).reverse, x < 256 :=
      fun x hx => Nat.digits_lt_base (by norm_num) (List.mem_reverse.mp hx)
    have hbytes := map_toNat_toUInt8 hlt
    have hhead' : ((Nat.digits 256 W).reverse.map Nat.toUInt8).head? ≠ some 0 :=
      head?_map_ne fun x hx hx0 => by
        have hx256 := hlt x (List.mem_of_head? hx)
        have : x = 0 := by
          have := congrArg UInt8.toNat hx0
          simp only [Nat.toUInt8_eq, UInt8.toNat_ofNat', UInt8.toNat_zero] at this
          omega
        exact head?_digits_reverse_ne_zero 256 W (by rw [hx, this])
    obtain ⟨htake, hdrop⟩ := takeWhile_replicate_append (z := z) hhead'
    rw [encodeBase58_eq, htake, hdrop, hbytes, horner_digits, digits_horner (by norm_num) hds hhead,
      List.reverse_reverse, List.length_replicate]
  · rw [if_neg hP] at h
    cases h

/-- What `DecodeBase58` accepts is a base58 string between white space, and
the string alone decodes the same. -/
theorem decodeBase58_trim {s : List Char} {max_ret_len : Int} {w : List UInt8}
    (h : decodeBase58 s max_ret_len = .ok (some w)) :
    ∃ l t r, s = l ++ t ++ r ∧ (∀ c ∈ l ++ r, isSpace c = true) ∧ (∀ c ∈ t, c ∈ pszBase58) ∧
      decodeBase58 t max_ret_len = .ok (some w) := by
  rw [decodeBase58] at h
  split_ifs at h with hvalid
  swap
  · cases h
  rw [decodeBase58Psz] at h
  split at h
  · cases h
  rename_i zeroes psz hcount
  obtain ⟨k, hs, rfl, hhead⟩ := countOnes_eq_some max_ret_len hcount
  obtain ⟨res, hloop, h⟩ := Fault.bind_eq_ok.mp h
  rcases res with _ | ⟨b256, length, rest⟩
  · cases h
  dsimp only at h
  split_ifs at h with hspaces
  · cases h
  obtain ⟨ds, rfl, hds, -, hloop'⟩ := decodeLoop_eq_some max_ret_len (0 + k) hloop
  -- the digits do not start with a zero, whose character is `'1'`
  have hhead' : ds.head? ≠ some 0 := by
    intro h0
    obtain ⟨ds', rfl⟩ : ∃ ds', ds = 0 :: ds' := by
      cases ds with
      | nil => cases h0
      | cons d ds' => exact ⟨ds', by rw [Option.some.inj h0]⟩
    exact hhead (by simp [(base58Char_eq_one 0 (by norm_num)).mpr rfl])
  -- the loop read the digits into a buffer that holds them
  have hfit : horner 58 0 ds < 256 ^ ((ds.map base58Char ++ rest).length * 733 / 1000 + 1) := by
    calc horner 58 0 ds < 58 ^ (0 + ds.length) := horner_lt_pow (by norm_num) hds (by norm_num)
      _ ≤ 58 ^ (ds.map base58Char ++ rest).length :=
        Nat.pow_le_pow_right (by norm_num) (by simp)
      _ ≤ _ := pow_58_le_decodeSize _
  have hbase := decodeLoop_base58Chars max_ret_len (0 + k) ds 0 hds hfit
  rw [bufferOf_zero, Nat.digits_zero, List.length_nil] at hbase
  rw [hbase] at hloop'
  split_ifs at hloop' with hcond
  · simp only [Except.ok.injEq, Option.some.injEq, Prod.mk.injEq] at hloop'
    obtain ⟨rfl, rfl, -⟩ := hloop'
    -- the count of `'1'`s was within bounds
    have hones : ¬(0 < k ∧ max_ret_len < k) := by
      intro hk
      rw [hs, countOnes_replicate max_ret_len hhead k 0, if_pos (by simpa using hk)] at hcount
      cases hcount
    refine ⟨s.takeWhile isSpace, List.replicate k '1' ++ ds.map base58Char, rest, ?_, ?_,
      mem_ones_digits hds, ?_⟩
    · calc s = s.takeWhile isSpace ++ s.dropWhile isSpace := List.takeWhile_append_dropWhile.symm
        _ = _ := by rw [hs, List.append_assoc, List.append_assoc]
    · intro c hc
      rcases List.mem_append.mp hc with hc | hc
      · exact List.mem_takeWhile_imp hc
      · exact List.dropWhile_eq_nil_iff.mp (of_not_not hspaces) c hc
    · rw [decodeBase58_ones_digits max_ret_len k hds hhead', if_pos ⟨hones, by simpa using hcond⟩,
        ← Except.ok.inj h, drop_bufferOf, Nat.zero_add]
  · cases hloop'

/-- `DecodeBase58` never faults: whatever the string, the buffer holds every
number its characters can write. -/
theorem decodeBase58_ok (str : List Char) (max_ret_len : Int) :
    ∃ r, decodeBase58 str max_ret_len = .ok r := by
  rw [decodeBase58]
  split
  · rw [decodeBase58Psz]
    split
    · exact ⟨_, rfl⟩
    · rename_i zeroes psz _
      obtain ⟨r, hr⟩ := decodeLoop_ok max_ret_len zeroes psz 0 0 (by norm_num)
        (by simpa using pow_58_le_decodeSize psz.length)
      rw [bufferOf_zero, Nat.digits_zero, List.length_nil] at hr
      dsimp only
      rw [hr, Fault.ok_bind]
      split
      · exact ⟨_, rfl⟩
      · split <;> exact ⟨_, rfl⟩
  · exact ⟨_, rfl⟩

/-- `EncodeBase58Check(vchIn)`: the bytes, then the first four bytes of their
hash. -/
def encodeBase58Check (Hash : List UInt8 → uint256) (vchIn : List UInt8) : Faulty (List Char) :=
  -- add 4-byte hash check to the end
  encodeBase58 (vchIn ++ (Hash vchIn).data.take 4)

/-- `DecodeBase58Check(psz, vchRet, max_ret_len)`. -/
def decodeBase58CheckPsz (Hash : List UInt8 → uint256) (psz : List Char) (max_ret_len : Int) :
    Faulty (Option (List UInt8)) :=
  decodeBase58Psz psz (if max_ret_len > 2147483647 - 4 then 2147483647 else max_ret_len + 4) >>= fun
  | none => .ok none
  | some vchRet =>
    if vchRet.length < 4 then .ok none
    -- re-calculate the checksum, ensure it matches the included 4-byte checksum
    else if (Hash (vchRet.take (vchRet.length - 4))).data.take 4 ≠ vchRet.drop (vchRet.length - 4)
    then .ok none
    else .ok (some (vchRet.take (vchRet.length - 4)))

/-- `DecodeBase58Check(str, vchRet, max_ret)`. -/
def decodeBase58Check (Hash : List UInt8 → uint256) (str : List Char) (max_ret : Int) :
    Faulty (Option (List UInt8)) :=
  if validAsCString str then decodeBase58CheckPsz Hash str max_ret else .ok none

section Check

variable (Hash : List UInt8 → uint256)

theorem length_checkBytes (v : List UInt8) : ((Hash v).data.take 4).length = 4 := by
  rw [List.length_take, (Hash v).length_data]
  rfl

/-- What `DecodeBase58Check` accepts decodes, as base58, to the payload and
the four bytes of its hash. -/
theorem decodeBase58_of_decodeBase58Check {str : List Char} {max_ret : Int} {v : List UInt8}
    (hmax : max_ret ≤ 2147483647 - 4) (h : decodeBase58Check Hash str max_ret = .ok (some v)) :
    decodeBase58 str (max_ret + 4) = .ok (some (v ++ (Hash v).data.take 4)) := by
  rw [decodeBase58Check] at h
  split_ifs at h with hvalid
  swap
  · cases h
  rw [decodeBase58CheckPsz, if_neg (by omega)] at h
  obtain ⟨res, hres, h⟩ := Fault.bind_eq_ok.mp h
  rcases res with _ | vch
  · cases h
  dsimp only at h
  split_ifs at h with hlt hne
  · cases h
  · cases h
  obtain rfl := (Option.some.inj (Except.ok.inj h)).symm
  rw [decodeBase58, if_pos hvalid, hres, not_not.mp hne, List.take_append_drop]

/-- Decoding what `EncodeBase58Check` writes gives the payload back, whenever
it fits `max_ret`. -/
theorem decodeBase58Check_encodeBase58Check (v : List UInt8) {max_ret : Int}
    (hmax : max_ret ≤ 2147483647 - 4) (hv : (v.length : Int) ≤ max_ret) :
    ∃ s, encodeBase58Check Hash v = .ok s ∧ decodeBase58Check Hash s max_ret = .ok (some v) := by
  have hlen : (v ++ (Hash v).data.take 4).length = v.length + 4 := by
    rw [List.length_append, length_checkBytes]
  obtain ⟨s, hs, hdec⟩ := decodeBase58_encodeBase58 (v ++ (Hash v).data.take 4) (max_ret + 4)
    (by rw [hlen]; push_cast; omega)
  refine ⟨s, hs, ?_⟩
  rw [decodeBase58] at hdec
  split_ifs at hdec with hvalid
  swap
  · cases hdec
  rw [decodeBase58Check, if_pos hvalid, decodeBase58CheckPsz, if_neg (by omega), hdec,
    Fault.ok_bind]
  dsimp only
  rw [hlen, Nat.add_sub_cancel, List.take_left' rfl, List.drop_left' rfl, if_neg (by omega),
    if_neg (not_not.mpr rfl)]

/-- What `DecodeBase58Check` accepts is what `EncodeBase58Check` writes for the
payload, with white space around it. -/
theorem encodeBase58Check_decodeBase58Check {s : List Char} {max_ret : Int} {v : List UInt8}
    (hmax : max_ret ≤ 2147483647 - 4) (h : decodeBase58Check Hash s max_ret = .ok (some v)) :
    ∃ l t r, s = l ++ t ++ r ∧ (∀ c ∈ l ++ r, isSpace c = true) ∧
      encodeBase58Check Hash v = .ok t := by
  obtain ⟨l, t, r, hs, hspace, ht, hdec⟩ :=
    decodeBase58_trim (decodeBase58_of_decodeBase58Check Hash hmax h)
  exact ⟨l, t, r, hs, hspace, encodeBase58_decodeBase58 ht hdec⟩

/-- A string with no white space that `DecodeBase58Check` accepts has at most
`(len + 4) * 138 / 100 + 1` characters for a payload of `len` bytes. -/
theorem length_le_of_decodeBase58Check {s : List Char} {max_ret : Int} {v : List UInt8}
    (hmax : max_ret ≤ 2147483647 - 4) (hs : ∀ c ∈ s, isSpace c = false)
    (h : decodeBase58Check Hash s max_ret = .ok (some v)) :
    s.length ≤ (v.length + 4) * 138 / 100 + 1 := by
  obtain ⟨l, t, r, rfl, hspace, ht⟩ := encodeBase58Check_decodeBase58Check Hash hmax h
  -- with no white space the string is what was written
  have hnil : l ++ r = [] := List.eq_nil_iff_forall_not_mem.mpr fun c hc => by
    have hmem : c ∈ l ++ t ++ r := by
      rcases List.mem_append.mp hc with hc | hc <;> simp [hc]
    simpa [hs c hmem] using hspace c hc
  obtain ⟨rfl, rfl⟩ := List.append_eq_nil_iff.mp hnil
  have hlen := length_encodeBase58_le _ ht
  rw [List.length_append, length_checkBytes] at hlen
  simpa using hlen

/-- `DecodeBase58Check` skips white space in front of the string. -/
theorem decodeBase58Check_cons_space {c : Char} (hc : isSpace c = true) (s : List Char)
    (max_ret : Int) : decodeBase58Check Hash (c :: s) max_ret = decodeBase58Check Hash s max_ret := by
  have hnul : c ≠ '\x00' := by
    rintro rfl
    cases hc
  have hvalid : validAsCString (c :: s) = validAsCString s := by
    simp [validAsCString, Ne.symm hnul]
  simp only [decodeBase58Check, decodeBase58CheckPsz, decodeBase58Psz, hvalid,
    List.dropWhile_cons_of_pos hc]

/-- `DecodeBase58Check` never faults. -/
theorem decodeBase58Check_ok (s : List Char) (max_ret : Int) :
    ∃ r, decodeBase58Check Hash s max_ret = .ok r := by
  rw [decodeBase58Check]
  split_ifs with hvalid
  · obtain ⟨r, hr⟩ := decodeBase58_ok s
      (if max_ret > 2147483647 - 4 then 2147483647 else max_ret + 4)
    rw [decodeBase58, if_pos hvalid] at hr
    rw [decodeBase58CheckPsz, hr, Fault.ok_bind]
    rcases r with _ | vch
    · exact ⟨_, rfl⟩
    · dsimp only
      split_ifs <;> exact ⟨_, rfl⟩
  · exact ⟨_, rfl⟩

end Check

end Veribase
