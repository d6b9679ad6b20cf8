import Veribase.BlockFilter.Golomb
import Veribase.Serialize.CompactSize

/-!
# Golomb-coded set filters

`GCSFilter` (`blockfilter.cpp`) stores a set of byte strings as the sorted
list of their hashes, mapped into `[0, N * M)`, each coded as the Golomb-Rice
code of its difference from the one before, after the count `N` as a
CompactSize.  `Match` and `MatchAny` hash their queries the same way and walk
the filter's values and the sorted queries side by side.

The argument runs through three pieces:

* The constructor from a set appends the codes of the differences to the
  writer (`encodeDeltas_spec`), so the encoding is the CompactSize of `N`, then
  bytes that hold those codes and fewer than eight zeros (`ofElements_spec`).
* A reader on those bytes decodes the differences back one by one
  (`decodeCount_spec`), and what is left is the padding, less than a byte, so
  the stream is empty (`ofEncoded_spec`).  `ReadCompactSize` takes no count
  above `MAX_SIZE`, so this holds for the sets of at most `MAX_SIZE`
  elements; a larger set below `2^32` is encoded, but its encoding is neither
  read back nor matched against.
* The scan of `MatchInternal` skips the queries below the current value
  (`scanHashes_spec`), and as both lists are sorted a query equal to some
  value of the filter is never skipped (`matchLoop_eq_true`).

`MapIntoRange` has two branches, chosen by whether the compiler has
`unsigned __int128`.  The portable one builds the high word of the 128-bit
product from four 32-bit partial products, and it computes the same value
(`mapIntoRangePortable_eq`).
-/

namespace Veribase

open BitList

/-! ## Parameters and filters -/

/-- `GCSFilter::Params`. -/
structure GCSParams where
  m_siphash_k0 : UInt64
  m_siphash_k1 : UInt64
  /-- `m_P`: the Golomb-Rice parameter. -/
  m_P : UInt8
  /-- `m_M`: the inverse false positive rate. -/
  m_M : UInt32
deriving DecidableEq

/-- `GCSFilter`. -/
structure GCSFilter where
  m_params : GCSParams
  /-- `m_N`: the number of elements. -/
  m_N : UInt32
  /-- `m_F`: the range of the element hashes, `N * M`. -/
  m_F : UInt64
  m_encoded : List UInt8
deriving DecidableEq

/-- `GCSFilter::ElementSet`, an `unordered_set` of byte vectors: its elements
in the order it iterates them. -/
structure ElementSet where
  /-- The elements. -/
  elements : List (List UInt8)
  nodup : elements.Nodup

/-! ## Mapping a hash into the range -/

/-- `MapIntoRange(x, n)` where `unsigned __int128` is available: the high
word of the 128-bit product, which cannot overflow. -/
def mapIntoRangeInt128 (x n : UInt64) : UInt64 := ((x.toNat * n.toNat) >>> 64).toUInt64

/-- `MapIntoRange(x, n)` without `unsigned __int128`: the high word of the
product, from the four products of the 32-bit halves. -/
def mapIntoRangePortable (x n : UInt64) : UInt64 :=
  let x_hi := x >>> 32
  let x_lo := x &&& 0xFFFFFFFF
  let n_hi := n >>> 32
  let n_lo := n &&& 0xFFFFFFFF
  let ac := x_hi * n_hi
  let ad := x_hi * n_lo
  let bc := x_lo * n_hi
  let bd := x_lo * n_lo
  let mid34 := (bd >>> 32) + (bc &&& 0xFFFFFFFF) + (ad &&& 0xFFFFFFFF)
  let upper64 := ac + (bc >>> 32) + (ad >>> 32) + (mid34 >>> 32)
  upper64

/-- `MapIntoRange(x, n)`, by whether `__SIZEOF_INT128__` is defined. -/
def mapIntoRange (int128 : Bool) (x n : UInt64) : UInt64 :=
  if int128 then mapIntoRangeInt128 x n else mapIntoRangePortable x n

/-! ### The portable branch is exact

No partial product, no sum of the middle column and no sum of `upper64`
overflows, and the middle column carries exactly what the low word loses. -/

theorem toNat_shiftRight_32 (x : UInt64) : (x >>> 32).toNat = x.toNat / 2 ^ 32 := by
  rw [UInt64.toNat_shiftRight, Nat.shiftRight_eq_div_pow]
  rfl

theorem toNat_and_low32 (x : UInt64) : (x &&& (0xFFFFFFFF : UInt64)).toNat = x.toNat % 2 ^ 32 := by
  rw [UInt64.toNat_and, show (0xFFFFFFFF : UInt64).toNat = 2 ^ 32 - 1 from rfl,
    Nat.and_two_pow_sub_one_eq_mod]

theorem toNat_mul_of_lt {a b : UInt64} (h : a.toNat * b.toNat < 2 ^ 64) :
    (a * b).toNat = a.toNat * b.toNat := by
  rw [UInt64.toNat_mul, Nat.mod_eq_of_lt h]

/-- Two numbers below `2^32` multiply without wrapping. -/
theorem toNat_mul_of_lt_two_pow_32 {a b : UInt64} (ha : a.toNat < 2 ^ 32) (hb : b.toNat < 2 ^ 32) :
    (a * b).toNat = a.toNat * b.toNat :=
  toNat_mul_of_lt (calc a.toNat * b.toNat < 2 ^ 32 * 2 ^ 32 := Nat.mul_lt_mul'' ha hb
    _ = 2 ^ 64 := by norm_num)

theorem toNat_shiftRight_32_lt (x : UInt64) : (x >>> 32).toNat < 2 ^ 32 := by
  rw [toNat_shiftRight_32]
  exact Nat.div_lt_of_lt_mul (by simpa using x.toNat_lt)

theorem toNat_and_low32_lt (x : UInt64) : (x &&& (0xFFFFFFFF : UInt64)).toNat < 2 ^ 32 := by
  rw [toNat_and_low32]
  exact Nat.mod_lt _ (by norm_num)

theorem toNat_add_of_lt {a b : UInt64} (h : a.toNat + b.toNat < 2 ^ 64) :
    (a + b).toNat = a.toNat + b.toNat := by
  rw [UInt64.toNat_add, Nat.mod_eq_of_lt h]

/-- Schoolbook multiplication in 32-bit halves: the product's high word is the
high product, the carries of the two cross products, and the carry out of the
middle column. -/
theorem mul_eq_columns {X N xh xl nh nl D C E Mid : Nat} (hX : X = xh * 2 ^ 32 + xl)
    (hN : N = nh * 2 ^ 32 + nl) (hD : D = xh * nl) (hC : C = xl * nh) (hE : E = xl * nl)
    (hMid : Mid = E / 2 ^ 32 + C % 2 ^ 32 + D % 2 ^ 32) :
    X * N = (xh * nh + C / 2 ^ 32 + D / 2 ^ 32 + Mid / 2 ^ 32) * 2 ^ 64 +
      (Mid % 2 ^ 32 * 2 ^ 32 + E % 2 ^ 32) := by
  have eD := Nat.div_add_mod' D (2 ^ 32)
  have eC := Nat.div_add_mod' C (2 ^ 32)
  have eE := Nat.div_add_mod' E (2 ^ 32)
  have eM := Nat.div_add_mod' Mid (2 ^ 32)
  subst hX hN hD hC hE
  rw [hMid] at eM
  rw [hMid]
  generalize xh * nl / 2 ^ 32 = dh at *
  generalize xh * nl % 2 ^ 32 = dl at *
  generalize xl * nh / 2 ^ 32 = ch at *
  generalize xl * nh % 2 ^ 32 = cl at *
  generalize xl * nl / 2 ^ 32 = eh at *
  generalize xl * nl % 2 ^ 32 = el at *
  generalize (eh + cl + dl) / 2 ^ 32 = mh at *
  generalize (eh + cl + dl) % 2 ^ 32 = ml at *
  linear_combination (2 ^ 32 : ℕ) * eD.symm + (2 ^ 32 : ℕ) * eC.symm + eE.symm +
    (2 ^ 32 : ℕ) * eM.symm

/-- The portable branch computes `⌊x * n / 2^64⌋`. -/
theorem toNat_mapIntoRangePortable (x n : UInt64) :
    (mapIntoRangePortable x n).toNat = x.toNat * n.toNat / 2 ^ 64 := by
  have hx := x.toNat_lt
  have hn := n.toNat_lt
  -- the four partial products, as in the source: `x = a·2^32 + b`, `n = c·2^32 + d`
  have hac : ((x >>> 32) * (n >>> 32)).toNat = x.toNat / 2 ^ 32 * (n.toNat / 2 ^ 32) := by
    rw [toNat_mul_of_lt_two_pow_32 (toNat_shiftRight_32_lt x) (toNat_shiftRight_32_lt n),
      toNat_shiftRight_32, toNat_shiftRight_32]
  have had : ((x >>> 32) * (n &&& (0xFFFFFFFF : UInt64))).toNat =
      x.toNat / 2 ^ 32 * (n.toNat % 2 ^ 32) := by
    rw [toNat_mul_of_lt_two_pow_32 (toNat_shiftRight_32_lt x) (toNat_and_low32_lt n),
      toNat_shiftRight_32, toNat_and_low32]
  have hbc : ((x &&& (0xFFFFFFFF : UInt64)) * (n >>> 32)).toNat =
      x.toNat % 2 ^ 32 * (n.toNat / 2 ^ 32) := by
    rw [toNat_mul_of_lt_two_pow_32 (toNat_and_low32_lt x) (toNat_shiftRight_32_lt n),
      toNat_and_low32, toNat_shiftRight_32]
  have hbd : ((x &&& (0xFFFFFFFF : UInt64)) * (n &&& (0xFFFFFFFF : UInt64))).toNat =
      x.toNat % 2 ^ 32 * (n.toNat % 2 ^ 32) := by
    rw [toNat_mul_of_lt_two_pow_32 (toNat_and_low32_lt x) (toNat_and_low32_lt n),
      toNat_and_low32, toNat_and_low32]
  unfold mapIntoRangePortable
  simp only []
  generalize hA : (x >>> 32) * (n >>> 32) = ac at hac ⊢
  generalize hD : (x >>> 32) * (n &&& (0xFFFFFFFF : UInt64)) = ad at had ⊢
  generalize hC : (x &&& (0xFFFFFFFF : UInt64)) * (n >>> 32) = bc at hbc ⊢
  generalize hB : (x &&& (0xFFFFFFFF : UInt64)) * (n &&& (0xFFFFFFFF : UInt64)) = bd at hbd ⊢
  -- the middle column, with the carries out of the low word
  have hmid : ((bd >>> 32) + (bc &&& (0xFFFFFFFF : UInt64)) +
      (ad &&& (0xFFFFFFFF : UInt64))).toNat =
      bd.toNat / 2 ^ 32 + bc.toNat % 2 ^ 32 + ad.toNat % 2 ^ 32 := by
    have h1 := toNat_shiftRight_32_lt bd
    have h2 := toNat_and_low32_lt bc
    have h3 := toNat_and_low32_lt ad
    have e12 : ((bd >>> 32) + (bc &&& (0xFFFFFFFF : UInt64))).toNat =
        (bd >>> 32).toNat + (bc &&& (0xFFFFFFFF : UInt64)).toNat := toNat_add_of_lt (by omega)
    rw [toNat_add_of_lt (by rw [e12]; omega), e12, toNat_shiftRight_32, toNat_and_low32,
      toNat_and_low32]
  generalize hM : (bd >>> 32) + (bc &&& (0xFFFFFFFF : UInt64)) +
    (ad &&& (0xFFFFFFFF : UInt64)) = mid at hmid ⊢
  -- the high word of the product, from the columns
  have hkey := mul_eq_columns (Nat.div_add_mod' x.toNat (2 ^ 32)).symm
    (Nat.div_add_mod' n.toNat (2 ^ 32)).symm had hbc hbd hmid
  rw [← hac] at hkey
  have hlow : mid.toNat % 2 ^ 32 * 2 ^ 32 + bd.toNat % 2 ^ 32 < 2 ^ 64 := by
    have h1 : mid.toNat % 2 ^ 32 < 2 ^ 32 := Nat.mod_lt _ (by norm_num)
    have h2 : bd.toNat % 2 ^ 32 < 2 ^ 32 := Nat.mod_lt _ (by norm_num)
    omega
  have hhigh : x.toNat * n.toNat / 2 ^ 64 =
      ac.toNat + bc.toNat / 2 ^ 32 + ad.toNat / 2 ^ 32 + mid.toNat / 2 ^ 32 := by
    rw [hkey, Nat.add_comm, Nat.add_mul_div_right _ _ (by norm_num), Nat.div_eq_of_lt hlow,
      Nat.zero_add]
  have hlt : x.toNat * n.toNat / 2 ^ 64 < 2 ^ 64 :=
    Nat.div_lt_of_lt_mul (Nat.mul_lt_mul'' hx hn)
  -- so no sum of `upper64` wraps
  have e1 : (ac + (bc >>> 32)).toNat = ac.toNat + bc.toNat / 2 ^ 32 := by
    rw [toNat_add_of_lt (by rw [toNat_shiftRight_32]; omega), toNat_shiftRight_32]
  have e2 : (ac + (bc >>> 32) + (ad >>> 32)).toNat =
      ac.toNat + bc.toNat / 2 ^ 32 + ad.toNat / 2 ^ 32 := by
    rw [toNat_add_of_lt (by rw [e1, toNat_shiftRight_32]; omega), e1, toNat_shiftRight_32]
  rw [toNat_add_of_lt (by rw [e2, toNat_shiftRight_32]; omega), e2, toNat_shiftRight_32, hhigh]

theorem mapIntoRangePortable_eq (x n : UInt64) :
    mapIntoRangePortable x n = mapIntoRangeInt128 x n := by
  apply UInt64.toNat_inj.mp
  rw [toNat_mapIntoRangePortable, mapIntoRangeInt128, UInt64.toNat_ofNat', Nat.shiftRight_eq_div_pow]
  exact (Nat.mod_eq_of_lt (Nat.div_lt_of_lt_mul (Nat.mul_lt_mul'' x.toNat_lt n.toNat_lt))).symm

/-! ## Building and reading a filter -/

section Filter

-- `CSipHasher(k0, k1).Write(data).Finalize()`, and the platform's choice of `MapIntoRange`
variable (SipHash : UInt64 → UInt64 → List UInt8 → UInt64) (int128 : Bool)

/-- `GCSFilter::HashToRange(element)` for a filter of range `m_F`. -/
def hashToRange (params : GCSParams) (m_F : UInt64) (element : List UInt8) : UInt64 :=
  mapIntoRange int128 (SipHash params.m_siphash_k0 params.m_siphash_k1 element) m_F

/-- `GCSFilter::BuildHashedSet(elements)`: the hashes, sorted. -/
def buildHashedSet (params : GCSParams) (m_F : UInt64) (elements : ElementSet) : List UInt64 :=
  (elements.elements.map (hashToRange SipHash int128 params m_F)).mergeSort
    fun a b => decide (a ≤ b)

/-- The loop of the constructor from a set: each value as the Golomb-Rice code
of its difference from the one before. -/
def encodeDeltas (P : UInt8) : UInt64 → List UInt64 → BitStreamWriter →
    Except String BitStreamWriter
  | _, [], w => .ok w
  | last_value, value :: values, w => do
    let w ← golombRiceEncode w P (value - last_value)
    encodeDeltas P value values w

/-- `GCSFilter(params, elements)`. -/
def GCSFilter.ofElements (params : GCSParams) (elements : ElementSet) :
    Except String GCSFilter :=
  let N := elements.elements.length
  let m_N := N.toUInt32
  if m_N.toNat ≠ N then .error "N must be <2^32"
  else
    let m_F := m_N.toUInt64 * params.m_M.toUInt64
    let encoded := writeCompactSize m_N.toNat
    if elements.elements = [] then .ok ⟨params, m_N, m_F, encoded⟩
    else do
      let w ← encodeDeltas params.m_P 0 (buildHashedSet SipHash int128 params m_F elements)
        (BitStreamWriter.init encoded)
      pure ⟨params, m_N, m_F, w.flush.out⟩

/-- The loop of the constructor from an encoding: decode `n` codes. -/
def decodeCount (P : UInt8) : Nat → BitStreamReader → Except String BitStreamReader
  | 0, r => .ok r
  | n + 1, r => do
    let (_, r) ← golombRiceDecode r P
    decodeCount P n r

/-- `GCSFilter(params, encoded_filter)`. -/
def GCSFilter.ofEncoded (params : GCSParams) (encoded_filter : List UInt8) :
    Except String GCSFilter := do
  let (N, stream) ← readCompactSize.run encoded_filter
  let m_N := N.toUInt32
  if m_N.toNat ≠ N then throw "N must be <2^32"
  let m_F := m_N.toUInt64 * params.m_M.toUInt64
  -- exactly `N` codes, and no byte after them
  let r ← decodeCount params.m_P m_N.toNat (BitStreamReader.init stream)
  if r.stream ≠ [] then throw "encoded_filter contains excess data"
  pure ⟨params, m_N, m_F, encoded_filter⟩

/-- The inner loop of `MatchInternal` at one value of the filter: skip the
queries below it.  `some b` is what `MatchInternal` returns; `none` goes on
with the next value and the queries not skipped. -/
def scanHashes (value : UInt64) : List UInt64 → Option Bool × List UInt64
  | [] => (some false, [])
  | h :: hs =>
    if h = value then (some true, h :: hs)
    else if h > value then (none, h :: hs)
    else scanHashes value hs

/-- The outer loop of `MatchInternal`: `n` more values to decode. -/
def matchLoop (P : UInt8) : Nat → UInt64 → List UInt64 → BitStreamReader → Except String Bool
  | 0, _, _, _ => .ok false
  | n + 1, value, hashes, r => do
    let (delta, r) ← golombRiceDecode r P
    let value := value + delta
    match scanHashes value hashes with
    | (some b, _) => .ok b
    | (none, hashes) => matchLoop P n value hashes r

/-- `GCSFilter::MatchInternal(element_hashes, size)` on sorted hashes. -/
def GCSFilter.matchInternal (f : GCSFilter) (element_hashes : List UInt64) :
    Except String Bool := do
  let (N, stream) ← readCompactSize.run f.m_encoded
  if N ≠ f.m_N.toNat then throw "assert(N == m_N)"
  matchLoop f.m_params.m_P f.m_N.toNat 0 element_hashes (BitStreamReader.init stream)

/-- `GCSFilter::Match(element)`. -/
def GCSFilter.match (f : GCSFilter) (element : List UInt8) : Except String Bool :=
  f.matchInternal [hashToRange SipHash int128 f.m_params f.m_F element]

/-- `GCSFilter::MatchAny(elements)`. -/
def GCSFilter.matchAny (f : GCSFilter) (elements : ElementSet) : Except String Bool :=
  f.matchInternal (buildHashedSet SipHash int128 f.m_params f.m_F elements)

end Filter

/-! ## The codes of the differences -/

/-- The bits the constructor writes for the sorted values after
`last_value`: the Golomb-Rice code of each difference. -/
def deltaBits (P : Nat) : UInt64 → List UInt64 → List Bool
  | _, [] => []
  | last_value, value :: values =>
    golombRiceBits P (value - last_value).toNat ++ deltaBits P value values

theorem encodeDeltas_spec {P : UInt8} (hP : P.toNat < 64) (values : List UInt64) :
    ∀ (last_value : UInt64) {w : BitStreamWriter}, w.WF →
      ∃ w', encodeDeltas P last_value values w = .ok w' ∧
        w'.bits = w.bits ++ deltaBits P.toNat last_value values ∧ w'.WF ∧ w.out <+: w'.out := by
  induction values with
  | nil => intro last_value w hw; exact ⟨w, rfl, by simp [deltaBits], hw, List.prefix_refl _⟩
  | cons value values ih =>
    intro last_value w hw
    obtain ⟨w₁, hrun₁, hbits₁, hwf₁, hpre₁⟩ := golombRiceEncode_spec hw hP (value - last_value)
    obtain ⟨w₂, hrun₂, hbits₂, hwf₂, hpre₂⟩ := ih value hwf₁
    refine ⟨w₂, ?_, ?_, hwf₂, hpre₁.trans hpre₂⟩
    · rw [encodeDeltas, hrun₁]
      exact hrun₂
    · rw [hbits₂, hbits₁, deltaBits, List.append_assoc]

theorem decodeCount_spec {P : UInt8} (hP : P.toNat < 64) (rest : List Bool) (values : List UInt64) :
    ∀ (last_value : UInt64) {r : BitStreamReader},
      r.bits = deltaBits P.toNat last_value values ++ rest →
      ∃ r', decodeCount P values.length r = .ok r' ∧ r'.bits = rest := by
  induction values with
  | nil => intro last_value r h; exact ⟨r, rfl, h⟩
  | cons value values ih =>
    intro last_value r h
    rw [deltaBits, List.append_assoc] at h
    obtain ⟨r₁, hrun₁, hbits₁⟩ := golombRiceDecode_spec hP (value - last_value) h
    obtain ⟨r₂, hrun₂, hbits₂⟩ := ih value hbits₁
    refine ⟨r₂, ?_, hbits₂⟩
    rw [List.length_cons, decodeCount, hrun₁]
    exact hrun₂

/-- A sorted query list holding some `x ≥ value` is not used up by the scan at
`value`: it stops at a query equal to `value`, or at one above it with `x`
among the queries left. -/
theorem scanHashes_spec {value x : UInt64} (hx : value ≤ x) {hashes : List UInt64}
    (sorted : hashes.Pairwise (· ≤ ·)) (member : x ∈ hashes) :
    (∃ rest, scanHashes value hashes = (some true, rest)) ∨
      ∃ rest, scanHashes value hashes = (none, rest) ∧ rest.Pairwise (· ≤ ·) ∧ x ∈ rest ∧
        value < x := by
  induction hashes with
  | nil => simp at member
  | cons h hs ih =>
    obtain ⟨head_le, tail_sorted⟩ := List.pairwise_cons.mp sorted
    rw [scanHashes]
    by_cases heq : h = value
    · exact .inl ⟨h :: hs, if_pos heq⟩
    rw [if_neg heq]
    by_cases hgt : h > value
    · refine .inr ⟨h :: hs, if_pos hgt, sorted, member, ?_⟩
      rcases List.mem_cons.mp member with rfl | hmem
      · exact hgt
      · exact UInt64.lt_of_lt_of_le hgt (head_le x hmem)
    rw [if_neg hgt]
    -- the skipped query is below `value ≤ x`, so `x` is further on
    have hne : x ≠ h := fun hxh => hgt (UInt64.lt_of_le_of_ne (hxh ▸ hx) (Ne.symm heq))
    exact ih tail_sorted ((List.mem_cons.mp member).resolve_left hne)

/-- `MatchInternal`'s loop finds a value of the filter that is also a query:
the decoded running sum is each value in turn, and the scan never passes a
common one. -/
theorem matchLoop_eq_true {P : UInt8} (hP : P.toNat < 64) (rest : List Bool) {x : UInt64}
    (values : List UInt64) (sorted : values.Pairwise (· ≤ ·)) (member : x ∈ values) :
    ∀ (value : UInt64) (hashes : List UInt64) {r : BitStreamReader},
      hashes.Pairwise (· ≤ ·) → x ∈ hashes → r.bits = deltaBits P.toNat value values ++ rest →
      matchLoop P values.length value hashes r = .ok true := by
  induction values with
  | nil => simp at member
  | cons v vs ih =>
    intro value hashes r hsorted hmem h
    obtain ⟨head_le, tail_sorted⟩ := List.pairwise_cons.mp sorted
    rw [deltaBits, List.append_assoc] at h
    obtain ⟨r₁, hrun₁, hbits₁⟩ := golombRiceDecode_spec hP (v - value) h
    -- `value += delta` gives back `v`, whatever wraps
    have hv : value + (v - value) = v := by grind
    have hvx : v ≤ x := by
      rcases List.mem_cons.mp member with rfl | hx
      · exact UInt64.le_rfl
      · exact head_le x hx
    rw [List.length_cons, matchLoop, hrun₁]
    simp only [bind, Except.bind, hv]
    rcases scanHashes_spec hvx hsorted hmem with ⟨rest', hscan⟩ | ⟨rest', hscan, hsorted', hmem', hlt⟩
    · rw [hscan]
    · rw [hscan]
      exact ih tail_sorted ((List.mem_cons.mp member).resolve_left (UInt64.ne_of_lt hlt).symm) v rest'
        hsorted' hmem' hbits₁

theorem toNat_toUInt32_of_le_MAX_SIZE {N : Nat} (hN : N ≤ MAX_SIZE) : N.toUInt32.toNat = N := by
  rw [Nat.toUInt32, UInt32.toNat_ofNat', Nat.mod_eq_of_lt (lt_of_le_of_lt hN (by decide))]

/-- The constructor from an encoding takes the CompactSize of `N ≤ MAX_SIZE`,
the codes of `N` values and less than a byte of padding. -/
theorem ofEncoded_spec {params : GCSParams} (hP : params.m_P.toNat < 64) {N : Nat}
    (hN : N ≤ MAX_SIZE) {values : List UInt64} (hlen : values.length = N) {body : List UInt8}
    {pad : List Bool} (hbody : bytesBits body = deltaBits params.m_P.toNat 0 values ++ pad)
    (hpad : pad.length < 8) :
    GCSFilter.ofEncoded params (writeCompactSize N ++ body) =
      .ok ⟨params, N.toUInt32, N.toUInt32.toUInt64 * params.m_M.toUInt64,
        writeCompactSize N ++ body⟩ := by
  obtain ⟨r, hrun, hbits⟩ := decodeCount_spec hP pad values 0
    (r := BitStreamReader.init body) (by rw [BitStreamReader.init_bits, hbody])
  -- what the codes leave is the padding, so the bytes are used up
  have hstream := BitStreamReader.stream_eq_nil_of_length_bits_lt (hbits ▸ hpad)
  unfold GCSFilter.ofEncoded
  rw [readCompactSize_writeCompactSize hN]
  simp only [bind, Except.bind]
  have hm_N := toNat_toUInt32_of_le_MAX_SIZE hN
  rw [if_neg (not_not.mpr hm_N), hm_N, ← hlen, hrun]
  dsimp only
  rw [if_neg (not_not.mpr hstream)]
  rfl

/-- `MatchInternal` on such an encoding finds sorted queries that share a value
with the sorted values coded. -/
theorem matchInternal_eq_true {params : GCSParams} (hP : params.m_P.toNat < 64) {N : Nat}
    (hN : N ≤ MAX_SIZE) {values : List UInt64} (hlen : values.length = N) {body : List UInt8}
    {pad : List Bool} (hbody : bytesBits body = deltaBits params.m_P.toNat 0 values ++ pad)
    (m_F : UInt64) (sorted : values.Pairwise (· ≤ ·)) {hashes : List UInt64}
    (hsorted : hashes.Pairwise (· ≤ ·)) {x : UInt64} (hx : x ∈ values) (hxh : x ∈ hashes) :
    GCSFilter.matchInternal ⟨params, N.toUInt32, m_F, writeCompactSize N ++ body⟩ hashes =
      .ok true := by
  unfold GCSFilter.matchInternal
  rw [readCompactSize_writeCompactSize hN]
  simp only [bind, Except.bind]
  rw [toNat_toUInt32_of_le_MAX_SIZE hN, if_neg (not_not.mpr rfl), ← hlen]
  exact matchLoop_eq_true hP pad values sorted hx 0 hashes hsorted hxh
    (by rw [BitStreamReader.init_bits, hbody])

section Filter

variable (SipHash : UInt64 → UInt64 → List UInt8 → UInt64) (int128 : Bool)

theorem length_buildHashedSet (params : GCSParams) (m_F : UInt64) (elements : ElementSet) :
    (buildHashedSet SipHash int128 params m_F elements).length = elements.elements.length := by
  rw [buildHashedSet, List.length_mergeSort, List.length_map]

theorem mem_buildHashedSet {params : GCSParams} {m_F : UInt64} {elements : ElementSet}
    {element : List UInt8} (h : element ∈ elements.elements) :
    hashToRange SipHash int128 params m_F element ∈
      buildHashedSet SipHash int128 params m_F elements := by
  rw [buildHashedSet, List.mem_mergeSort]
  exact List.mem_map_of_mem h

theorem sorted_buildHashedSet (params : GCSParams) (m_F : UInt64) (elements : ElementSet) :
    (buildHashedSet SipHash int128 params m_F elements).Pairwise (· ≤ ·) := by
  have h := @List.pairwise_mergeSort _ (fun a b : UInt64 => decide (a ≤ b))
    (fun a b c hab hbc => decide_eq_true
      (UInt64.le_trans (of_decide_eq_true hab) (of_decide_eq_true hbc)))
    (fun a b => by
      rcases UInt64.le_total a b with hab | hba
      · simp [hab]
      · simp [hba])
    (elements.elements.map (hashToRange SipHash int128 params m_F))
  exact h.imp of_decide_eq_true

/-- The constructor from a set writes the CompactSize of `N`, then bytes that
hold the codes of the sorted hashes' differences and fewer than eight zeros. -/
theorem ofElements_spec {params : GCSParams} (hP : params.m_P.toNat < 64) {elements : ElementSet}
    (hN : elements.elements.length < 2 ^ 32) :
    let N := elements.elements.length
    let m_F := N.toUInt32.toUInt64 * params.m_M.toUInt64
    ∃ body pad, GCSFilter.ofElements SipHash int128 params elements =
        .ok ⟨params, N.toUInt32, m_F, writeCompactSize N ++ body⟩ ∧
      bytesBits body =
        deltaBits params.m_P.toNat 0 (buildHashedSet SipHash int128 params m_F elements) ++ pad ∧
      pad.length < 8 := by
  intro N m_F
  have hm_N : elements.elements.length.toUInt32.toNat = elements.elements.length := by
    rw [Nat.toUInt32, UInt32.toNat_ofNat', Nat.mod_eq_of_lt hN]
  unfold GCSFilter.ofElements
  simp only [ne_eq]
  rw [if_neg (not_not.mpr hm_N), hm_N]
  by_cases hE : elements.elements = []
  · -- no element: the CompactSize alone
    refine ⟨[], [], ?_, ?_, by simp⟩
    · rw [if_pos hE, List.append_nil]
    · simp [buildHashedSet, hE, deltaBits]
  · obtain ⟨w, hrun, hbits, hwf, hpre⟩ := encodeDeltas_spec hP
      (buildHashedSet SipHash int128 params m_F elements) 0
      (BitStreamWriter.init_wf (writeCompactSize N))
    obtain ⟨hfbits, hfoff, hfpre⟩ := BitStreamWriter.flush_spec hwf
    obtain ⟨body, hbody⟩ := hpre.trans hfpre
    refine ⟨body, List.replicate ((8 - w.m_offset) % 8) false, ?_, ?_, ?_⟩
    · rw [if_neg hE, hrun]
      simp only [bind, Except.bind, pure, Except.pure]
      rw [← hbody]
      rfl
    · have hout := BitStreamWriter.bits_of_offset_eq_zero hfoff
      rw [hfbits, hbits, BitStreamWriter.init_bits, ← hbody, bytesBits_append,
        List.append_assoc] at hout
      exact (List.append_cancel_left hout).symm
    · rw [List.length_replicate]
      exact Nat.mod_lt _ (by norm_num)

end Filter

/-! ## Round trip and no false negatives -/

theorem gcsFilter_roundtrip_no_false_negatives
    (SipHash : UInt64 → UInt64 → List UInt8 → UInt64) (int128 : Bool) {params : GCSParams}
    (hP : params.m_P.toNat ≤ 32) {elements : ElementSet}
    (hN : elements.elements.length ≤ MAX_SIZE) :
    ∃ f, GCSFilter.ofElements SipHash int128 params elements = .ok f ∧
      GCSFilter.ofEncoded params f.m_encoded = .ok f ∧
      (∀ e ∈ elements.elements, f.match SipHash int128 e = .ok true) ∧
      ∀ Q : ElementSet, (∃ e ∈ Q.elements, e ∈ elements.elements) →
        f.matchAny SipHash int128 Q = .ok true := by
  have hP64 : params.m_P.toNat < 64 := by omega
  obtain ⟨body, pad, hrun, hbody, hpad⟩ :=
    ofElements_spec SipHash int128 hP64 (lt_of_le_of_lt hN (by decide))
  have hlen := length_buildHashedSet SipHash int128 params
    (elements.elements.length.toUInt32.toUInt64 * params.m_M.toUInt64) elements
  have sorted := sorted_buildHashedSet SipHash int128 params
    (elements.elements.length.toUInt32.toUInt64 * params.m_M.toUInt64) elements
  refine ⟨_, hrun, ofEncoded_spec hP64 hN hlen hbody hpad, ?_, ?_⟩
  · -- `Match`: the one query is the hash of an element
    intro e he
    exact matchInternal_eq_true hP64 hN hlen hbody _ sorted (List.pairwise_singleton _ _)
      (mem_buildHashedSet SipHash int128 he) (List.mem_singleton_self _)
  · -- `MatchAny`: a common element gives a common hash
    rintro Q ⟨e, heQ, heE⟩
    exact matchInternal_eq_true hP64 hN hlen hbody _ sorted
      (sorted_buildHashedSet SipHash int128 _ _ Q)
      (mem_buildHashedSet SipHash int128 heE) (mem_buildHashedSet SipHash int128 heQ)

/-- The runs of zero bytes of lengths `0` to `n - 1`: `n` distinct elements. -/
def zeroRuns (n : Nat) : ElementSet :=
  ⟨(List.range n).map fun i => List.replicate i 0,
    List.nodup_range.map fun i j h => by simpa using congrArg List.length h⟩

theorem gcsFilter_roundtrip_no_false_negatives_basic :
    (⟨0, 0, 19, 784931⟩ : GCSParams).m_P.toNat ≤ 32 ∧ (zeroRuns 2).elements.length ≤ MAX_SIZE ∧
      ∃ f, GCSFilter.ofElements (fun _ _ _ => 0) true ⟨0, 0, 19, 784931⟩ (zeroRuns 2) = .ok f ∧
        GCSFilter.ofEncoded ⟨0, 0, 19, 784931⟩ f.m_encoded = .ok f ∧
        (∀ e ∈ (zeroRuns 2).elements, f.match (fun _ _ _ => 0) true e = .ok true) ∧
        ∀ Q : ElementSet, (∃ e ∈ Q.elements, e ∈ (zeroRuns 2).elements) →
          f.matchAny (fun _ _ _ => 0) true Q = .ok true :=
  ⟨by decide, by decide,
    gcsFilter_roundtrip_no_false_negatives (fun _ _ _ => 0) true (by decide) (by decide)⟩

/-- A set of `MAX_SIZE + 1` elements, fewer than `2^32`: the constructor encodes
it, but `ReadCompactSize` refuses its count, so neither the constructor from
the encoding nor `Match` of one of its elements returns. -/
theorem gcsFilter_size_too_large :
    ∃ f, GCSFilter.ofElements (fun _ _ _ => 0) true ⟨0, 0, 0, 1⟩ (zeroRuns (MAX_SIZE + 1)) =
        .ok f ∧
      (zeroRuns (MAX_SIZE + 1)).elements.length = MAX_SIZE + 1 ∧
      [] ∈ (zeroRuns (MAX_SIZE + 1)).elements ∧
      GCSFilter.ofEncoded ⟨0, 0, 0, 1⟩ f.m_encoded = .error "ReadCompactSize(): size too large" ∧
      f.match (fun _ _ _ => 0) true [] = .error "ReadCompactSize(): size too large" := by
  have hlen : (zeroRuns (MAX_SIZE + 1)).elements.length = MAX_SIZE + 1 := by simp [zeroRuns]
  obtain ⟨body, pad, hrun, -, -⟩ := ofElements_spec (fun _ _ _ => 0) true
    (show (⟨0, 0, 0, 1⟩ : GCSParams).m_P.toNat < 64 by decide)
    (show (zeroRuns (MAX_SIZE + 1)).elements.length < 2 ^ 32 by rw [hlen]; decide)
  have hread : readCompactSize.run
      (writeCompactSize (zeroRuns (MAX_SIZE + 1)).elements.length ++ body) =
        .error "ReadCompactSize(): size too large" := by
    rw [readCompactSize_writeCompactSize_of_lt (by rw [hlen]; decide), hlen]
    unfold checkMaxSize
    rw [if_pos (by decide)]
    rfl
  refine ⟨_, hrun, hlen, by simp [zeroRuns], ?_, ?_⟩
  · unfold GCSFilter.ofEncoded
    rw [hread]
    rfl
  · unfold GCSFilter.match GCSFilter.matchInternal
    rw [hread]
    rfl

/-! ## The same filter on every platform -/

theorem mapIntoRange_eq_int128 (int128 : Bool) : mapIntoRange int128 = mapIntoRangeInt128 := by
  funext x n
  cases int128
  · exact mapIntoRangePortable_eq x n
  · rfl

theorem hashToRange_eq_int128 (SipHash : UInt64 → UInt64 → List UInt8 → UInt64) (int128 : Bool) :
    hashToRange SipHash int128 = hashToRange SipHash true := by
  funext params m_F element
  simp only [hashToRange, mapIntoRange_eq_int128]

theorem mapIntoRange_portable_correct :
    (∀ x n : UInt64, (mapIntoRangePortable x n).toNat = x.toNat * n.toNat / 2 ^ 64 ∧
      mapIntoRange false x n = mapIntoRange true x n) ∧
    ∀ (SipHash : UInt64 → UInt64 → List UInt8 → UInt64) (params : GCSParams)
      (elements : ElementSet),
      GCSFilter.ofElements SipHash false params elements =
        GCSFilter.ofElements SipHash true params elements := by
  refine ⟨fun x n => ⟨toNat_mapIntoRangePortable x n, ?_⟩, fun SipHash params elements => ?_⟩
  · rw [mapIntoRange_eq_int128, mapIntoRange_eq_int128]
  · unfold GCSFilter.ofElements buildHashedSet
    rw [hashToRange_eq_int128 SipHash false]

end Veribase
