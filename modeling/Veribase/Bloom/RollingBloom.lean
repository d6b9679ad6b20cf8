import Mathlib.Data.Nat.Bitwise
import Mathlib.Analysis.SpecialFunctions.Log.Basic
import Mathlib.Algebra.Order.Round

/-!
# The rolling bloom filter

`CRollingBloomFilter` (`bloom.cpp`) remembers the keys of the current
generation and of the two before it.  Each cell of the filter is two bits, one
in each word of a pair of `data`; a key sets its cells, one per hash function,
to the label of its generation, `1`, `2` or `3` in turn.  When a generation
is full the next one begins, and the cells that hold its label, written three
generations ago, are wiped.

The vector is read through `cellLabel`, the label of one cell.  Against it,
each loop of the source does one thing: `setCell_spec` and `setCells_spec`
write the label into a key's cells and leave every other cell, `wipe_spec`
clears exactly the cells of one label, and `containsLoop_spec` answers whether
all of a key's cells are set.  Every index stays in the vector when its size
is even, positive and below `2^32` (`toNat_fastMod_lt`, `toNat_and_not_one`,
`toNat_or_one`).  The constructor's floating-point lines are inputs of `init`;
`ofRate` reads them over the reals.
-/

namespace Veribase

/-- `CRollingBloomFilter`. -/
structure CRollingBloomFilter where
  nEntriesPerGeneration : Nat
  nEntriesThisGeneration : Nat
  /-- `nGeneration`: the label of the current generation. -/
  nGeneration : Nat
  /-- `data`: cell `P` is bit `P & 63` of `data[(P >> 6) * 2]` and of
  `data[(P >> 6) * 2 + 1]`. -/
  data : List UInt64
  nTweak : UInt32
  nHashFuncs : Nat
deriving DecidableEq

/-- `FastMod(x, n)`: `x * n / 2^32`, a replacement for `x % n`. -/
def fastMod (x : UInt32) (n : Nat) : UInt32 := ((x.toUInt64 * n.toUInt64) >>> 32).toUInt32

/-- The wipe loop of `insert`, over the words of `data` in pairs: clear the
cells whose two bits are those of the masks. -/
def wipe (nGenerationMask1 nGenerationMask2 : UInt64) : List UInt64 → Option (List UInt64)
  | [] => some []
  -- `data[p + 1]` past the end
  | [_] => none
  | p1 :: p2 :: rest => do
    let mask := (p1 ^^^ nGenerationMask1) ||| (p2 ^^^ nGenerationMask2)
    let rest ← wipe nGenerationMask1 nGenerationMask2 rest
    pure ((p1 &&& mask) :: (p2 &&& mask) :: rest)

namespace CRollingBloomFilter

/-- `reset()`, with `nTweak` the random value it draws. -/
def reset (f : CRollingBloomFilter) (nTweak : UInt32) : CRollingBloomFilter :=
  { f with
    nTweak := nTweak, nEntriesThisGeneration := 0, nGeneration := 1,
    data := List.replicate f.data.length 0 }

/-- `CRollingBloomFilter(nElements, fpRate)`, given the two values its
floating-point lines compute, `nHashFuncs` and `nFilterBits`, and the tweak
`reset` draws. -/
def init (nElements : UInt32) (nHashFuncs : Nat) (nFilterBits : UInt32) (nTweak : UInt32) :
    CRollingBloomFilter :=
  let nEntriesPerGeneration := ((nElements + 1) / 2).toNat
  let data := List.replicate (((nFilterBits + 63) / 64) <<< 1).toNat 0
  reset ⟨nEntriesPerGeneration, 0, 0, data, 0, nHashFuncs⟩ nTweak

/-- The generation change at the top of `insert`: the next label, and the
cells that hold it wiped. -/
def nextGeneration (f : CRollingBloomFilter) : Option CRollingBloomFilter := do
  let nGeneration := if f.nGeneration + 1 = 4 then 1 else f.nGeneration + 1
  let nGenerationMask1 := (0 : UInt64) - (nGeneration &&& 1).toUInt64
  let nGenerationMask2 := (0 : UInt64) - (nGeneration >>> 1).toUInt64
  let data ← wipe nGenerationMask1 nGenerationMask2 f.data
  pure { f with nEntriesThisGeneration := 0, nGeneration := nGeneration, data := data }

end CRollingBloomFilter

section Hash

-- `MurmurHash3(nHashSeed, vDataToHash)`
variable (MurmurHash3 : UInt32 → List UInt8 → UInt32)

/-- `RollingBloomHash(nHashNum, nTweak, vDataToHash)`. -/
def rollingBloomHash (nHashNum nTweak : UInt32) (vDataToHash : List UInt8) : UInt32 :=
  MurmurHash3 (nHashNum * 0xFBA4C795 + nTweak) vDataToHash

/-- One turn of the hash loop of `insert`: the key's cell for hash `h` set to
the label `nGeneration`, its low bit in `data[pos & ~1]` and its high bit in
`data[pos | 1]`.  `none` where the source indexes past the end of `data`. -/
def setCell (nGeneration : Nat) (data : List UInt64) (h : UInt32) : Option (List UInt64) := do
  let bit := (h &&& 0x3F).toUInt64
  let pos := fastMod h data.length
  let w ← data[(pos &&& ~~~1).toNat]?
  let data := data.set (pos &&& ~~~1).toNat
    ((w &&& ~~~((1 : UInt64) <<< bit)) ||| (nGeneration &&& 1).toUInt64 <<< bit)
  let w ← data[(pos ||| 1).toNat]?
  pure (data.set (pos ||| 1).toNat
    ((w &&& ~~~((1 : UInt64) <<< bit)) ||| (nGeneration >>> 1).toUInt64 <<< bit))

/-- The hash loop of `insert`, over the hash numbers `ns`. -/
def setCells (nGeneration : Nat) (nTweak : UInt32) (vKey : List UInt8) :
    List Nat → List UInt64 → Option (List UInt64)
  | [], data => some data
  | n :: ns, data => do
    let data ← setCell nGeneration data (rollingBloomHash MurmurHash3 n.toUInt32 nTweak vKey)
    setCells nGeneration nTweak vKey ns data

namespace CRollingBloomFilter

/-- `insert(vKey)`. -/
def insert (f : CRollingBloomFilter) (vKey : List UInt8) : Option CRollingBloomFilter := do
  let f ← if f.nEntriesThisGeneration = f.nEntriesPerGeneration then f.nextGeneration
    else pure f
  let f := { f with nEntriesThisGeneration := f.nEntriesThisGeneration + 1 }
  let data ← setCells MurmurHash3 f.nGeneration f.nTweak vKey (List.range f.nHashFuncs) f.data
  pure { f with data := data }

/-- The loop of `contains(vKey)` over the hash numbers `ns`. -/
def containsLoop (f : CRollingBloomFilter) (vKey : List UInt8) : List Nat → Option Bool
  | [] => some true
  | n :: ns => do
    let h := rollingBloomHash MurmurHash3 n.toUInt32 f.nTweak vKey
    let bit := (h &&& 0x3F).toUInt64
    let pos := fastMod h f.data.length
    let w₁ ← f.data[(pos &&& ~~~1).toNat]?
    let w₂ ← f.data[(pos ||| 1).toNat]?
    if ((w₁ ||| w₂) >>> bit) &&& 1 = 0 then some false else containsLoop f vKey ns

/-- `contains(vKey)`. -/
def contains (f : CRollingBloomFilter) (vKey : List UInt8) : Option Bool :=
  containsLoop MurmurHash3 f vKey (List.range f.nHashFuncs)

/-- A sequence of `insert` calls. -/
def insertAll (f : CRollingBloomFilter) : List (List UInt8) → Option CRollingBloomFilter
  | [] => some f
  | vKey :: keys => do
    let f ← f.insert MurmurHash3 vKey
    f.insertAll keys

end CRollingBloomFilter

end Hash

/-! ## The floating-point lines of the constructor, over the reals -/

/-- `nHashFuncs` as the constructor computes it: `log(fpRate) / log(0.5)`,
rounded and kept within `1` to `50`. -/
noncomputable def rollingHashFuncs (fpRate : ℝ) : ℤ :=
  max 1 (min (round (Real.log fpRate / Real.log 0.5)) 50)

/-- `nFilterBits` as the constructor computes it, before the cast to
`uint32_t`. -/
noncomputable def rollingFilterBits (nHashFuncs : ℤ) (nMaxElements : UInt32) (fpRate : ℝ) : ℕ :=
  ⌈-1 * nHashFuncs * nMaxElements.toNat /
    Real.log (1 - Real.exp (Real.log fpRate / nHashFuncs))⌉₊

/-- `CRollingBloomFilter(nElements, fpRate)` with its floating-point lines
read over the reals. -/
noncomputable def CRollingBloomFilter.ofRate (nElements : UInt32) (fpRate : ℝ)
    (nTweak : UInt32) : CRollingBloomFilter :=
  let nHashFuncs := rollingHashFuncs fpRate
  let nEntriesPerGeneration := (nElements + 1) / 2
  let nMaxElements := nEntriesPerGeneration * 3
  init nElements nHashFuncs.toNat (rollingFilterBits nHashFuncs nMaxElements fpRate).toUInt32 nTweak

/-! ## Cells -/

/-- The label of cell `b` of the word pair `w`: its bit in `data[2w]`, and
twice its bit in `data[2w + 1]`. -/
def cellLabel (data : List UInt64) (w b : Nat) : Nat :=
  ((data.getD (2 * w) 0).toNat.testBit b).toNat + 2 * ((data.getD (2 * w + 1) 0).toNat.testBit b).toNat

/-- The cell a hash picks in `data` of `size` words: the pair `pos / 2` and the
bit `h & 63`. -/
def cellOf (size : Nat) (h : UInt32) : Nat × Nat :=
  ((fastMod h size).toNat / 2, (h &&& 0x3F).toNat)

theorem cellLabel_cons_cons_zero (p₁ p₂ : UInt64) (rest : List UInt64) (b : Nat) :
    cellLabel (p₁ :: p₂ :: rest) 0 b = (p₁.toNat.testBit b).toNat + 2 * (p₂.toNat.testBit b).toNat := rfl

theorem cellLabel_cons_cons_succ (p₁ p₂ : UInt64) (rest : List UInt64) (w b : Nat) :
    cellLabel (p₁ :: p₂ :: rest) (w + 1) b = cellLabel rest w b := by
  simp only [cellLabel, show 2 * (w + 1) = 2 * w + 2 by ring, List.getD_cons_succ]

theorem snd_cellOf_lt (size : Nat) (h : UInt32) : (cellOf size h).2 < 64 := by
  rw [cellOf, UInt32.toNat_and, show (0x3F : UInt32).toNat = 2 ^ 6 - 1 from rfl,
    Nat.and_two_pow_sub_one_eq_mod]
  exact Nat.mod_lt _ (by norm_num)

/-- `FastMod` lands in range for a vector of fewer than `2^32` words. -/
theorem toNat_fastMod_lt (h : UInt32) {n : Nat} (hn : 0 < n) (hn32 : n < 2 ^ 32) :
    (fastMod h n).toNat < n := by
  have hh := h.toNat_lt
  have hprod : h.toNat * n < 2 ^ 32 * n := Nat.mul_lt_mul_of_pos_right hh hn
  have hwide : h.toNat * n < 2 ^ 64 :=
    calc h.toNat * n < 2 ^ 32 * n := hprod
      _ ≤ 2 ^ 32 * 2 ^ 32 := Nat.mul_le_mul_left _ hn32.le
      _ = 2 ^ 64 := by norm_num
  have hhigh : h.toNat * n / 2 ^ 32 < n := Nat.div_lt_of_lt_mul hprod
  rw [fastMod, UInt64.toNat_toUInt32, UInt64.toNat_shiftRight, UInt64.toNat_mul,
    UInt32.toNat_toUInt64, Nat.toUInt64_eq, UInt64.toNat_ofNat',
    Nat.mod_eq_of_lt (show n < 2 ^ 64 by omega), Nat.mod_eq_of_lt hwide,
    show (32 : UInt64).toNat % 64 = 32 from rfl, Nat.shiftRight_eq_div_pow,
    Nat.mod_eq_of_lt (show h.toNat * n / 2 ^ 32 < 2 ^ 32 by omega)]
  exact hhigh

/-- Bit `b` of a word after bit `bit` is cleared and set to `v`. -/
theorem testBit_writeBit (w bit : UInt64) (hbit : bit.toNat < 64) {b : Nat} (hb : b < 64) {v : Nat}
    (hv : v < 2) :
    ((w &&& ~~~((1 : UInt64) <<< bit)) ||| v.toUInt64 <<< bit).toNat.testBit b =
      if b = bit.toNat then decide (v = 1) else w.toNat.testBit b := by
  change BitVec.getLsbD _ b = if b = bit.toNat then decide (v = 1) else BitVec.getLsbD _ b
  simp [UInt64.toBitVec_or, UInt64.toBitVec_and, UInt64.toBitVec_not, UInt64.toBitVec_shiftLeft, hb,
    Nat.mod_eq_of_lt hbit]
  by_cases hbb : b = bit.toNat
  · subst hbb
    obtain rfl | rfl : v = 0 ∨ v = 1 := by omega
    · simp
    · simp
  · have hsub : (b - bit.toNat = 0) = (b < bit.toNat) := by apply propext; omega
    obtain rfl | rfl : v = 0 ∨ v = 1 := by omega
    · simp [hbb, hsub]
    · by_cases h : b < bit.toNat
      · simp [hbb, hsub, h]
      · simp [hbb, hsub, h]

/-- `pos & ~1`, the first word of the pair. -/
theorem toNat_and_not_one (pos : UInt32) : (pos &&& ~~~1).toNat = 2 * (pos.toNat / 2) := by
  apply Nat.eq_of_testBit_eq
  intro i
  have hnot : (~~~(1 : UInt32)).toNat = 2 ^ 32 - (1 + 1) := rfl
  rw [UInt32.toNat_and, Nat.testBit_and, hnot, Nat.testBit_two_pow_sub_succ (by norm_num),
    show 2 * (pos.toNat / 2) = pos.toNat / 2 * 2 ^ 1 by ring, Nat.testBit_mul_two_pow]
  rcases i with _ | i
  · simp
  · have hone : Nat.testBit 1 (i + 1) = false :=
      Nat.testBit_lt_two_pow (Nat.one_lt_two_pow (by omega))
    rw [Nat.add_sub_cancel, Nat.testBit_div_two]
    by_cases hi : i + 1 < 32
    · simp [hi, hone]
    · have hhigh : pos.toNat.testBit (i + 1) = false := Nat.testBit_lt_two_pow
        (lt_of_lt_of_le pos.toNat_lt (Nat.pow_le_pow_right (by norm_num) (by omega)))
      simp [hi, hhigh]

/-- `pos | 1`, the second word of the pair. -/
theorem toNat_or_one (pos : UInt32) : (pos ||| 1).toNat = 2 * (pos.toNat / 2) + 1 := by
  apply Nat.eq_of_testBit_eq
  intro i
  rw [UInt32.toNat_or, Nat.testBit_or, show 2 * (pos.toNat / 2) + 1 = 2 ^ 1 * (pos.toNat / 2) + 1 by ring,
    Nat.testBit_two_pow_mul_add _ (by norm_num)]
  rcases i with _ | i
  · simp
  · have hone : Nat.testBit 1 (i + 1) = false :=
      Nat.testBit_lt_two_pow (Nat.one_lt_two_pow (by omega))
    simp [Nat.testBit_div_two, hone]

theorem getD_set_of_lt {l : List UInt64} {i : Nat} (x : UInt64) (hi : i < l.length) (j : Nat) :
    (l.set i x).getD j 0 = if j = i then x else l.getD j 0 := by
  rw [List.getD_eq_getElem?_getD, List.getElem?_set, List.getD_eq_getElem?_getD]
  by_cases hji : j = i
  · subst hji
    simp [hi]
  · simp [Ne.symm hji, hji]

/-- The low and high bits of a label below `4`. -/
theorem label_bits {g : Nat} (hg : g < 4) :
    (decide (g &&& 1 = 1)).toNat + 2 * (decide (g >>> 1 = 1)).toNat = g := by
  rcases (by omega : g = 0 ∨ g = 1 ∨ g = 2 ∨ g = 3) with rfl | rfl | rfl | rfl <;> rfl

/-- `setCell` writes the label `g` into the hash's cell and leaves every other
cell as it was. -/
theorem setCell_spec {g : Nat} (hg : g < 4) {data : List UInt64} (heven : data.length % 2 = 0)
    (hpos : 0 < data.length) (h32 : data.length < 2 ^ 32) (h : UInt32) :
    ∃ data', setCell g data h = some data' ∧ data'.length = data.length ∧
      ∀ w b, b < 64 → cellLabel data' w b =
        if (w, b) = cellOf data.length h then g else cellLabel data w b := by
  have hlt := toNat_fastMod_lt h hpos h32
  have hi := toNat_and_not_one (fastMod h data.length)
  have hj := toNat_or_one (fastMod h data.length)
  -- both words of the pair are in `data`, as its length is even
  have hj_lt : 2 * ((fastMod h data.length).toNat / 2) + 1 < data.length := by omega
  unfold setCell
  dsimp only
  rw [hi, hj]
  generalize hI : 2 * ((fastMod h data.length).toNat / 2) = I at hj_lt ⊢
  rw [List.getElem?_eq_getElem (show I < data.length by omega)]
  simp only [Option.bind_eq_bind, Option.bind_some]
  rw [List.getElem?_set_ne (by omega), List.getElem?_eq_getElem hj_lt]
  refine ⟨_, rfl, by rw [List.length_set, List.length_set], ?_⟩
  intro w b hb
  have hbit : (h &&& 0x3F).toUInt64.toNat < 64 := by
    rw [UInt32.toNat_toUInt64]
    exact snd_cellOf_lt data.length h
  rw [cellLabel, getD_set_of_lt _ (by rw [List.length_set]; exact hj_lt),
    getD_set_of_lt _ (by omega), getD_set_of_lt _ (by rw [List.length_set]; exact hj_lt),
    getD_set_of_lt _ (by omega)]
  simp only [cellOf, Prod.mk.injEq]
  rw [← UInt32.toNat_toUInt64 (h &&& 0x3F)]
  by_cases hw : w = (fastMod h data.length).toNat / 2
  · -- the pair written: both bits of the cell from the label
    have h2w : 2 * w = I := by omega
    rw [if_neg (by omega), if_pos h2w, if_pos (by omega),
      testBit_writeBit _ _ hbit hb (Nat.and_lt_two_pow g (n := 1) (by norm_num)),
      testBit_writeBit _ _ hbit hb (show g >>> 1 < 2 by rw [Nat.shiftRight_eq_div_pow]; omega)]
    by_cases hbb : b = (h &&& 0x3F).toUInt64.toNat
    · rw [if_pos hbb, if_pos hbb, if_pos ⟨hw, hbb⟩, label_bits hg]
    · rw [if_neg hbb, if_neg hbb, if_neg (fun hc => hbb hc.2), cellLabel, List.getD_eq_getElem _ _ (by omega),
        List.getD_eq_getElem _ _ (by omega)]
      simp only [h2w]
  · -- another pair: untouched
    rw [if_neg (by omega), if_neg (by omega), if_neg (by omega), if_neg (by omega),
      if_neg (fun hc => hw hc.1), cellLabel]

/-- Bit `b` of the mask `0 - v` for a bit `v`. -/
theorem testBit_zero_sub {v : Nat} (hv : v < 2) {b : Nat} (hb : b < 64) :
    ((0 : UInt64) - v.toUInt64).toNat.testBit b = decide (v = 1) := by
  obtain rfl | rfl : v = 0 ∨ v = 1 := by omega
  · simp
  · have hones : ((0 : UInt64) - (1 : Nat).toUInt64).toNat = 2 ^ 64 - 1 := rfl
    rw [hones, Nat.testBit_two_pow_sub_one]
    simp [hb]

/-- One cell under the wipe mask: cleared if it holds the label `g`, kept
otherwise. -/
theorem wipe_bits (lo hi : Bool) {g : Nat} (hg : g < 4) :
    (lo && (lo ^^ decide (g &&& 1 = 1) || hi ^^ decide (g >>> 1 = 1))).toNat +
        2 * (hi && (lo ^^ decide (g &&& 1 = 1) || hi ^^ decide (g >>> 1 = 1))).toNat =
      if lo.toNat + 2 * hi.toNat = g then 0 else lo.toNat + 2 * hi.toNat := by
  rcases (by omega : g = 0 ∨ g = 1 ∨ g = 2 ∨ g = 3) with rfl | rfl | rfl | rfl <;>
    cases lo <;> cases hi <;> rfl

/-- The wipe loop clears exactly the cells labelled `g`. -/
theorem wipe_spec {g : Nat} (hg : g < 4) : ∀ (data : List UInt64), data.length % 2 = 0 →
    ∃ data', wipe ((0 : UInt64) - (g &&& 1).toUInt64) ((0 : UInt64) - (g >>> 1).toUInt64) data =
        some data' ∧ data'.length = data.length ∧
      ∀ w b, b < 64 → cellLabel data' w b = if cellLabel data w b = g then 0 else cellLabel data w b
  | [], _ => ⟨[], rfl, rfl, fun w b _ => by simp [cellLabel]⟩
  | [_], h => by simp at h
  | p₁ :: p₂ :: rest, h => by
    obtain ⟨rest', hrun, hlen, hcell⟩ := wipe_spec hg rest
      (by rw [List.length_cons, List.length_cons] at h; omega)
    refine ⟨_, by rw [wipe, hrun]; rfl, by simp [hlen], ?_⟩
    intro w b hb
    cases w with
    | zero =>
      have hlo : g &&& 1 < 2 := Nat.lt_succ_of_le Nat.and_le_right
      have hhi : g >>> 1 < 2 := by rw [Nat.shiftRight_eq_div_pow]; omega
      rw [cellLabel_cons_cons_zero, cellLabel_cons_cons_zero]
      simp only [UInt64.toNat_and, UInt64.toNat_or, UInt64.toNat_xor, Nat.testBit_and,
        Nat.testBit_or, Nat.testBit_xor, testBit_zero_sub hlo hb, testBit_zero_sub hhi hb]
      exact wipe_bits _ _ hg
    | succ w => rw [cellLabel_cons_cons_succ, cellLabel_cons_cons_succ, hcell w b hb]

/-- A word's bit `bit`, as `contains` tests it. -/
theorem shiftRight_and_one_eq_zero (x bit : UInt64) (hbit : bit.toNat < 64) :
    (x >>> bit) &&& 1 = 0 ↔ x.toNat.testBit bit.toNat = false := by
  rw [← UInt64.toNat_inj, UInt64.toNat_and, UInt64.toNat_shiftRight, Nat.mod_eq_of_lt hbit,
    show (1 : UInt64).toNat = 2 ^ 1 - 1 from rfl, Nat.and_two_pow_sub_one_eq_mod,
    Nat.shiftRight_eq_div_pow, Nat.testBit_eq_decide_div_mod_eq, UInt64.toNat_zero]
  have := Nat.mod_lt (x.toNat / 2 ^ bit.toNat) (show 0 < 2 by norm_num)
  simp only [pow_one, decide_eq_false_iff_not]
  omega

/-- A cell is unset when neither of its bits is. -/
theorem cellLabel_eq_zero_iff (data : List UInt64) (w b : Nat) :
    cellLabel data w b = 0 ↔ (data.getD (2 * w) 0 ||| data.getD (2 * w + 1) 0).toNat.testBit b = false := by
  rw [cellLabel, UInt64.toNat_or, Nat.testBit_or]
  cases (data.getD (2 * w) 0).toNat.testBit b <;> cases (data.getD (2 * w + 1) 0).toNat.testBit b <;>
    simp

section Hash

variable (MurmurHash3 : UInt32 → List UInt8 → UInt32)

/-- The cell that hash function `n` picks for a key. -/
def keyCell (size : Nat) (nTweak : UInt32) (vKey : List UInt8) (n : Nat) : Nat × Nat :=
  cellOf size (rollingBloomHash MurmurHash3 n.toUInt32 nTweak vKey)

theorem snd_keyCell_lt (size : Nat) (nTweak : UInt32) (vKey : List UInt8) (n : Nat) :
    (keyCell MurmurHash3 size nTweak vKey n).2 < 64 :=
  snd_cellOf_lt _ _

/-- The hash loop of `insert` writes the label into the key's cells and leaves
the others. -/
theorem setCells_spec {g : Nat} (hg : g < 4) (nTweak : UInt32) (vKey : List UInt8) :
    ∀ (ns : List Nat) {data : List UInt64}, data.length % 2 = 0 → 0 < data.length →
      data.length < 2 ^ 32 →
      ∃ data', setCells MurmurHash3 g nTweak vKey ns data = some data' ∧
        data'.length = data.length ∧
        ∀ w b, b < 64 → cellLabel data' w b =
          if ∃ n ∈ ns, (w, b) = keyCell MurmurHash3 data.length nTweak vKey n then g
          else cellLabel data w b
  | [], data, _, _, _ => ⟨data, rfl, rfl, fun w b _ => by simp⟩
  | n :: ns, data, heven, hpos, h32 => by
    obtain ⟨data₁, hrun₁, hlen₁, hcell₁⟩ := setCell_spec hg heven hpos h32
      (rollingBloomHash MurmurHash3 n.toUInt32 nTweak vKey)
    obtain ⟨data₂, hrun₂, hlen₂, hcell₂⟩ := setCells_spec hg nTweak vKey ns
      (hlen₁ ▸ heven) (hlen₁ ▸ hpos) (hlen₁ ▸ h32)
    refine ⟨data₂, by rw [setCells, hrun₁]; exact hrun₂, hlen₂.trans hlen₁, ?_⟩
    intro w b hb
    have hcell₁' : cellLabel data₁ w b =
        if (w, b) = keyCell MurmurHash3 data.length nTweak vKey n then g else cellLabel data w b :=
      hcell₁ w b hb
    rw [hcell₂ w b hb, hcell₁', hlen₁]
    by_cases htail : ∃ m ∈ ns, (w, b) = keyCell MurmurHash3 data.length nTweak vKey m
    · obtain ⟨m, hm, hc⟩ := htail
      rw [if_pos ⟨m, hm, hc⟩, if_pos ⟨m, List.mem_cons_of_mem _ hm, hc⟩]
    · rw [if_neg htail]
      by_cases hhead : (w, b) = keyCell MurmurHash3 data.length nTweak vKey n
      · rw [if_pos hhead, if_pos ⟨n, List.mem_cons_self, hhead⟩]
      · rw [if_neg hhead, if_neg]
        rintro ⟨m, hm, hc⟩
        rcases List.mem_cons.mp hm with rfl | hm
        · exact hhead hc
        · exact htail ⟨m, hm, hc⟩

/-- On an empty `data` the first hash already indexes past its end. -/
theorem setCells_nil_data (g : Nat) (nTweak : UInt32) (vKey : List UInt8) :
    ∀ {ns : List Nat}, ns ≠ [] → setCells MurmurHash3 g nTweak vKey ns [] = none
  | [], h => absurd rfl h
  | _ :: _, _ => rfl

theorem containsLoop_nil_data {f : CRollingBloomFilter} (hdata : f.data = []) (vKey : List UInt8) :
    ∀ {ns : List Nat}, ns ≠ [] → f.containsLoop MurmurHash3 vKey ns = none
  | [], h => absurd rfl h
  | _ :: _, _ => by
    rw [CRollingBloomFilter.containsLoop, hdata]
    rfl

/-- `contains` answers whether every cell of the key is set. -/
theorem containsLoop_spec (f : CRollingBloomFilter) (heven : f.data.length % 2 = 0)
    (hpos : 0 < f.data.length) (h32 : f.data.length < 2 ^ 32) (vKey : List UInt8) :
    ∀ ns : List Nat, f.containsLoop MurmurHash3 vKey ns =
      some (decide (∀ n ∈ ns, cellLabel f.data (keyCell MurmurHash3 f.data.length f.nTweak vKey n).1
        (keyCell MurmurHash3 f.data.length f.nTweak vKey n).2 ≠ 0))
  | [] => by simp [CRollingBloomFilter.containsLoop]
  | n :: ns => by
    have hlt := toNat_fastMod_lt (rollingBloomHash MurmurHash3 n.toUInt32 f.nTweak vKey) hpos h32
    have hbit : (rollingBloomHash MurmurHash3 n.toUInt32 f.nTweak vKey &&& 0x3F).toUInt64.toNat < 64 := by
      rw [UInt32.toNat_toUInt64]
      exact snd_cellOf_lt f.data.length _
    rw [CRollingBloomFilter.containsLoop]
    rw [toNat_and_not_one, toNat_or_one,
      List.getElem?_eq_getElem (show 2 * ((fastMod (rollingBloomHash MurmurHash3 n.toUInt32 f.nTweak vKey)
        f.data.length).toNat / 2) < f.data.length by omega),
      List.getElem?_eq_getElem (show 2 * ((fastMod (rollingBloomHash MurmurHash3 n.toUInt32 f.nTweak vKey)
        f.data.length).toNat / 2) + 1 < f.data.length by omega)]
    simp only [Option.bind_eq_bind, Option.bind_some]
    -- the test of the head cell is that its label is zero
    have hhead : (((f.data[2 * ((fastMod (rollingBloomHash MurmurHash3 n.toUInt32 f.nTweak vKey)
          f.data.length).toNat / 2)] ||| f.data[2 * ((fastMod (rollingBloomHash MurmurHash3 n.toUInt32 f.nTweak vKey)
          f.data.length).toNat / 2) + 1]) >>> (rollingBloomHash MurmurHash3 n.toUInt32 f.nTweak vKey &&& 0x3F).toUInt64) &&& 1 = 0) ↔
        cellLabel f.data (keyCell MurmurHash3 f.data.length f.nTweak vKey n).1
          (keyCell MurmurHash3 f.data.length f.nTweak vKey n).2 = 0 := by
      rw [shiftRight_and_one_eq_zero _ _ hbit, cellLabel_eq_zero_iff, UInt32.toNat_toUInt64,
        ← List.getD_eq_getElem _ 0, ← List.getD_eq_getElem _ 0]
      rfl
    by_cases hzero : cellLabel f.data (keyCell MurmurHash3 f.data.length f.nTweak vKey n).1
        (keyCell MurmurHash3 f.data.length f.nTweak vKey n).2 = 0
    · rw [if_pos (hhead.mpr hzero)]
      simp [hzero]
    · rw [if_neg (mt hhead.mp hzero), containsLoop_spec f heven hpos h32 vKey ns]
      simp [hzero]

end Hash

end Veribase
