import Veribase.Bloom.RollingBloom

/-!
# The rolling bloom filter keeps its recent keys

Key `i` of a run of `insert` calls goes into generation `i / E`, for
`E = nEntriesPerGeneration`.  `Holds` is what the filter holds after the keys
`keys` in generation `G`: the count of the generation, its label, and for
every key of `G` or of the two generations before it, each of the key's cells
labelled by some generation between the key's and `G` (`Recent`).  A wipe at
the change to `G + 1` clears the label of `G - 2` only, which no recent key
still uses (`Recent.wipe`); writing a key keeps the others and makes it recent
(`Recent.insertKey`).  So one `insert` keeps `Holds` (`Holds.insert`), a run
keeps it (`Holds.insertAll`), and a recent key is found
(`Holds.contains_eq_true`).

All of it needs `nEntriesPerGeneration > 0` and a non-empty `data`; the
constructor gives both unless `nElements + 1` or `nFilterBits + 63` wraps.
-/

namespace Veribase

/-! ## Generations -/

/-- The label of generation `j`, counting generations from `0`: `1`, `2`, `3`
in turn. -/
def generationLabel (j : Nat) : Nat := j % 3 + 1

theorem generationLabel_lt_four (j : Nat) : generationLabel j < 4 := by
  unfold generationLabel
  omega

theorem generationLabel_ne_zero (j : Nat) : generationLabel j ≠ 0 := by
  unfold generationLabel
  omega

/-- Generations less than three apart have different labels. -/
theorem generationLabel_ne {i j : Nat} (hij : i < j) (hj : j < i + 3) :
    generationLabel i ≠ generationLabel j := by
  unfold generationLabel
  omega

/-- `nGeneration++`, back to `1` after `3`. -/
theorem next_generationLabel (j : Nat) :
    (if generationLabel j + 1 = 4 then 1 else generationLabel j + 1) = generationLabel (j + 1) := by
  unfold generationLabel
  split <;> omega

section Hash

variable (MurmurHash3 : UInt32 → List UInt8 → UInt32)

/-- Every key of generation `G` or of the two before it has each of its cells
labelled by a generation from its own to `G`: key `i` is of generation
`i / E`. -/
def Recent (E H D : Nat) (T : UInt32) (G : Nat) (keys : List (List UInt8))
    (data : List UInt64) : Prop :=
  ∀ i vKey, keys[i]? = some vKey → G ≤ i / E + 2 → ∀ n < H,
    ∃ j, i / E ≤ j ∧ j ≤ G ∧
      cellLabel data (keyCell MurmurHash3 D T vKey n).1 (keyCell MurmurHash3 D T vKey n).2 =
        generationLabel j

/-- What a filter holds after the keys `keys` in generation `G`: its fixed
parameters, the count of the current generation, and the recent keys' cells. -/
structure Holds (E H D : Nat) (T : UInt32) (G : Nat) (keys : List (List UInt8))
    (f : CRollingBloomFilter) : Prop where
  per_generation : f.nEntriesPerGeneration = E
  hash_funcs : f.nHashFuncs = H
  tweak : f.nTweak = T
  length_data : f.data.length = D
  started : G * E < keys.length ∨ G = 0
  filled : keys.length ≤ (G + 1) * E
  this_generation : f.nEntriesThisGeneration = keys.length - G * E
  label : f.nGeneration = generationLabel G
  recent : Recent MurmurHash3 E H D T G keys f.data

/-- The same, after the generation change of `insert` and before its count:
the next key goes into generation `G`, which has room for it. -/
structure Ready (E H D : Nat) (T : UInt32) (G : Nat) (keys : List (List UInt8))
    (f : CRollingBloomFilter) : Prop where
  per_generation : f.nEntriesPerGeneration = E
  hash_funcs : f.nHashFuncs = H
  tweak : f.nTweak = T
  length_data : f.data.length = D
  lower : G * E ≤ keys.length
  room : keys.length < (G + 1) * E
  this_generation : f.nEntriesThisGeneration = keys.length - G * E
  label : f.nGeneration = generationLabel G
  recent : Recent MurmurHash3 E H D T G keys f.data

end Hash

section Run

variable (MurmurHash3 : UInt32 → List UInt8 → UInt32) {E H D : Nat} {T : UInt32}

/-- At a generation change the recent keys of the new generation `G + 1` were
recent in `G` and hold no cell labelled `G + 1`, so the wipe keeps them. -/
theorem Recent.wipe {G : Nat} {keys : List (List UInt8)} {data data' : List UInt64}
    (hrec : Recent MurmurHash3 E H D T G keys data)
    (hwipe : ∀ w b, b < 64 → cellLabel data' w b =
      if cellLabel data w b = generationLabel (G + 1) then 0 else cellLabel data w b) :
    Recent MurmurHash3 E H D T (G + 1) keys data' := by
  intro i vKey hkey hG n hn
  obtain ⟨j, hij, hjG, hlabel⟩ := hrec i vKey hkey (by omega) n hn
  refine ⟨j, hij, by omega, ?_⟩
  rw [hwipe _ _ (snd_keyCell_lt MurmurHash3 _ _ _ _), hlabel, if_neg (generationLabel_ne (by omega) (by omega))]

/-- Writing a key of generation `G` into its cells keeps the recent keys, and
makes the new key recent. -/
theorem Recent.insertKey {G : Nat} {keys : List (List UInt8)} {vKey : List UInt8}
    {data data' : List UInt64} (hrec : Recent MurmurHash3 E H D T G keys data)
    (hG : keys.length / E = G)
    (hcells : ∀ w b, b < 64 → cellLabel data' w b =
      if ∃ n ∈ List.range H, (w, b) = keyCell MurmurHash3 D T vKey n then generationLabel G
      else cellLabel data w b) :
    Recent MurmurHash3 E H D T G (keys ++ [vKey]) data' := by
  intro i k hk hGi n hn
  rw [hcells _ _ (snd_keyCell_lt MurmurHash3 _ _ _ _)]
  by_cases hi : i < keys.length
  · -- an earlier key: its cell is the new key's, or as it was
    have hiG : i / E ≤ G := hG ▸ Nat.div_le_div_right hi.le
    rw [List.getElem?_append_left hi] at hk
    split
    · exact ⟨G, hiG, le_rfl, rfl⟩
    · exact hrec i k hk hGi n hn
  · -- the new key itself, of generation `G`
    have hi' : i = keys.length := by
      have := (List.getElem?_eq_some_iff.mp hk).1
      rw [List.length_append, List.length_singleton] at this
      omega
    subst hi'
    rw [List.getElem?_append_right le_rfl, Nat.sub_self, List.getElem?_singleton] at hk
    simp only [Option.some.injEq, if_true] at hk
    subst hk
    rw [if_pos ⟨n, List.mem_range.mpr hn, rfl⟩]
    exact ⟨G, hG.le, le_rfl, rfl⟩

/-- A full generation: `insert` starts generation `G + 1`, with the cells of
its label wiped. -/
theorem Holds.advance {G : Nat} {keys : List (List UInt8)} {f : CRollingBloomFilter}
    (hs : Holds MurmurHash3 E H D T G keys f) (hE : 0 < E) (heven : D % 2 = 0)
    (hfull : f.nEntriesThisGeneration = f.nEntriesPerGeneration) :
    ∃ f₁, f.nextGeneration = some f₁ ∧ Ready MurmurHash3 E H D T (G + 1) keys f₁ := by
  have hlen : keys.length = G * E + E := by
    have := hs.this_generation
    rw [hfull, hs.per_generation] at this
    have := hs.started
    have := hs.filled
    rw [Nat.succ_mul] at this
    omega
  obtain ⟨data', hrun, hlen', hcell⟩ :=
    wipe_spec (generationLabel_lt_four (G + 1)) f.data (hs.length_data ▸ heven)
  refine ⟨{ f with
      nEntriesThisGeneration := 0, nGeneration := generationLabel (G + 1), data := data' },
    ?_, ?_⟩
  · rw [CRollingBloomFilter.nextGeneration, hs.label, next_generationLabel]
    simp only [hrun]
    rfl
  · exact
      { per_generation := hs.per_generation
        hash_funcs := hs.hash_funcs
        tweak := hs.tweak
        length_data := hlen'.trans hs.length_data
        lower := by rw [Nat.succ_mul]; omega
        room := by rw [Nat.succ_mul, Nat.succ_mul]; omega
        this_generation := by show 0 = keys.length - (G + 1) * E; rw [Nat.succ_mul]; omega
        label := rfl
        recent := hs.recent.wipe MurmurHash3 hcell }

/-- A generation with room: the key goes into `G`. -/
theorem Holds.ready {G : Nat} {keys : List (List UInt8)} {f : CRollingBloomFilter}
    (hs : Holds MurmurHash3 E H D T G keys f)
    (hroom : f.nEntriesThisGeneration ≠ f.nEntriesPerGeneration) :
    Ready MurmurHash3 E H D T G keys f := by
  have hthis := hs.this_generation
  rw [hs.per_generation] at hroom
  have hfilled := hs.filled
  rw [Nat.succ_mul] at hfilled
  have hlower : G * E ≤ keys.length := by
    rcases hs.started with h | h
    · exact h.le
    · rw [h, Nat.zero_mul]
      exact Nat.zero_le _
  exact
    { per_generation := hs.per_generation
      hash_funcs := hs.hash_funcs
      tweak := hs.tweak
      length_data := hs.length_data
      lower := hlower
      room := by rw [Nat.succ_mul]; omega
      this_generation := hthis
      label := hs.label
      recent := hs.recent }

/-- The rest of `insert`: the count, and the key's cells written with the
label of `G`. -/
theorem Ready.insertCells {G : Nat} {keys : List (List UInt8)} {f : CRollingBloomFilter}
    (hr : Ready MurmurHash3 E H D T G keys f) (heven : D % 2 = 0) (hpos : 0 < D)
    (h32 : D < 2 ^ 32) (vKey : List UInt8) :
    ∃ data', setCells MurmurHash3 f.nGeneration f.nTweak vKey (List.range f.nHashFuncs) f.data =
        some data' ∧
      Holds MurmurHash3 E H D T G (keys ++ [vKey])
        { f with nEntriesThisGeneration := f.nEntriesThisGeneration + 1, data := data' } := by
  obtain ⟨data', hrun, hlen, hcell⟩ := setCells_spec MurmurHash3
    (hr.label ▸ generationLabel_lt_four G) f.nTweak vKey (List.range f.nHashFuncs)
    (hr.length_data ▸ heven) (hr.length_data ▸ hpos) (hr.length_data ▸ h32)
  rw [hr.label, hr.hash_funcs, hr.tweak, hr.length_data] at hcell
  have hG : keys.length / E = G := Nat.div_eq_of_lt_le hr.lower hr.room
  have hroom := hr.room
  rw [Nat.succ_mul] at hroom
  refine ⟨data', hrun, ?_⟩
  exact
    { per_generation := hr.per_generation
      hash_funcs := hr.hash_funcs
      tweak := hr.tweak
      length_data := hlen.trans hr.length_data
      started := by rw [List.length_append, List.length_singleton]; exact .inl (by have := hr.lower; omega)
      filled := by rw [List.length_append, List.length_singleton, Nat.succ_mul]; omega
      this_generation := by
        show f.nEntriesThisGeneration + 1 = _
        rw [hr.this_generation, List.length_append, List.length_singleton]
        have := hr.lower
        omega
      label := hr.label
      recent := hr.recent.insertKey MurmurHash3 hG hcell }

/-- `insert` is the generation change, then the count and the cells. -/
theorem insert_eq_bind (f : CRollingBloomFilter) (vKey : List UInt8) :
    f.insert MurmurHash3 vKey =
      (if f.nEntriesThisGeneration = f.nEntriesPerGeneration then f.nextGeneration else some f).bind
        fun f₁ => (setCells MurmurHash3 f₁.nGeneration f₁.nTweak vKey (List.range f₁.nHashFuncs)
          f₁.data).bind fun data =>
            some { f₁ with nEntriesThisGeneration := f₁.nEntriesThisGeneration + 1, data := data } := by
  unfold CRollingBloomFilter.insert
  split <;> rfl

/-- One `insert` keeps what a filter holds, one generation on or in the same
one. -/
theorem Holds.insert {G : Nat} {keys : List (List UInt8)} {f : CRollingBloomFilter}
    (hs : Holds MurmurHash3 E H D T G keys f) (hE : 0 < E) (heven : D % 2 = 0) (hpos : 0 < D)
    (h32 : D < 2 ^ 32) (vKey : List UInt8) :
    ∃ G' f', f.insert MurmurHash3 vKey = some f' ∧ Holds MurmurHash3 E H D T G' (keys ++ [vKey]) f' := by
  obtain ⟨G₁, f₁, hrun₁, hready⟩ : ∃ G₁ f₁,
      (if f.nEntriesThisGeneration = f.nEntriesPerGeneration then f.nextGeneration else some f) =
        some f₁ ∧ Ready MurmurHash3 E H D T G₁ keys f₁ := by
    by_cases hfull : f.nEntriesThisGeneration = f.nEntriesPerGeneration
    · obtain ⟨f₁, hnext, hready⟩ := hs.advance MurmurHash3 hE heven hfull
      exact ⟨G + 1, f₁, by rw [if_pos hfull, hnext], hready⟩
    · exact ⟨G, f, by rw [if_neg hfull], hs.ready MurmurHash3 hfull⟩
  obtain ⟨data', hrun₂, hholds⟩ := hready.insertCells MurmurHash3 heven hpos h32 vKey
  refine ⟨G₁, _, ?_, hholds⟩
  rw [insert_eq_bind, hrun₁, Option.bind_some, hrun₂, Option.bind_some]

/-- A new filter, before any key. -/
theorem init_holds (nElements : UInt32) (nHashFuncs : Nat) (nFilterBits nTweak : UInt32) :
    Holds MurmurHash3 ((nElements + 1) / 2).toNat nHashFuncs
      (((nFilterBits + 63) / 64) <<< 1).toNat nTweak 0 []
      (CRollingBloomFilter.init nElements nHashFuncs nFilterBits nTweak) :=
  { per_generation := rfl
    hash_funcs := rfl
    tweak := rfl
    length_data := by simp [CRollingBloomFilter.init, CRollingBloomFilter.reset]
    started := .inr rfl
    filled := Nat.zero_le _
    this_generation := by simp [CRollingBloomFilter.init, CRollingBloomFilter.reset]
    label := rfl
    recent := fun i vKey hk => by simp at hk }

/-- A run of `insert` calls keeps what a filter holds. -/
theorem Holds.insertAll (hE : 0 < E) (heven : D % 2 = 0) (hpos : 0 < D) (h32 : D < 2 ^ 32)
    (more : List (List UInt8)) :
    ∀ {G : Nat} {keys : List (List UInt8)} {f : CRollingBloomFilter},
      Holds MurmurHash3 E H D T G keys f →
      ∃ G' f', f.insertAll MurmurHash3 more = some f' ∧
        Holds MurmurHash3 E H D T G' (keys ++ more) f' := by
  induction more with
  | nil => intro G keys f hs; exact ⟨G, f, rfl, by rw [List.append_nil]; exact hs⟩
  | cons vKey more ih =>
    intro G keys f hs
    obtain ⟨G₁, f₁, hrun₁, hs₁⟩ := hs.insert MurmurHash3 hE heven hpos h32 vKey
    obtain ⟨G₂, f₂, hrun₂, hs₂⟩ := ih hs₁
    refine ⟨G₂, f₂, ?_, by rw [← List.singleton_append, ← List.append_assoc]; exact hs₂⟩
    rw [CRollingBloomFilter.insertAll, hrun₁]
    exact hrun₂

/-- A recent key is found. -/
theorem Holds.contains_eq_true {G : Nat} {keys : List (List UInt8)} {f : CRollingBloomFilter}
    (hs : Holds MurmurHash3 E H D T G keys f) (heven : D % 2 = 0) (hpos : 0 < D)
    (h32 : D < 2 ^ 32) {i : Nat} {vKey : List UInt8} (hk : keys[i]? = some vKey)
    (hG : G ≤ i / E + 2) : f.contains MurmurHash3 vKey = some true := by
  rw [CRollingBloomFilter.contains, containsLoop_spec MurmurHash3 f (hs.length_data ▸ heven)
    (hs.length_data ▸ hpos) (hs.length_data ▸ h32), decide_eq_true]
  intro n hn
  rw [hs.length_data, hs.tweak]
  obtain ⟨j, -, -, hlabel⟩ := hs.recent i vKey hk hG n (hs.hash_funcs ▸ List.mem_range.mp hn)
  rw [hlabel]
  exact generationLabel_ne_zero j

end Run

/-! ## No false negatives -/

/-- `(nElements + 1) / 2` where the increment does not wrap. -/
theorem toNat_entriesPerGeneration {nElements : UInt32} (hwrap : nElements.toNat < 2 ^ 32 - 1) :
    ((nElements + 1) / 2).toNat = (nElements.toNat + 1) / 2 := by
  rw [UInt32.toNat_div, UInt32.toNat_add, show (1 : UInt32).toNat = 1 from rfl,
    show (2 : UInt32).toNat = 2 from rfl, Nat.mod_eq_of_lt (by omega)]

/-- The size of `data`: two words for every 64 bits, where `nFilterBits + 63`
does not wrap. -/
theorem toNat_dataSize {nFilterBits : UInt32} (hbits : nFilterBits.toNat ≤ 2 ^ 32 - 64) :
    (((nFilterBits + 63) / 64) <<< 1).toNat = 2 * ((nFilterBits.toNat + 63) / 64) := by
  have hq : (nFilterBits.toNat + 63) / 64 < 2 ^ 26 := by omega
  rw [UInt32.toNat_shiftLeft, UInt32.toNat_div, UInt32.toNat_add,
    show (63 : UInt32).toNat = 63 from rfl, show (64 : UInt32).toNat = 64 from rfl,
    show (1 : UInt32).toNat % 32 = 1 from rfl, Nat.mod_eq_of_lt (by omega), Nat.shiftLeft_eq,
    Nat.mod_eq_of_lt (by omega)]
  ring

theorem rollingBloom_no_false_negatives (MurmurHash3 : UInt32 → List UInt8 → UInt32)
    (nElements : UInt32) (h1 : 1 ≤ nElements.toNat) (hwrap : nElements.toNat < 2 ^ 32 - 1)
    (nHashFuncs : Nat) (nFilterBits : UInt32) (hbits : 0 < nFilterBits.toNat)
    (hbits' : nFilterBits.toNat ≤ 2 ^ 32 - 64) (nTweak : UInt32) (keys : List (List UInt8)) :
    ∃ f, (CRollingBloomFilter.init nElements nHashFuncs nFilterBits nTweak).insertAll MurmurHash3
        keys = some f ∧
      f.nEntriesPerGeneration = (nElements.toNat + 1) / 2 ∧
      (∀ vKey ∈ keys.drop (keys.length - nElements.toNat), f.contains MurmurHash3 vKey = some true) ∧
      ∀ i vKey, keys[i]? = some vKey →
        (keys.length - 1) / f.nEntriesPerGeneration ≤ i / f.nEntriesPerGeneration + 2 →
        f.contains MurmurHash3 vKey = some true := by
  have hE := toNat_entriesPerGeneration hwrap
  have hD := toNat_dataSize hbits'
  have hinit := init_holds MurmurHash3 nElements nHashFuncs nFilterBits nTweak
  rw [hE, hD] at hinit
  have hEpos : 0 < (nElements.toNat + 1) / 2 := by omega
  have heven : 2 * ((nFilterBits.toNat + 63) / 64) % 2 = 0 := by omega
  have hpos : 0 < 2 * ((nFilterBits.toNat + 63) / 64) := by omega
  have h32 : 2 * ((nFilterBits.toNat + 63) / 64) < 2 ^ 32 := by omega
  obtain ⟨G, f, hrun, hs⟩ := hinit.insertAll MurmurHash3 hEpos heven hpos h32 keys
  rw [List.nil_append] at hs
  -- the generation reached: at most that of the last key, and past its start
  have hstart : G * ((nElements.toNat + 1) / 2) ≤ keys.length := by
    rcases hs.started with h | h
    · exact h.le
    · rw [h, Nat.zero_mul]
      exact Nat.zero_le _
  refine ⟨f, hrun, hs.per_generation, ?_, ?_⟩
  · -- the last `nElements` keys: two generations hold at least `nElements` keys
    intro vKey hmem
    obtain ⟨i, hi⟩ := List.mem_iff_getElem?.mp hmem
    rw [List.getElem?_drop] at hi
    refine hs.contains_eq_true MurmurHash3 heven hpos h32 hi ?_
    have hlow : (G - 2) * ((nElements.toNat + 1) / 2) ≤ keys.length - nElements.toNat + i := by
      rw [Nat.sub_mul]
      omega
    have := (Nat.le_div_iff_mul_le hEpos).mpr hlow
    omega
  · -- a key of the last key's generation or of the two before it
    intro i vKey hk hcur
    rw [hs.per_generation] at hcur
    refine hs.contains_eq_true MurmurHash3 heven hpos h32 hk ?_
    rcases hs.started with h | h
    · have := (Nat.le_div_iff_mul_le hEpos).mpr (show G * ((nElements.toNat + 1) / 2) ≤ keys.length - 1 by omega)
      omega
    · rw [h]
      exact Nat.zero_le _

theorem rollingBloom_no_false_negatives_three_keys :
    (1 ≤ (2 : UInt32).toNat ∧ (2 : UInt32).toNat < 2 ^ 32 - 1 ∧ 0 < (128 : UInt32).toNat ∧
        (128 : UInt32).toNat ≤ 2 ^ 32 - 64) ∧
      ∃ f, (CRollingBloomFilter.init 2 1 128 0).insertAll (fun _ _ => 0) [[1], [2], [3]] = some f ∧
        f.nEntriesPerGeneration = ((2 : UInt32).toNat + 1) / 2 ∧
        (∀ vKey ∈ [[1], [2], [3]].drop ([[1], [2], [3]].length - (2 : UInt32).toNat),
          f.contains (fun _ _ => 0) vKey = some true) ∧
        ∀ i vKey, [[1], [2], [3]][i]? = some vKey →
          ([[1], [2], [3]].length - 1) / f.nEntriesPerGeneration ≤ i / f.nEntriesPerGeneration + 2 →
          f.contains (fun _ _ => 0) vKey = some true :=
  ⟨⟨by decide, by decide, by decide, by decide⟩,
    rollingBloom_no_false_negatives (fun _ _ => 0) 2 (by decide) (by decide) 1 128 (by decide)
      (by decide) 0 [[1], [2], [3]]⟩

/-- With `nElements = 2^32 - 1`, `nElements + 1` wraps to `0`: no entry per
generation, no bit of filter, an empty `data`, and both `insert` and
`contains` index past its end. -/
theorem rollingBloom_max_elements_out_of_bounds :
    (CRollingBloomFilter.ofRate 4294967295 (1 / 2) 0).data = [] ∧
      (CRollingBloomFilter.ofRate 4294967295 (1 / 2) 0).insert (fun _ _ => 0) [] = none ∧
      (CRollingBloomFilter.ofRate 4294967295 (1 / 2) 0).contains (fun _ _ => 0) [] = none := by
  have hbits : rollingFilterBits (rollingHashFuncs (1 / 2)) ((4294967295 + 1) / 2 * 3) (1 / 2) = 0 := by
    have h0 : ((4294967295 + 1) / 2 * 3 : UInt32) = 0 := by decide
    rw [rollingFilterBits, h0]
    simp
  have hH : 1 ≤ (rollingHashFuncs (1 / 2)).toNat := by
    have := le_max_left 1 (min (round (Real.log (1 / 2) / Real.log 0.5)) 50)
    rw [rollingHashFuncs]
    omega
  obtain ⟨k, hk⟩ : ∃ k, (rollingHashFuncs (1 / 2)).toNat = k + 1 := ⟨_, (Nat.succ_pred_eq_of_pos hH).symm⟩
  -- the filter the constructor builds: its count per generation and `data` are empty
  have hf : CRollingBloomFilter.ofRate 4294967295 (1 / 2) 0 = ⟨0, 0, 1, [], 0, k + 1⟩ := by
    show CRollingBloomFilter.init 4294967295 (rollingHashFuncs (1 / 2)).toNat
      (rollingFilterBits (rollingHashFuncs (1 / 2)) ((4294967295 + 1) / 2 * 3) (1 / 2)).toUInt32 0 = _
    rw [hbits, hk]
    rfl
  have hrange : List.range (k + 1) ≠ [] := by simp
  refine ⟨by rw [hf], ?_, ?_⟩
  · rw [hf, insert_eq_bind, if_pos rfl]
    show (some (⟨0, 0, 2, [], 0, k + 1⟩ : CRollingBloomFilter)).bind _ = none
    rw [Option.bind_some, setCells_nil_data _ _ _ _ hrange]
    rfl
  · rw [hf, CRollingBloomFilter.contains]
    exact containsLoop_nil_data _ rfl _ hrange

end Veribase
