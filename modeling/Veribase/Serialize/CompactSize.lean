import Veribase.Lib.Bytes

/-!
# CompactSize

`serialize.h` writes lengths and counts as a *CompactSize*: one byte below
253, otherwise a marker byte (253, 254, 255) followed by a 2-, 4- or 8-byte
little-endian number.  `ReadCompactSize` rejects an encoding that a shorter
form could have carried, and any value above `MAX_SIZE`.  Streams are
`CDataStream`s, whose reads throw `"CDataStream::read(): end of data"`.

`readCompactSize_writeCompactSize` is the round trip for every size up to
`MAX_SIZE`: the reader returns the value and stops exactly at the end of its
encoding.  Conversely a successful read took exactly the encoding of what it
returned (`readCompactSize_eq_ok`): the marker byte fixes the width, the
non-canonical checks fix the value's range in it, and `leBytes_leValue` gives
back the bytes.  `consumes_readCompactSize` says a successful read always
takes at least one byte, whatever the stream holds.
-/

namespace Veribase

open ByteStream

/-- A stream reader whose errors are the `std::ios_base::failure` messages. -/
abbrev StreamReader := Reader String

/-- The message of a read past the end of a `CDataStream`. -/
def EOD : String := "CDataStream::read(): end of data"

/-- `ser_readdata8/16/32/64`: `k` little-endian bytes. -/
def readLE (k : Nat) : StreamReader Nat := leValue <$> readBytes EOD k

/-- `MAX_SIZE`. -/
def MAX_SIZE : Nat := 0x02000000

/-- `GetSizeOfCompactSize(nSize)`. -/
def getSizeOfCompactSize (nSize : Nat) : Nat :=
  if nSize < 253 then 1
  else if nSize ≤ 0xFFFF then 3
  else if nSize ≤ 0xFFFFFFFF then 5
  else 9

/-- `WriteCompactSize(os, nSize)`. -/
def writeCompactSize (nSize : Nat) : List UInt8 :=
  if nSize < 253 then [UInt8.ofNat nSize]
  else if nSize ≤ 0xFFFF then 253 :: leBytes 2 nSize
  else if nSize ≤ 0xFFFFFFFF then 254 :: leBytes 4 nSize
  else 255 :: leBytes 8 nSize

/-- One of the long forms: `k` bytes that must not fit a shorter form. -/
def readCanonical (k lo : Nat) : StreamReader Nat := do
  let n ← readLE k
  if n < lo then throw "non-canonical ReadCompactSize()" else pure n

/-- The first branch of `ReadCompactSize`: the size its marker byte announces. -/
def readSizeAfter (chSize : Nat) : StreamReader Nat :=
  if chSize < 253 then pure chSize
  else if chSize = 253 then readCanonical 2 253
  else if chSize = 254 then readCanonical 4 0x10000
  else readCanonical 8 0x100000000

/-- The last check of `ReadCompactSize`. -/
def checkMaxSize (nSizeRet : Nat) : StreamReader Nat :=
  if nSizeRet > MAX_SIZE then throw "ReadCompactSize(): size too large" else pure nSizeRet

/-- `ReadCompactSize(is)`. -/
def readCompactSize : StreamReader Nat := do
  let chSize ← readLE 1
  let nSizeRet ← readSizeAfter chSize
  checkMaxSize nSizeRet

theorem length_writeCompactSize (nSize : Nat) :
    (writeCompactSize nSize).length = getSizeOfCompactSize nSize := by
  unfold writeCompactSize getSizeOfCompactSize
  split_ifs <;> simp

/-! ## Reading what was written -/

theorem readLE_append {k : Nat} {l : List UInt8} (rest : List UInt8) (hl : l.length = k) :
    (readLE k).run (l ++ rest) = .ok (leValue l, rest) := by
  simp [readLE, StateT.run_map, readBytes_append EOD rest hl]

theorem readLE_leBytes (k x : Nat) (rest : List UInt8) :
    (readLE k).run (leBytes k x ++ rest) = .ok (x % 256 ^ k, rest) := by
  rw [readLE_append rest (length_leBytes k x), leValue_leBytes]

theorem readLE_one (b : UInt8) (rest : List UInt8) :
    (readLE 1).run (b :: rest) = .ok (b.toNat, rest) := by
  simpa using readLE_append (k := 1) (l := [b]) rest rfl

theorem readCanonical_leBytes {k lo x : Nat} (rest : List UInt8) (hlo : lo ≤ x)
    (hx : x < 256 ^ k) : (readCanonical k lo).run (leBytes k x ++ rest) = .ok (x, rest) := by
  have hx' : ¬ x < lo := by omega
  simp [readCanonical, StateT.run_bind, readLE_leBytes, Nat.mod_eq_of_lt hx, hx']

/-- Below `2^64` the reader reads back the value written and leaves the verdict
to the last check. -/
theorem readCompactSize_writeCompactSize_of_lt {nSize : Nat} (h : nSize < 2 ^ 64)
    (rest : List UInt8) :
    readCompactSize.run (writeCompactSize nSize ++ rest) = (checkMaxSize nSize).run rest := by
  unfold readCompactSize writeCompactSize
  by_cases h1 : nSize < 253
  · have hbyte : (UInt8.ofNat nSize).toNat = nSize := by
      rw [UInt8.toNat_ofNat']
      omega
    simp [h1, StateT.run_bind, readLE_one, hbyte, readSizeAfter]
  · by_cases h2 : nSize ≤ 0xFFFF
    · have hc := readCanonical_leBytes (k := 2) rest (show 253 ≤ nSize by omega)
        (by simp; omega)
      simp [h1, h2, StateT.run_bind, readLE_one, readSizeAfter, hc]
    · by_cases h3 : nSize ≤ 0xFFFFFFFF
      · have hc := readCanonical_leBytes (k := 4) rest (show 0x10000 ≤ nSize by omega)
          (by simp; omega)
        simp [h1, h2, h3, StateT.run_bind, readLE_one, readSizeAfter, hc]
      · have hc := readCanonical_leBytes (k := 8) rest (show 0x100000000 ≤ nSize by omega)
          (by simpa using h)
        simp [h1, h2, h3, StateT.run_bind, readLE_one, readSizeAfter, hc]

/-- **CompactSize round trip.**  Every size up to `MAX_SIZE` reads back from
its encoding, and the read stops where the encoding ends. -/
theorem readCompactSize_writeCompactSize {nSize : Nat} (h : nSize ≤ MAX_SIZE)
    (rest : List UInt8) :
    readCompactSize.run (writeCompactSize nSize ++ rest) = .ok (nSize, rest) := by
  have hmax : ¬ nSize > MAX_SIZE := by omega
  have h64 : nSize < 2 ^ 64 := by
    unfold MAX_SIZE at h
    omega
  simp [readCompactSize_writeCompactSize_of_lt h64, checkMaxSize, hmax]

/-! ## What a successful read was given -/

theorem readLE_eq_ok {k x : Nat} {s rest : List UInt8} (h : (readLE k).run s = .ok (x, rest)) :
    ∃ l, l.length = k ∧ s = l ++ rest ∧ x = leValue l := by
  rw [readLE, StateT.run_map] at h
  cases hrun : (readBytes EOD k).run s with
  | error e =>
    rw [hrun] at h
    cases h
  | ok p =>
    obtain ⟨l, t⟩ := p
    rw [hrun] at h
    obtain ⟨hl, hs⟩ := readBytes_eq_ok.mp hrun
    simp only [Functor.map, Except.map, Except.ok.injEq, Prod.mk.injEq] at h
    obtain ⟨rfl, rfl⟩ := h
    exact ⟨l, hl, hs, rfl⟩

theorem readCanonical_eq_ok {k lo x : Nat} {s rest : List UInt8}
    (h : (readCanonical k lo).run s = .ok (x, rest)) :
    ∃ l, l.length = k ∧ s = l ++ rest ∧ x = leValue l ∧ lo ≤ x := by
  obtain ⟨n, t, hread, hcheck⟩ := run_bind_eq_ok.mp h
  by_cases hn : n < lo
  · simp [hn] at hcheck
    cases hcheck
  · simp [hn] at hcheck
    obtain ⟨rfl, rfl⟩ := hcheck
    obtain ⟨l, hl, hs, hx⟩ := readLE_eq_ok hread
    exact ⟨l, hl, hs, hx, by omega⟩

theorem checkMaxSize_eq_ok {n v : Nat} {s rest : List UInt8}
    (h : (checkMaxSize n).run s = .ok (v, rest)) : n ≤ MAX_SIZE ∧ v = n ∧ rest = s := by
  unfold checkMaxSize at h
  by_cases hn : n > MAX_SIZE
  · simp [hn] at h
    cases h
  · simp [hn] at h
    exact ⟨by omega, h.1.symm, h.2.symm⟩

/-- A long form read after its marker byte is the encoding of what it read. -/
theorem readSizeAfter_eq_ok {c : UInt8} {n : Nat} {s rest : List UInt8}
    (h : (readSizeAfter c.toNat).run s = .ok (n, rest)) (hn : n ≤ MAX_SIZE) :
    c :: s = writeCompactSize n ++ rest := by
  unfold MAX_SIZE at hn
  unfold readSizeAfter at h
  by_cases h1 : c.toNat < 253
  · simp [h1] at h
    obtain ⟨rfl, rfl⟩ := h
    simp [writeCompactSize, h1]
  · by_cases h2 : c.toNat = 253
    · simp only [h2, if_true] at h
      obtain ⟨l, hl, rfl, rfl, hlo⟩ := readCanonical_eq_ok h
      have hlt := leValue_lt l
      rw [hl] at hlt
      have hc : c = 253 := UInt8.toNat_inj.mp h2
      simp [writeCompactSize, show ¬ leValue l < 253 by omega,
        show leValue l ≤ 0xFFFF by omega, hc, ← hl, leBytes_leValue]
    · by_cases h3 : c.toNat = 254
      · simp only [h3, if_true] at h
        obtain ⟨l, hl, rfl, rfl, hlo⟩ := readCanonical_eq_ok h
        have hlt := leValue_lt l
        rw [hl] at hlt
        have hc : c = 254 := UInt8.toNat_inj.mp h3
        simp [writeCompactSize, show ¬ leValue l < 253 by omega,
          show ¬ leValue l ≤ 0xFFFF by omega, show leValue l ≤ 0xFFFFFFFF by omega, hc, ← hl,
          leBytes_leValue]
      · -- the eight-byte form only carries sizes past `MAX_SIZE`
        simp only [h1, h2, h3, if_false] at h
        obtain ⟨l, hl, rfl, rfl, hlo⟩ := readCanonical_eq_ok h
        omega

/-- **CompactSize canonicity.**  A successful read took exactly the encoding
`WriteCompactSize` gives the value it returned. -/
theorem readCompactSize_eq_ok {s rest : List UInt8} {v : Nat}
    (h : readCompactSize.run s = .ok (v, rest)) : v ≤ MAX_SIZE ∧ s = writeCompactSize v ++ rest := by
  obtain ⟨chSize, t, hbyte, h⟩ := run_bind_eq_ok.mp h
  obtain ⟨n, t', hsize, hcheck⟩ := run_bind_eq_ok.mp h
  obtain ⟨hn, rfl, rfl⟩ := checkMaxSize_eq_ok hcheck
  obtain ⟨l, hl, rfl, rfl⟩ := readLE_eq_ok hbyte
  obtain ⟨c, rfl⟩ := List.length_eq_one_iff.mp hl
  exact ⟨hn, readSizeAfter_eq_ok (by simpa using hsize) hn⟩

theorem compactSize_canonical :
    (∀ n ≤ MAX_SIZE, ∀ rest, readCompactSize.run (writeCompactSize n ++ rest) = .ok (n, rest) ∧
      (writeCompactSize n).length = getSizeOfCompactSize n) ∧
    (∀ n, MAX_SIZE < n → n < 2 ^ 64 → ∀ rest,
      readCompactSize.run (writeCompactSize n ++ rest) = .error "ReadCompactSize(): size too large") ∧
    (∀ s v rest, readCompactSize.run s = .ok (v, rest) → s = writeCompactSize v ++ rest) := by
  refine ⟨fun n hn rest => ⟨readCompactSize_writeCompactSize hn rest, length_writeCompactSize n⟩,
    fun n hlo hhi rest => ?_, fun s v rest h => (readCompactSize_eq_ok h).2⟩
  rw [readCompactSize_writeCompactSize_of_lt hhi]
  simp only [checkMaxSize, gt_iff_lt, hlo, if_true]
  rfl

/-! ## Reads consume -/

theorem consumes_readLE (k : Nat) : Consumes (readLE k) k :=
  (consumes_readBytes EOD k).map leValue

theorem consumes_readCanonical (k lo : Nat) : Consumes (readCanonical k lo) 0 :=
  ((consumes_readLE k).bind fun _ => (consumes_throw _).ite (consumes_pure _)).mono
    (Nat.zero_le _)

/-- Every successful read of a CompactSize takes at least its marker byte. -/
theorem consumes_readCompactSize : Consumes readCompactSize 1 := by
  have hsize : ∀ chSize, Consumes (readSizeAfter chSize) 0 := fun _ =>
    (consumes_pure _).ite ((consumes_readCanonical 2 253).ite
      ((consumes_readCanonical 4 _).ite (consumes_readCanonical 8 _)))
  have hcheck : ∀ n, Consumes (checkMaxSize n) 0 := fun _ =>
    (consumes_throw _).ite (consumes_pure _)
  exact (consumes_readLE 1).bind fun chSize => (hsize chSize).bind hcheck

end Veribase
