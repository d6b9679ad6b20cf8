import Veribase.Lib.BitList

/-!
# Bit streams

`BitStreamWriter` and `BitStreamReader` (`streams.h`) move fields of up to 64
bits through a byte stream, most significant bit first.  The writer fills a
buffered byte from its high end and hands it to the stream when it is full,
or, padded with zeros, on `Flush()`; the reader takes a byte from the stream
when its buffer is used up.

Each is read against the bit list it stands for (`Lib.BitList`).  A writer
stands for the bits of the bytes it has written, then the high `m_offset` bits
of its buffer (`BitStreamWriter.bits`); while the bits below the offset are
clear (`BitStreamWriter.WF`), `Write(data, nbits)` appends the low `nbits`
bits of `data` (`writeLoop_spec`) and `Flush()` appends the zeros that
complete the byte (`flush_spec`).  A reader stands for the bits it has not returned
yet: the low `8 - m_offset` bits of its buffer, then the stream
(`BitStreamReader.bits`).  `Read(nbits)` returns the first `nbits` of them and
drops them (`read_eq_ok`), and throws exactly when fewer are left
(`read_eq_error`).
-/

namespace Veribase

open BitList

/-- The message of a read past the end of a `VectorReader`. -/
def VECTOR_READER_EOD : String := "VectorReader::read(): end of data"

/-- The message of `Read` and `Write` for more than 64 bits. -/
def NBITS_RANGE : String := "nbits must be between 0 and 64"

/-! ## The writer -/

/-- `BitStreamWriter<OStream>`: the bytes on the stream and the byte being filled. -/
structure BitStreamWriter where
  /-- The bytes written to the stream. -/
  out : List UInt8
  m_buffer : UInt8
  /-- `m_offset`: how many high bits of `m_buffer` are written. -/
  m_offset : Nat
  offset_lt : m_offset < 8

/-- A new writer on a stream that holds `out`. -/
def BitStreamWriter.init (out : List UInt8) : BitStreamWriter := ⟨out, 0, 0, by decide⟩

/-- One turn of the loop of `Write(data, nbits)`: as many of the `nbits` low
bits of `data` as the buffer has room for go into it, and a full buffer goes
to the stream. -/
def BitStreamWriter.writeStep (data : UInt64) (w : BitStreamWriter) (nbits : Nat) :
    BitStreamWriter :=
  have hw := w.offset_lt
  let bits := min (8 - w.m_offset) nbits
  let m_buffer :=
    w.m_buffer ||| ((data <<< (64 - nbits).toUInt64) >>> (64 - 8 + w.m_offset).toUInt64).toUInt8
  -- `if (m_offset == 8) Flush();`
  if ho : w.m_offset + bits = 8 then ⟨w.out ++ [m_buffer], 0, 0, by decide⟩
  else ⟨w.out, m_buffer, w.m_offset + bits, by omega⟩

/-- The loop of `Write(data, nbits)`. -/
def BitStreamWriter.writeLoop (data : UInt64) (w : BitStreamWriter) (nbits : Nat) :
    BitStreamWriter :=
  if nbits = 0 then w
  else (w.writeStep data nbits).writeLoop data (nbits - min (8 - w.m_offset) nbits)
termination_by nbits
decreasing_by have := w.offset_lt; omega

/-- `Write(data, nbits)`. -/
def BitStreamWriter.write (w : BitStreamWriter) (data : UInt64) (nbits : Nat) :
    Except String BitStreamWriter :=
  if nbits > 64 then .error NBITS_RANGE else .ok (w.writeLoop data nbits)

/-- `Flush()`. -/
def BitStreamWriter.flush (w : BitStreamWriter) : BitStreamWriter :=
  if w.m_offset = 0 then w else ⟨w.out ++ [w.m_buffer], 0, 0, by decide⟩

/-! ## The reader -/

/-- `BitStreamReader<IStream>`: what is left of the stream and the byte being read. -/
structure BitStreamReader where
  /-- The bytes of the stream not read yet. -/
  stream : List UInt8
  m_buffer : UInt8
  /-- `m_offset`: how many high bits of `m_buffer` are read. -/
  m_offset : Nat
  offset_le : m_offset ≤ 8

/-- A new reader on a stream that holds `stream`: its buffer starts used up. -/
def BitStreamReader.init (stream : List UInt8) : BitStreamReader := ⟨stream, 0, 8, le_rfl⟩

/-- `if (m_offset == 8) { m_istream >> m_buffer; m_offset = 0; }` -/
def BitStreamReader.refill (r : BitStreamReader) : Except String BitStreamReader :=
  if r.m_offset = 8 then
    match r.stream with
    | b :: rest => .ok ⟨rest, b, 0, Nat.zero_le 8⟩
    | [] => .error VECTOR_READER_EOD
  else .ok r

theorem BitStreamReader.offset_lt_of_refill {r r' : BitStreamReader} (h : r.refill = .ok r') :
    r'.m_offset < 8 := by
  unfold refill at h
  split at h
  · split at h
    · cases h
      exact Nat.zero_lt_succ 7
    · cases h
  · cases h
    have := r.offset_le
    omega

/-- One turn of the loop of `Read(nbits)` once the buffer holds a byte: as
many bits as are left in it, up to `nbits`, are shifted into `data`. -/
def BitStreamReader.readStep (r : BitStreamReader) (data : UInt64) (nbits : Nat) :
    UInt64 × BitStreamReader :=
  have hr := r.offset_le
  let bits := min (8 - r.m_offset) nbits
  (data <<< bits.toUInt64 ||| ((r.m_buffer <<< r.m_offset.toUInt8) >>> (8 - bits).toUInt8).toUInt64,
    ⟨r.stream, r.m_buffer, r.m_offset + bits, by omega⟩)

/-- The loop of `Read(nbits)`, with the bits read so far in `data`. -/
def BitStreamReader.readLoop (r : BitStreamReader) (data : UInt64) (nbits : Nat) :
    Except String (UInt64 × BitStreamReader) :=
  if nbits = 0 then .ok (data, r)
  else
    match h : r.refill with
    | .error e => .error e
    | .ok r₁ =>
      (r₁.readStep data nbits).2.readLoop (r₁.readStep data nbits).1
        (nbits - min (8 - r₁.m_offset) nbits)
termination_by nbits
decreasing_by have := offset_lt_of_refill h; omega

/-- `Read(nbits)`. -/
def BitStreamReader.read (r : BitStreamReader) (nbits : Nat) :
    Except String (UInt64 × BitStreamReader) :=
  if nbits > 64 then .error NBITS_RANGE else r.readLoop 0 nbits

/-! ## The writer appends bits -/

namespace BitStreamWriter

/-- The bits a writer has taken: those of the stream, then the high
`m_offset` bits of the buffer. -/
def bits (w : BitStreamWriter) : List Bool :=
  bytesBits w.out ++ beBits (w.m_buffer.toNat >>> (8 - w.m_offset)) w.m_offset

/-- The bits of the buffer below the offset are clear. -/
def WF (w : BitStreamWriter) : Prop := w.m_buffer.toNat % 2 ^ (8 - w.m_offset) = 0

theorem init_bits (out : List UInt8) : (init out).bits = bytesBits out := by
  simp [init, bits]

theorem init_wf (out : List UInt8) : (init out).WF := by
  simp [init, WF]

theorem bits_mk (out : List UInt8) (b : UInt8) (off : Nat) (h : off < 8) :
    (⟨out, b, off, h⟩ : BitStreamWriter).bits =
      bytesBits out ++ beBits (b.toNat >>> (8 - off)) off := rfl

theorem bits_of_offset_eq_zero {w : BitStreamWriter} (h : w.m_offset = 0) :
    w.bits = bytesBits w.out := by
  simp [bits, h]

/-- The byte `Write` ORs into the buffer: the next `min (8 - off) nbits` bits
of the field, placed right below the bits already written. -/
theorem toNat_field (data : UInt64) {off nbits : Nat} (hoff : off < 8) (h1 : 0 < nbits)
    (h64 : nbits ≤ 64) :
    ((data <<< (64 - nbits).toUInt64) >>> (64 - 8 + off).toUInt64).toUInt8.toNat =
      (data.toNat % 2 ^ nbits) >>> (nbits - min (8 - off) nbits) *
        2 ^ (8 - off - min (8 - off) nbits) := by
  have hs : (64 - nbits).toUInt64.toNat % 64 = 64 - nbits := by simp [Nat.toUInt64]; omega
  have ht : (64 - 8 + off).toUInt64.toNat % 64 = 56 + off := by simp [Nat.toUInt64]; omega
  rw [UInt64.toNat_toUInt8, UInt64.toNat_shiftRight, UInt64.toNat_shiftLeft, hs, ht]
  apply Nat.eq_of_testBit_eq
  intro i
  rw [Nat.testBit_mod_two_pow, Nat.testBit_shiftRight, Nat.testBit_mod_two_pow,
    Nat.testBit_shiftLeft, Nat.testBit_mul_two_pow, Nat.testBit_shiftRight,
    Nat.testBit_mod_two_pow]
  -- the field lands in bits `8 - off - bits` to `8 - off` of the byte
  by_cases hlo : 8 - off - min (8 - off) nbits ≤ i
  · by_cases hhi : i < 8 - off
    · have hidx : 56 + off + i - (64 - nbits) =
          nbits - min (8 - off) nbits + (i - (8 - off - min (8 - off) nbits)) := by omega
      simp [hlo, hidx, show i < 8 by omega, show 56 + off + i < 64 by omega,
        show 64 - nbits ≤ 56 + off + i by omega,
        show nbits - min (8 - off) nbits + (i - (8 - off - min (8 - off) nbits)) < nbits by omega]
    · simp [hlo, show ¬ 56 + off + i < 64 by omega,
        show ¬ nbits - min (8 - off) nbits + (i - (8 - off - min (8 - off) nbits)) < nbits by omega]
  · simp [hlo, show ¬ 64 - nbits ≤ 56 + off + i by omega]

/-- **One turn of `Write`.**  The bits moved into the buffer are the first
`min (8 - m_offset) nbits` of the field; the rest is what the loop still has
to write. -/
theorem writeStep_spec (data : UInt64) {w : BitStreamWriter} (hw : w.WF) {nbits : Nat}
    (h1 : 0 < nbits) (h64 : nbits ≤ 64) :
    (w.writeStep data nbits).bits ++ beBits data.toNat (nbits - min (8 - w.m_offset) nbits) =
        w.bits ++ beBits data.toNat nbits ∧
      (w.writeStep data nbits).WF ∧ w.out <+: (w.writeStep data nbits).out := by
  have hoff := w.offset_lt
  have hold : w.bits = bytesBits w.out ++ beBits (w.m_buffer.toNat >>> (8 - w.m_offset))
    w.m_offset := rfl
  rw [hold]
  unfold WF at hw
  unfold writeStep
  set off := w.m_offset with hoff_def
  set k := min (8 - off) nbits with hk
  set hi := w.m_buffer.toNat >>> (8 - off) with hhi
  set y := (data.toNat % 2 ^ nbits) >>> (nbits - k) with hy_def
  have hy : y < 2 ^ k := by
    rw [hy_def, Nat.shiftRight_eq_div_pow, Nat.div_lt_iff_lt_mul (Nat.two_pow_pos _), ← pow_add,
      show k + (nbits - k) = nbits by omega]
    exact Nat.mod_lt _ (Nat.two_pow_pos _)
  have hbuf : w.m_buffer.toNat = hi * 2 ^ (k + (8 - off - k)) := by
    rw [show k + (8 - off - k) = 8 - off by omega, hhi, Nat.shiftRight_eq_div_pow]
    exact (Nat.div_mul_cancel (Nat.dvd_of_mod_eq_zero hw)).symm
  -- the new buffer holds the old bits, then the field's next `k` bits, then zeros
  have hnew : (w.m_buffer |||
      ((data <<< (64 - nbits).toUInt64) >>> (64 - 8 + off).toUInt64).toUInt8).toNat =
      (hi * 2 ^ k + y) * 2 ^ (8 - off - k) := by
    rw [UInt8.toNat_or, toNat_field data hoff h1 h64, hbuf, mul_two_pow_or_mul_two_pow _ _ hy]
  have hfield : beBits data.toNat nbits = beBits y k ++ beBits data.toNat (nbits - k) := by
    conv_lhs => rw [show nbits = k + (nbits - k) by omega]
    rw [beBits_add, hy_def, beBits_mod_shiftRight _ (by omega)]
  have hspell : beBits (hi * 2 ^ k + y) (off + k) = beBits hi off ++ beBits y k :=
    beBits_mul_two_pow_add _ hy _
  by_cases ho : off + k = 8
  · -- the byte is full and goes to the stream
    rw [dif_pos ho]
    refine ⟨?_, by simp [WF], List.prefix_append _ _⟩
    have hbyte : beBits (w.m_buffer |||
        ((data <<< (64 - nbits).toUInt64) >>> (64 - 8 + off).toUInt64).toUInt8).toNat 8 =
        beBits hi off ++ beBits y k := by
      rw [hnew, show 8 - off - k = 0 by omega, Nat.pow_zero, Nat.mul_one, ← hspell, ho]
    rw [bits_mk, bytesBits_append, bytesBits_cons, bytesBits_nil, List.append_nil, byteBits,
      hbyte, beBits_zero, List.append_nil, hfield]
    simp only [List.append_assoc]
    rfl
  · rw [dif_neg ho]
    refine ⟨?_, ?_, List.prefix_refl _⟩
    · have hshift : ((hi * 2 ^ k + y) * 2 ^ (8 - off - k)) >>> (8 - (off + k)) =
          hi * 2 ^ k + y := by
        rw [Nat.shiftRight_eq_div_pow, show 8 - (off + k) = 8 - off - k by omega,
          Nat.mul_div_cancel _ (Nat.two_pow_pos _)]
      rw [bits_mk, hnew, hshift, hspell, hfield]
      simp only [List.append_assoc]
      rfl
    · show (w.m_buffer ||| _).toNat % 2 ^ (8 - (off + k)) = 0
      rw [hnew, show 8 - (off + k) = 8 - off - k by omega]
      exact Nat.mul_mod_left _ _

/-- **`Write` appends the field.**  The loop runs the step lemma until the
field is used up. -/
theorem writeLoop_spec (data : UInt64) {w : BitStreamWriter} {nbits : Nat} (hw : w.WF)
    (h64 : nbits ≤ 64) :
    (w.writeLoop data nbits).bits = w.bits ++ beBits data.toNat nbits ∧
      (w.writeLoop data nbits).WF ∧ w.out <+: (w.writeLoop data nbits).out := by
  fun_induction writeLoop data w nbits with
  | case1 w => exact ⟨by simp, hw, List.prefix_refl _⟩
  | case2 w nbits h0 ih =>
    obtain ⟨hstep, hwf, hpre⟩ := writeStep_spec data hw (Nat.pos_of_ne_zero h0) h64
    obtain ⟨hbits, hwf', hpre'⟩ := ih hwf (by omega)
    exact ⟨hbits.trans hstep, hwf', hpre.trans hpre'⟩

theorem write_eq_ok (data : UInt64) {w : BitStreamWriter} {nbits : Nat} (h64 : nbits ≤ 64) :
    w.write data nbits = .ok (w.writeLoop data nbits) := by
  simp [write, show ¬ nbits > 64 by omega]

/-- **`Flush` pads to a byte boundary** with zeros, and leaves the buffer empty. -/
theorem flush_spec {w : BitStreamWriter} (hw : w.WF) :
    w.flush.bits = w.bits ++ List.replicate ((8 - w.m_offset) % 8) false ∧
      w.flush.m_offset = 0 ∧ w.out <+: w.flush.out := by
  unfold flush
  by_cases h0 : w.m_offset = 0
  · rw [if_pos h0]
    exact ⟨by simp [h0], h0, List.prefix_refl _⟩
  · rw [if_neg h0]
    refine ⟨?_, rfl, List.prefix_append _ _⟩
    have hoff := w.offset_lt
    have hpad : (8 - w.m_offset) % 8 = 8 - w.m_offset := Nat.mod_eq_of_lt (by omega)
    -- the buffer is its high bits, then zeros
    have hbuf : (w.m_buffer.toNat >>> (8 - w.m_offset)) * 2 ^ (8 - w.m_offset) =
        w.m_buffer.toNat := by
      rw [Nat.shiftRight_eq_div_pow]
      exact Nat.div_mul_cancel (Nat.dvd_of_mod_eq_zero hw)
    have hbyte : byteBits w.m_buffer =
        beBits (w.m_buffer.toNat >>> (8 - w.m_offset)) w.m_offset ++
          List.replicate (8 - w.m_offset) false := by
      have h := beBits_mul_two_pow_add (w.m_buffer.toNat >>> (8 - w.m_offset))
        (show 0 < 2 ^ (8 - w.m_offset) from Nat.two_pow_pos _) w.m_offset
      rw [Nat.add_zero, hbuf, show w.m_offset + (8 - w.m_offset) = 8 by omega,
        beBits_zero_left] at h
      exact h
    rw [bits_mk, bytesBits_append, bytesBits_cons, bytesBits_nil, List.append_nil, hbyte, hpad]
    simp [bits]

end BitStreamWriter

/-! ## The reader returns bits -/

namespace BitStreamReader

/-- The bits a reader has not returned yet: the low `8 - m_offset` bits of the
buffer, then the stream. -/
def bits (r : BitStreamReader) : List Bool :=
  beBits r.m_buffer.toNat (8 - r.m_offset) ++ bytesBits r.stream

theorem init_bits (stream : List UInt8) : (init stream).bits = bytesBits stream := by
  simp [init, bits]

theorem length_bits (r : BitStreamReader) :
    r.bits.length = 8 - r.m_offset + 8 * r.stream.length := by
  simp [bits]

/-- A reader with less than a byte left has taken all of its stream. -/
theorem stream_eq_nil_of_length_bits_lt {r : BitStreamReader} (h : r.bits.length < 8) :
    r.stream = [] := by
  rw [length_bits] at h
  exact List.eq_nil_of_length_eq_zero (by omega)

/-- What `refill` does: take the next byte, which leaves the bits to come as
they were, or throw at the end of the stream, when no bit is left. -/
theorem refill_cases (r : BitStreamReader) :
    (∃ r₁, r.refill = .ok r₁ ∧ r₁.bits = r.bits) ∨
      (r.refill = .error VECTOR_READER_EOD ∧ r.bits = []) := by
  unfold refill
  by_cases h8 : r.m_offset = 8
  · rw [if_pos h8]
    split
    · next b rest hs =>
      exact .inl ⟨_, rfl, by simp [bits, h8, hs, byteBits]⟩
    · next hs =>
      exact .inr ⟨rfl, by simp [bits, h8, hs]⟩
  · rw [if_neg h8]
    exact .inl ⟨r, rfl, rfl⟩

/-- The chunk `Read` takes from the buffer: its next `k` bits below the offset. -/
theorem toNat_chunk (b : UInt8) {off k : Nat} (hk : off + k ≤ 8) (hk0 : 0 < k) :
    ((b <<< off.toUInt8) >>> (8 - k).toUInt8).toUInt64.toNat =
      (b.toNat >>> (8 - off - k)) % 2 ^ k := by
  have hs : off.toUInt8.toNat % 8 = off := by simp [Nat.toUInt8]; omega
  have ht : (8 - k).toUInt8.toNat % 8 = 8 - k := by simp [Nat.toUInt8]; omega
  rw [UInt8.toNat_toUInt64, UInt8.toNat_shiftRight, UInt8.toNat_shiftLeft, hs, ht]
  apply Nat.eq_of_testBit_eq
  intro i
  rw [Nat.testBit_shiftRight, Nat.testBit_mod_two_pow, Nat.testBit_shiftLeft,
    Nat.testBit_mod_two_pow, Nat.testBit_shiftRight]
  by_cases hi : i < k
  · simp [hi, show 8 - k + i < 8 by omega, show off ≤ 8 - k + i by omega,
      show 8 - k + i - off = 8 - off - k + i by omega]
  · simp [hi, show ¬ 8 - k + i < 8 by omega]

/-- **One turn of `Read`.**  It returns the next `min (8 - m_offset) nbits`
bits, shifted in below what `data` held, and drops them. -/
theorem readStep_spec (r : BitStreamReader) (data : UInt64) {nbits : Nat}
    (hoff : r.m_offset < 8) (h0 : 0 < nbits) :
    (r.readStep data nbits).2.bits = r.bits.drop (min (8 - r.m_offset) nbits) ∧
      (r.readStep data nbits).1.toNat =
        (data.toNat * 2 ^ min (8 - r.m_offset) nbits +
          ofBits (r.bits.take (min (8 - r.m_offset) nbits))) % 2 ^ 64 ∧
      min (8 - r.m_offset) nbits ≤ r.bits.length := by
  have hsplit : beBits r.m_buffer.toNat (8 - r.m_offset) =
      beBits (r.m_buffer.toNat >>> (8 - r.m_offset - min (8 - r.m_offset) nbits))
          (min (8 - r.m_offset) nbits) ++
        beBits r.m_buffer.toNat (8 - r.m_offset - min (8 - r.m_offset) nbits) := by
    rw [← beBits_add]
    congr 1
    omega
  have hbits : r.bits = beBits (r.m_buffer.toNat >>> (8 - r.m_offset - min (8 - r.m_offset) nbits))
        (min (8 - r.m_offset) nbits) ++
      (beBits r.m_buffer.toNat (8 - r.m_offset - min (8 - r.m_offset) nbits) ++
        bytesBits r.stream) := by
    rw [bits, hsplit, List.append_assoc]
  have hk : (min (8 - r.m_offset) nbits).toUInt64.toNat % 64 = min (8 - r.m_offset) nbits := by
    simp [Nat.toUInt64]
    omega
  refine ⟨?_, ?_, by rw [length_bits]; omega⟩
  · rw [hbits, List.drop_left' (length_beBits _ _)]
    simp only [readStep, bits]
    congr 2
    omega
  · rw [hbits, List.take_left' (length_beBits _ _), ofBits_beBits]
    simp only [readStep]
    rw [UInt64.toNat_or, UInt64.toNat_shiftLeft, hk,
      toNat_chunk _ (by omega) (by omega),
      shiftLeft_mod_or _ _ (Nat.mod_lt _ (Nat.two_pow_pos _)) (by omega)]

/-- Reducing the accumulator mod `2^64` before shifting it on changes nothing. -/
theorem mod_mul_add_mod (a b c n : Nat) : (a % n * c + b) % n = (a * c + b) % n := by
  rw [Nat.add_mod, Nat.mul_mod, Nat.mod_mod, ← Nat.mul_mod, ← Nat.add_mod]

/-- **`Read` returns the next bits.**  With enough bits left, the loop shifts
the first `nbits` of them into `data` and drops them; with fewer, it throws at
the end of the stream. -/
theorem readLoop_spec (r : BitStreamReader) (data : UInt64) (nbits : Nat) :
    (nbits ≤ r.bits.length → ∃ v r', r.readLoop data nbits = .ok (v, r') ∧
      v.toNat = (data.toNat * 2 ^ nbits + ofBits (r.bits.take nbits)) % 2 ^ 64 ∧
      r'.bits = r.bits.drop nbits) ∧
    (r.bits.length < nbits → r.readLoop data nbits = .error VECTOR_READER_EOD) := by
  fun_induction readLoop r data nbits with
  | case1 r data =>
    refine ⟨fun _ => ⟨data, r, rfl, ?_, by simp⟩, fun h => absurd h (Nat.not_lt_zero _)⟩
    simp [Nat.mod_eq_of_lt data.toNat_lt]
  | case2 r data nbits h0 e h =>
    rcases refill_cases r with ⟨r₁, h₁, _⟩ | ⟨hr, hnil⟩
    · rw [h] at h₁
      cases h₁
    · refine ⟨fun hle => ?_, fun _ => by rw [hr] at h; cases h; rfl⟩
      rw [hnil] at hle
      exact absurd hle (by simpa using h0)
  | case3 r data nbits h0 r₁ h ih =>
    obtain ⟨hstep, hval, hk⟩ := readStep_spec r₁ data (offset_lt_of_refill h) (Nat.pos_of_ne_zero h0)
    have hr₁ : r₁.bits = r.bits := by
      rcases refill_cases r with ⟨r₂, h₂, hbits⟩ | ⟨hr, _⟩
      · rw [h] at h₂
        cases h₂
        exact hbits
      · rw [h] at hr
        cases hr
    have hkpos : 0 < min (8 - r₁.m_offset) nbits :=
      Nat.lt_min.mpr ⟨Nat.sub_pos_of_lt (offset_lt_of_refill h), Nat.pos_of_ne_zero h0⟩
    have hkle : min (8 - r₁.m_offset) nbits ≤ nbits := Nat.min_le_right _ _
    rw [hr₁] at hstep hval hk
    obtain ⟨ihok, iherr⟩ := ih
    -- the step took `k` bits; the rest of the loop reads `nbits - k`
    generalize min (8 - r₁.m_offset) nbits = k at *
    refine ⟨fun hle => ?_, fun hlt => iherr (by rw [hstep, List.length_drop]; omega)⟩
    obtain ⟨v, r', hrun, hv, hbits'⟩ := ihok (by rw [hstep, List.length_drop]; omega)
    refine ⟨v, r', hrun, ?_, by rw [hbits', hstep, List.drop_drop]; congr 1; omega⟩
    have hlen : (List.take (nbits - k) (List.drop k r.bits)).length = nbits - k := by
      simp only [List.length_take, List.length_drop]
      omega
    rw [hv, hval, hstep, mod_mul_add_mod]
    conv_rhs => rw [show nbits = k + (nbits - k) by omega]
    rw [List.take_add, ofBits_append, hlen, Nat.pow_add]
    congr 1
    ring

/-- `Read(nbits)` with enough bits left. -/
theorem read_eq_ok {r : BitStreamReader} {nbits : Nat} (h64 : nbits ≤ 64)
    (h : nbits ≤ r.bits.length) :
    ∃ v r', r.read nbits = .ok (v, r') ∧ v.toNat = ofBits (r.bits.take nbits) ∧
      r'.bits = r.bits.drop nbits := by
  obtain ⟨v, r', hrun, hv, hbits⟩ := (readLoop_spec r 0 nbits).1 h
  refine ⟨v, r', by simp [read, show ¬ nbits > 64 by omega, hrun], ?_, hbits⟩
  have hlt : ofBits (r.bits.take nbits) < 2 ^ 64 :=
    lt_of_lt_of_le (ofBits_lt _)
      (Nat.pow_le_pow_right (by norm_num) (by simp only [List.length_take]; omega))
  rw [hv, UInt64.toNat_zero, Nat.zero_mul, Nat.zero_add, Nat.mod_eq_of_lt hlt]

/-- `Read(nbits)` past the end of the stream. -/
theorem read_eq_error {r : BitStreamReader} {nbits : Nat} (h64 : nbits ≤ 64)
    (h : r.bits.length < nbits) : r.read nbits = .error VECTOR_READER_EOD := by
  simp [read, show ¬ nbits > 64 by omega, (readLoop_spec r 0 nbits).2 h]

/-- A read of one bit takes one bit, which is what makes a loop of them stop. -/
theorem length_bits_lt_of_read_one {r r' : BitStreamReader} {v : UInt64}
    (h : r.read 1 = .ok (v, r')) : r'.bits.length < r.bits.length := by
  by_cases hlen : 1 ≤ r.bits.length
  · obtain ⟨v', r'', hrun, -, hbits⟩ := read_eq_ok (le_of_eq_of_le rfl (by norm_num)) hlen
    rw [h] at hrun
    cases hrun
    rw [hbits, List.length_drop]
    omega
  · rw [read_eq_error (by norm_num) (by omega)] at h
    cases h

end BitStreamReader

end Veribase
