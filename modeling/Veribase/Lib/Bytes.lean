import Mathlib

/-!
# Little-endian byte strings and a throwing reader

Integers travel as little-endian byte strings.  `leValue` reads a byte string
as a number, least significant byte first, and `leBytes k x` writes the `k`
low bytes of `x`.  The two are inverse on strings of a fixed length
(`leValue_leBytes`, `leBytes_leValue`), so a fixed-length little-endian field
determines its bytes (`leValue_inj`).

A stream reader is a state over the unread bytes that throws on a short read.
`readBytes` takes `n` bytes or throws `eod` when fewer are left.  `Consumes r k`
says every successful run of `r` takes at least `k` bytes.  Binds add their
bounds and `readN` multiplies them, so a reader that needs more than the
stream holds throws (`Consumes.throws_of_short`): the argument that a
misaligned parser cannot finish.
-/

namespace ByteStream

/-! ## Little-endian values -/

/-- The number a byte string denotes, least significant byte first. -/
def leValue : List UInt8 → Nat
  | [] => 0
  | b :: bs => b.toNat + 256 * leValue bs

/-- The `k` low bytes of `x`, least significant first. -/
def leBytes : Nat → Nat → List UInt8
  | 0, _ => []
  | k + 1, x => UInt8.ofNat (x % 256) :: leBytes k (x / 256)

@[simp] theorem leValue_nil : leValue [] = 0 := rfl

@[simp] theorem leValue_cons (b : UInt8) (bs : List UInt8) :
    leValue (b :: bs) = b.toNat + 256 * leValue bs := rfl

@[simp] theorem length_leBytes : ∀ (k x : Nat), (leBytes k x).length = k
  | 0, _ => rfl
  | k + 1, x => by simp [leBytes, length_leBytes k]

theorem leValue_lt : ∀ (l : List UInt8), leValue l < 256 ^ l.length
  | [] => by simp
  | b :: bs => by
      have hb := b.toNat_lt
      have ih := leValue_lt bs
      rw [leValue_cons, List.length_cons, Nat.pow_succ]
      omega

theorem leValue_leBytes : ∀ (k x : Nat), leValue (leBytes k x) = x % 256 ^ k
  | 0, x => by simp [leBytes, Nat.mod_one]
  | k + 1, x => by
      have hbyte : (UInt8.ofNat (x % 256)).toNat = x % 256 := by
        rw [UInt8.toNat_ofNat']
        omega
      rw [leBytes, leValue_cons, leValue_leBytes k, hbyte, Nat.pow_succ', Nat.mod_mul]

theorem leBytes_leValue : ∀ (l : List UInt8), leBytes l.length (leValue l) = l
  | [] => rfl
  | b :: bs => by
      have hb := b.toNat_lt
      have hlow : (b.toNat + 256 * leValue bs) % 256 = b.toNat := by omega
      have hhigh : (b.toNat + 256 * leValue bs) / 256 = leValue bs := by omega
      rw [List.length_cons, leBytes, leValue_cons, hlow, hhigh, leBytes_leValue bs]
      simp

/-- A little-endian field of known length determines its bytes. -/
theorem leValue_inj {l₁ l₂ : List UInt8} (hlen : l₁.length = l₂.length)
    (hv : leValue l₁ = leValue l₂) : l₁ = l₂ := by
  rw [← leBytes_leValue l₁, ← leBytes_leValue l₂, hlen, hv]

theorem leValue_append : ∀ (l₁ l₂ : List UInt8),
    leValue (l₁ ++ l₂) = leValue l₁ + 256 ^ l₁.length * leValue l₂
  | [], l₂ => by simp
  | b :: bs, l₂ => by
      rw [List.cons_append, leValue_cons, leValue_cons, leValue_append bs l₂, List.length_cons,
        Nat.pow_succ']
      ring

/-- Bytes read as numbers and written back are the same bytes. -/
theorem map_toUInt8_toNat (xs : List UInt8) : (xs.map UInt8.toNat).map Nat.toUInt8 = xs := by
  rw [List.map_map]
  exact (List.map_congr_left fun x _ => by simp).trans (List.map_id xs)

/-- Numbers below 256 written as bytes read back as themselves. -/
theorem map_toNat_toUInt8 {vs : List Nat} (hvs : ∀ v ∈ vs, v < 256) :
    (vs.map Nat.toUInt8).map UInt8.toNat = vs := by
  rw [List.map_map]
  refine (List.map_congr_left fun v hv => ?_).trans (List.map_id vs)
  have := hvs v hv
  simp only [Function.comp_apply, Nat.toUInt8_eq, UInt8.toNat_ofNat', id_eq]
  omega

/-- Bit 7 of a byte, the mark of a VarInt group and the sign of a script number. -/
theorem and_mark_ne_zero {v : Nat} (hv : v < 256) : v &&& 0x80 ≠ 0 ↔ 128 ≤ v := by
  rw [show (0x80 : Nat) = 2 ^ 7 from rfl, Nat.and_two_pow, Nat.testBit_eq_decide_div_mod_eq]
  by_cases h : v / 2 ^ 7 % 2 = 1
  · simp only [h, decide_true, Bool.toNat_true]
    omega
  · simp only [h, decide_false, Bool.toNat_false]
    omega

/-! ## A throwing reader -/

/-- A reader of a byte stream with errors in `ε`. -/
abbrev Reader (ε : Type) := StateT (List UInt8) (Except ε)

variable {ε α β : Type}

@[simp] theorem except_ok_bind (a : α) (f : α → Except ε β) :
    (Except.ok a >>= f) = f a := rfl

@[simp] theorem except_pure (a : α) : (pure a : Except ε α) = Except.ok a := rfl

/-- Take the next `n` bytes, or throw `eod` when fewer are left. -/
def readBytes (eod : ε) (n : Nat) : Reader ε (List UInt8) := fun s =>
  if n ≤ s.length then .ok (s.take n, s.drop n) else .error eod

/-- Take the next byte, or throw `eod` at the end. -/
def readByte (eod : ε) : Reader ε UInt8 := fun s =>
  match s with
  | b :: rest => .ok (b, rest)
  | [] => .error eod

/-- Read `n` values in a row, as a loop over a vector resized to `n`. -/
def readN (r : Reader ε α) : Nat → Reader ε (List α)
  | 0 => pure []
  | n + 1 => do
      let a ← r
      let as ← readN r n
      pure (a :: as)

theorem readBytes_append (eod : ε) {l : List UInt8} {n : Nat} (rest : List UInt8)
    (hl : l.length = n) : (readBytes eod n).run (l ++ rest) = .ok (l, rest) := by
  subst hl
  simp [readBytes, StateT.run]

@[simp] theorem readByte_cons (eod : ε) (b : UInt8) (rest : List UInt8) :
    (readByte eod).run (b :: rest) = .ok (b, rest) := rfl

@[simp] theorem readByte_nil (eod : ε) : (readByte eod).run [] = .error eod := rfl

/-- A bind succeeds exactly when both halves do, the second on what the first left. -/
theorem run_bind_eq_ok {r : Reader ε α} {f : α → Reader ε β} {s s' : List UInt8} {b : β} :
    (r >>= f).run s = .ok (b, s') ↔ ∃ a t, r.run s = .ok (a, t) ∧ (f a).run t = .ok (b, s') := by
  rw [StateT.run_bind]
  cases hrun : r.run s with
  | error e => simp [bind, Except.bind]
  | ok p =>
    obtain ⟨a, t⟩ := p
    simp

/-- A successful `readBytes` split the stream at `n`. -/
theorem readBytes_eq_ok {eod : ε} {n : Nat} {s l rest : List UInt8} :
    (readBytes eod n).run s = .ok (l, rest) ↔ l.length = n ∧ s = l ++ rest := by
  constructor
  · intro h
    simp only [readBytes, StateT.run] at h
    split at h
    · cases h
      exact ⟨by simp; omega, (List.take_append_drop n s).symm⟩
    · cases h
  · rintro ⟨hl, rfl⟩
    exact readBytes_append eod rest hl

/-- `n` encodings of width `k` in a row take `n * k` bytes. -/
theorem length_flatMap_const {β : Type} {enc : β → List UInt8} {k : Nat}
    (h : ∀ b, (enc b).length = k) : ∀ L : List β, (L.flatMap enc).length = L.length * k
  | [] => by simp
  | b :: L => by
      rw [List.flatMap_cons, List.length_append, h, length_flatMap_const h L, List.length_cons,
        Nat.succ_mul, Nat.add_comm]

/-- Reading `n` values back from `n` encodings in a row, when one value reads
back from its own encoding whatever follows it. -/
theorem readN_flatMap {β : Type} {r : Reader ε α} {enc : β → List UInt8} {f : β → α}
    (hr : ∀ b rest, r.run (enc b ++ rest) = .ok (f b, rest)) :
    ∀ (L : List β) (rest : List UInt8),
      (readN r L.length).run (L.flatMap enc ++ rest) = .ok (L.map f, rest)
  | [], rest => rfl
  | b :: L, rest => by
      rw [List.flatMap_cons, List.append_assoc, List.length_cons, readN, StateT.run_bind, hr,
        except_ok_bind, StateT.run_bind, readN_flatMap hr L rest, except_ok_bind]
      rfl

/-- Reading `n` values back from `n` encodings in a row, when each value of
the list reads back from its own encoding whatever follows it. -/
theorem readN_flatMap_of_mem {β : Type} {r : Reader ε α} {enc : β → List UInt8} {f : β → α} :
    ∀ (L : List β), (∀ b ∈ L, ∀ rest, r.run (enc b ++ rest) = .ok (f b, rest)) →
      ∀ rest, (readN r L.length).run (L.flatMap enc ++ rest) = .ok (L.map f, rest)
  | [], _, rest => rfl
  | b :: L, hr, rest => by
      have hb := hr b List.mem_cons_self
      have hL := readN_flatMap_of_mem L (fun b' hb' => hr b' (List.mem_cons_of_mem b hb'))
      rw [List.flatMap_cons, List.append_assoc, List.length_cons, readN, StateT.run_bind, hb,
        except_ok_bind, StateT.run_bind, hL rest, except_ok_bind]
      rfl

/-! ## How much a reader consumes -/

/-- Every successful run of `r` takes at least `k` bytes of its input. -/
def Consumes (r : Reader ε α) (k : Nat) : Prop :=
  ∀ s a s', r.run s = .ok (a, s') → s'.length + k ≤ s.length

theorem consumes_readBytes (eod : ε) (n : Nat) : Consumes (readBytes eod n) n := by
  intro s a s' h
  simp only [readBytes, StateT.run] at h
  split at h
  · cases h
    simp only [List.length_drop]
    omega
  · cases h

theorem consumes_readByte (eod : ε) : Consumes (readByte eod) 1 := by
  intro s b s' h
  cases s with
  | nil => cases h
  | cons c rest =>
      cases h
      simp

theorem consumes_pure (a : α) : Consumes (pure a : Reader ε α) 0 := by
  intro s b s' h
  simp only [StateT.run, pure, StateT.pure, Except.pure, Except.ok.injEq, Prod.mk.injEq] at h
  rw [h.2]
  omega

theorem consumes_throw {k : Nat} (e : ε) : Consumes (throw e : Reader ε α) k := by
  intro s a s' h
  cases h

theorem Consumes.ite {c : Prop} [Decidable c] {r₁ r₂ : Reader ε α} {k : Nat}
    (h₁ : Consumes r₁ k) (h₂ : Consumes r₂ k) : Consumes (if c then r₁ else r₂) k := by
  split
  · exact h₁
  · exact h₂

theorem Consumes.dite {c : Prop} [Decidable c] {r₁ : c → Reader ε α} {r₂ : ¬ c → Reader ε α}
    {k : Nat} (h₁ : ∀ h, Consumes (r₁ h) k) (h₂ : ∀ h, Consumes (r₂ h) k) :
    Consumes (if h : c then r₁ h else r₂ h) k := by
  split
  · exact h₁ _
  · exact h₂ _

theorem Consumes.map {r : Reader ε α} {k : Nat} (f : α → β) (hr : Consumes r k) :
    Consumes (f <$> r) k := by
  intro s b s' h
  rw [StateT.run_map] at h
  cases hrun : r.run s with
  | error e =>
      rw [hrun] at h
      cases h
  | ok p =>
      rw [hrun] at h
      cases h
      exact hr s p.1 p.2 hrun

theorem Consumes.bind {r : Reader ε α} {f : α → Reader ε β} {k l : Nat}
    (hr : Consumes r k) (hf : ∀ a, Consumes (f a) l) : Consumes (r >>= f) (k + l) := by
  intro s b s' h
  rw [StateT.run_bind] at h
  cases hrun : r.run s with
  | error e =>
      rw [hrun] at h
      cases h
  | ok p =>
      rw [hrun] at h
      have h₁ := hr s p.1 p.2 hrun
      have h₂ := hf p.1 p.2 b s' h
      omega

theorem Consumes.mono {r : Reader ε α} {k l : Nat} (hr : Consumes r k) (hlk : l ≤ k) :
    Consumes r l := by
  intro s a s' h
  have := hr s a s' h
  omega

theorem Consumes.readN {r : Reader ε α} {k : Nat} (hr : Consumes r k) :
    ∀ n, Consumes (readN r n) (n * k)
  | 0 => by simpa [ByteStream.readN] using consumes_pure ([] : List α)
  | n + 1 => by
      have h := hr.bind fun a => (Consumes.readN hr n).bind fun as =>
        consumes_pure (ε := ε) (a :: as)
      rw [ByteStream.readN]
      exact h.mono (by rw [Nat.succ_mul]; omega)

/-- A reader that needs more bytes than the stream holds throws. -/
theorem Consumes.throws_of_short {r : Reader ε α} {k : Nat} (hr : Consumes r k)
    {s : List UInt8} (hs : s.length < k) : ∃ e, r.run s = .error e := by
  cases h : r.run s with
  | error e => exact ⟨e, rfl⟩
  | ok p =>
      have := hr s p.1 p.2 h
      omega

end ByteStream
