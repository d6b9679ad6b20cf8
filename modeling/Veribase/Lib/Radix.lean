import Mathlib.Data.Nat.Digits.Lemmas
import Mathlib.Data.List.TakeWhile
import Mathlib.Data.Rat.Cast.CharZero

/-!
# Changing the base of a number, one digit at a time

A buffer of digits in base `base`, the least significant first, holds a
number.  A conversion reads the digits of a number written in another base
`mul`, the most significant first, and for each one multiplies the buffer by
`mul` and adds the digit.  `carryLoop` is that multiply-and-add: it walks the
buffer from the low end, keeps `(carry + mul * d) % base` and carries the
quotient on, and stops at the end of the buffer, or once the carry is spent
and the `length` digits in use are passed.

* `value_carryLoop`: the loop keeps the number: the buffer it writes, with
  the carry it could not store above it, is `carry + mul * n`.
* `carryLoop_top`: the digits in use never end in a zero, so that they are
  exactly Mathlib's `Nat.digits` of the number.
* `carryLoop_digits`: from the digits of `n` padded with zeros the loop
  writes the digits of `carry + mul * n` padded with zeros, and returns
  their number as the new `length`, whenever the result fits the buffer.
* `pow_le_pow_div_add_one`: a buffer of `a * k / b + 1` digits of base
  `base` holds every number of `k` digits of base `mul`, once
  `mul ^ b ≤ base ^ a`; `pow_le_pow_of_le_ratio` gets that bound from
  smaller exponents of a ratio at most `a / b`.
* `le_of_mul_pow_eq`, `nonneg_of_mul_zpow_eq_intCast`: a number whose last
  digit is not zero keeps its leading part when its trailing zeros are taken
  off, and stays whole when scaled by a power of the base only if the power
  is not negative.
-/

namespace Radix

/-- The multiply-and-add loop over the buffer's digits from position `i` on.
It returns the new digits, the carry left over and the position it stopped
at. -/
def carryLoop (mul base length : Nat) : Nat → Nat → List Nat → List Nat × Nat × Nat
  | carry, i, [] => ([], carry, i)
  | carry, i, d :: ds =>
    if carry ≠ 0 ∨ i < length then
      let r := carryLoop mul base length ((carry + mul * d) / base) (i + 1) ds
      ((carry + mul * d) % base :: r.1, r.2.1, r.2.2)
    else (d :: ds, carry, i)

/-- The digits of a list end in a nonzero one, as `Nat.digits_ofDigits` asks. -/
def NoTrailingZero (l : List Nat) : Prop := ∀ h : l ≠ [], l.getLast h ≠ 0

section Loop

variable {mul base length c i d : Nat} {ds : List Nat}

@[simp] theorem carryLoop_nil : carryLoop mul base length c i [] = ([], c, i) := rfl

theorem carryLoop_cons_of_go (h : c ≠ 0 ∨ i < length) :
    carryLoop mul base length c i (d :: ds) =
      ((c + mul * d) % base ::
          (carryLoop mul base length ((c + mul * d) / base) (i + 1) ds).1,
        (carryLoop mul base length ((c + mul * d) / base) (i + 1) ds).2.1,
        (carryLoop mul base length ((c + mul * d) / base) (i + 1) ds).2.2) := by
  rw [carryLoop, if_pos h]

theorem carryLoop_cons_of_stop (h : ¬(c ≠ 0 ∨ i < length)) :
    carryLoop mul base length c i (d :: ds) = (d :: ds, c, i) := by
  rw [carryLoop, if_neg h]

@[simp] theorem length_carryLoop :
    (carryLoop mul base length c i ds).1.length = ds.length := by
  induction ds generalizing c i with
  | nil => rfl
  | cons d ds ih =>
    by_cases h : c ≠ 0 ∨ i < length
    · simp [carryLoop_cons_of_go h, ih]
    · simp [carryLoop_cons_of_stop h]

/-- The digits past the ones in use are zeros; one step on, they still are. -/
theorem drop_zero_cons {length i d : Nat} {ds : List Nat}
    (hz : ∀ x ∈ (d :: ds).drop (length - i), x = 0) :
    ∀ x ∈ ds.drop (length - (i + 1)), x = 0 := by
  intro x hx
  rcases Nat.eq_zero_or_pos (length - i) with h0 | hpos
  · rw [h0] at hz
    have h1 : length - (i + 1) = 0 := by omega
    rw [h1, List.drop_zero] at hx
    exact hz x (List.mem_cons_of_mem d hx)
  · have hs : length - i = length - (i + 1) + 1 := by omega
    rw [hs, List.drop_succ_cons] at hz
    exact hz x hx

/-- The loop keeps the number: what it writes, with the c out above the
buffer, is the c in plus `mul` times what the buffer held. -/
theorem value_carryLoop (hz : ∀ x ∈ ds.drop (length - i), x = 0) :
    Nat.ofDigits base (carryLoop mul base length c i ds).1 +
        base ^ ds.length * (carryLoop mul base length c i ds).2.1 =
      c + mul * Nat.ofDigits base ds := by
  induction ds generalizing c i with
  | nil => simp
  | cons d ds ih =>
    by_cases h : c ≠ 0 ∨ i < length
    · rw [carryLoop_cons_of_go h]
      set t := c + mul * d
      have hrest := ih (c := t / base) (drop_zero_cons hz)
      calc Nat.ofDigits base (t % base :: (carryLoop mul base length (t / base) (i + 1) ds).1) +
              base ^ (d :: ds).length * (carryLoop mul base length (t / base) (i + 1) ds).2.1
          = t % base + base * (Nat.ofDigits base (carryLoop mul base length (t / base) (i + 1) ds).1 +
              base ^ ds.length * (carryLoop mul base length (t / base) (i + 1) ds).2.1) := by
            rw [Nat.ofDigits_cons, List.length_cons, pow_succ]; ring
        _ = t % base + base * (t / base) + base * (mul * Nat.ofDigits base ds) := by
            rw [hrest]; ring
        _ = c + mul * Nat.ofDigits base (d :: ds) := by
            rw [Nat.mod_add_div, Nat.ofDigits_cons]; ring
    · -- stopped: no c, and every digit from here on is a zero
      have hc : c = 0 := by omega
      have hlen : length - i = 0 := by omega
      rw [hlen, List.drop_zero] at hz
      have hzero : Nat.ofDigits base (d :: ds) = 0 := by
        rw [List.eq_replicate_iff.mpr ⟨rfl, hz⟩, Nat.ofDigits_replicate_zero]
      rw [carryLoop_cons_of_stop h, hzero, hc]
      simp

/-- Every digit the loop writes is a digit of the base. -/
theorem carryLoop_lt (hbase : 0 < base) (hds : ∀ x ∈ ds, x < base) :
    ∀ x ∈ (carryLoop mul base length c i ds).1, x < base := by
  induction ds generalizing c i with
  | nil => simp
  | cons d ds ih =>
    by_cases h : c ≠ 0 ∨ i < length
    · rw [carryLoop_cons_of_go h]
      intro x hx
      rcases List.mem_cons.mp hx with rfl | hx
      · exact Nat.mod_lt _ hbase
      · exact ih (fun y hy => hds y (List.mem_cons_of_mem d hy)) x hx
    · rwa [carryLoop_cons_of_stop h]

/-- The loop stops at or after `i`, within the buffer. -/
theorem carryLoop_index_bounds :
    i ≤ (carryLoop mul base length c i ds).2.2 ∧
      (carryLoop mul base length c i ds).2.2 ≤ i + ds.length := by
  induction ds generalizing c i with
  | nil => simp
  | cons d ds ih =>
    by_cases h : c ≠ 0 ∨ i < length
    · rw [carryLoop_cons_of_go h]
      obtain ⟨hlo, hhi⟩ := ih (c := (c + mul * d) / base) (i := i + 1)
      simp only [List.length_cons]
      omega
    · simp [carryLoop_cons_of_stop h]

/-- Past the point the loop stopped at, the buffer holds zeros. -/
theorem carryLoop_drop_zero (hz : ∀ x ∈ ds.drop (length - i), x = 0) :
    ∀ x ∈ (carryLoop mul base length c i ds).1.drop
      ((carryLoop mul base length c i ds).2.2 - i), x = 0 := by
  induction ds generalizing c i with
  | nil => simp
  | cons d ds ih =>
    by_cases h : c ≠ 0 ∨ i < length
    · rw [carryLoop_cons_of_go h]
      have hlo : i + 1 ≤ (carryLoop mul base length ((c + mul * d) / base) (i + 1) ds).2.2 :=
        carryLoop_index_bounds.1
      have hs : (carryLoop mul base length ((c + mul * d) / base) (i + 1) ds).2.2 - i =
          (carryLoop mul base length ((c + mul * d) / base) (i + 1) ds).2.2 - (i + 1) + 1 := by
        omega
      rw [hs, List.drop_succ_cons]
      exact ih (drop_zero_cons hz)
    · have hlen : length - i = 0 := by omega
      rw [hlen, List.drop_zero] at hz
      rw [carryLoop_cons_of_stop h]
      simpa using hz

theorem NoTrailingZero.of_cons {a : Nat} {l : List Nat} (h : NoTrailingZero (a :: l)) :
    NoTrailingZero l := by
  intro hl
  have := h (List.cons_ne_nil a l)
  rwa [List.getLast_cons hl] at this

theorem NoTrailingZero.cons {a : Nat} {l : List Nat} (h : NoTrailingZero l) (hl : l ≠ []) :
    NoTrailingZero (a :: l) := by
  intro _
  rw [List.getLast_cons hl]
  exact h hl

/-- When the c is spent, the digits in use still end in a nonzero one; and
if there are none, the loop never ran: it had no c, and nothing was in use
or there was no buffer.  The multiplier must be positive, so that a nonzero
top digit does not vanish. -/
theorem carryLoop_top (hmul : 0 < mul) (htop : NoTrailingZero (ds.take (length - i)))
    (hcarry : (carryLoop mul base length c i ds).2.1 = 0) :
    NoTrailingZero ((carryLoop mul base length c i ds).1.take
        ((carryLoop mul base length c i ds).2.2 - i)) ∧
      ((carryLoop mul base length c i ds).1.take
          ((carryLoop mul base length c i ds).2.2 - i) = [] →
        c = 0 ∧ (length ≤ i ∨ ds = [])) := by
  induction ds generalizing c i with
  | nil =>
    simp only [carryLoop_nil] at hcarry
    simp [NoTrailingZero, hcarry]
  | cons d ds ih =>
    by_cases h : c ≠ 0 ∨ i < length
    · rw [carryLoop_cons_of_go h] at hcarry ⊢
      set t := c + mul * d
      set r := carryLoop mul base length (t / base) (i + 1) ds
      have hnext : NoTrailingZero (ds.take (length - (i + 1))) := by
        rcases Nat.lt_or_ge 1 (length - i) with hgt | hle
        · have hs : length - i = length - (i + 1) + 1 := by omega
          rw [hs, List.take_succ_cons] at htop
          exact htop.of_cons
        · have h0 : length - (i + 1) = 0 := by omega
          rw [h0, List.take_zero]
          intro hne
          exact absurd rfl hne
      obtain ⟨hwin, hempty⟩ := ih hnext hcarry
      -- the loop passed position `i`, so the window starts with the digit written here
      have hs : r.2.2 - i = r.2.2 - (i + 1) + 1 := by
        have hlo : i + 1 ≤ r.2.2 := carryLoop_index_bounds.1
        omega
      rw [hs, List.take_succ_cons]
      refine ⟨?_, fun hnil => absurd hnil (List.cons_ne_nil _ _)⟩
      by_cases hW : r.1.take (r.2.2 - (i + 1)) = []
      · -- the digit written here is the last one in use: the c it leaves is spent
        obtain ⟨hc0, hstop⟩ := hempty hW
        have hmod : t % base = t := by
          have := Nat.mod_add_div t base
          rw [hc0, Nat.mul_zero, Nat.add_zero] at this
          exact this
        have hd : c = 0 → d ≠ 0 := by
          intro hcarry0
          have hone : (d :: ds).take (length - i) = [d] := by
            have hs' : length - i = length - i - 1 + 1 := by omega
            rw [hs', List.take_succ_cons]
            rcases hstop with hle | rfl
            · rw [show length - i - 1 = 0 by omega, List.take_zero]
            · rw [List.take_nil]
          have := htop (by rw [hone]; exact List.cons_ne_nil d [])
          simpa [hone] using this
        have hcpos : t ≠ 0 := by
          by_cases hcarry0 : c = 0
          · have := Nat.mul_pos hmul (Nat.pos_of_ne_zero (hd hcarry0))
            omega
          · omega
        intro _
        simp only [hW, List.getLast_singleton, hmod]
        exact hcpos
      · exact hwin.cons hW
    · have hlen : length - i = 0 := by omega
      rw [carryLoop_cons_of_stop h]
      refine ⟨?_, fun _ => ⟨by omega, Or.inl (by omega)⟩⟩
      rw [Nat.sub_self, List.take_zero]
      intro hne
      exact absurd rfl hne

/-- The digits of `n`, padded with zeros, are a buffer with `n` in use.  The
loop then writes the digits of `c + mul * n`, padded with zeros, and returns
their number as the new `length`, whenever that number fits the buffer. -/
theorem carryLoop_digits (hbase : 1 < base) (hmul : 0 < mul) {n z : Nat}
    (hfit : c + mul * n < base ^ ((base.digits n).length + z)) :
    ∃ z', carryLoop mul base (base.digits n).length c 0 (base.digits n ++ List.replicate z 0) =
      (base.digits (c + mul * n) ++ List.replicate z' 0, 0, (base.digits (c + mul * n)).length) := by
  set ds := base.digits n ++ List.replicate z 0 with hds
  set r := carryLoop mul base (base.digits n).length c 0 ds
  have hz : ∀ x ∈ ds.drop ((base.digits n).length - 0), x = 0 := by
    intro x hx
    simp only [Nat.sub_zero, hds, List.drop_left] at hx
    exact List.eq_of_mem_replicate hx
  have hdslen : ds.length = (base.digits n).length + z := by simp [hds]
  have hdigits : ∀ x ∈ ds, x < base := by
    intro x hx
    rcases List.mem_append.mp hx with hx | hx
    · exact Nat.digits_lt_base hbase hx
    · rw [List.eq_of_mem_replicate hx]; omega
  have hlt : ∀ x ∈ r.1, x < base := carryLoop_lt (by omega) hdigits
  have hval : Nat.ofDigits base r.1 + base ^ ds.length * r.2.1 = c + mul * n := by
    have hval0 : Nat.ofDigits base r.1 + base ^ ds.length * r.2.1 =
        c + mul * Nat.ofDigits base ds := value_carryLoop hz
    rwa [hds, Nat.ofDigits_append_replicate_zero, Nat.ofDigits_digits] at hval0
  -- the number fits, so no carry is left over
  have hcarry : r.2.1 = 0 := by
    rw [hdslen] at hval
    have hpow : base ^ ((base.digits n).length + z) * r.2.1 <
        base ^ ((base.digits n).length + z) * 1 := by
      omega
    have := Nat.lt_of_mul_lt_mul_left hpow
    omega
  have hbounds : r.2.2 ≤ r.1.length := by
    have hidx : r.2.2 ≤ 0 + ds.length := carryLoop_index_bounds.2
    have hlen1 : r.1.length = ds.length := length_carryLoop
    omega
  -- the digits in use are the window `r.1.take r.2.2`, followed by zeros
  set W := r.1.take r.2.2 with hWdef
  have hdrop : r.1.drop r.2.2 = List.replicate (r.1.length - r.2.2) 0 := by
    refine List.eq_replicate_iff.mpr ⟨by simp, ?_⟩
    have hzero : ∀ x ∈ r.1.drop (r.2.2 - 0), x = 0 := carryLoop_drop_zero hz
    simpa using hzero
  have hsplit : r.1 = W ++ List.replicate (r.1.length - r.2.2) 0 := by
    rw [← hdrop, List.take_append_drop]
  have htop0 : NoTrailingZero (ds.take ((base.digits n).length - 0)) := by
    rw [Nat.sub_zero, hds, List.take_left]
    intro hne
    exact Nat.getLast_digit_ne_zero base (Nat.digits_ne_nil_iff_ne_zero.mp hne)
  have htop : NoTrailingZero W := by
    have hW : NoTrailingZero (r.1.take (r.2.2 - 0)) := (carryLoop_top hmul htop0 hcarry).1
    simpa using hW
  have hWval : Nat.ofDigits base W = c + mul * n := by
    rw [← hval, hcarry, Nat.mul_zero, Nat.add_zero, hsplit, Nat.ofDigits_append_replicate_zero]
  have hW : W = base.digits (c + mul * n) := by
    rw [← hWval, Nat.digits_ofDigits base hbase W
      (fun x hx => hlt x (List.mem_of_mem_take hx)) htop]
  refine ⟨r.1.length - r.2.2, ?_⟩
  have hlenW : r.2.2 = W.length := by
    rw [hWdef, List.length_take]
    omega
  calc r = (r.1, r.2.1, r.2.2) := rfl
    _ = (base.digits (c + mul * n) ++ List.replicate (r.1.length - r.2.2) 0, 0,
          (base.digits (c + mul * n)).length) := by
      rw [← hW, ← hsplit, hcarry, ← hlenW]

end Loop

/-- A buffer of `a * k / b + 1` digits of base `base` holds every number of
`k` digits of base `mul`, once `b` digits of base `mul` fit in `a` of base
`base`. -/
theorem pow_le_pow_div_add_one {mul base a b : Nat} (k : Nat) (hb : 0 < b) (hbase : 0 < base)
    (h : mul ^ b ≤ base ^ a) : mul ^ k ≤ base ^ (a * k / b + 1) := by
  have hexp : a * k ≤ b * (a * k / b + 1) := (Nat.lt_mul_div_succ (a * k) hb).le
  have hpow : (mul ^ k) ^ b ≤ (base ^ (a * k / b + 1)) ^ b :=
    calc (mul ^ k) ^ b = (mul ^ b) ^ k := by rw [← pow_mul, ← pow_mul, Nat.mul_comm]
      _ ≤ (base ^ a) ^ k := Nat.pow_le_pow_left h k
      _ = base ^ (a * k) := by rw [← pow_mul]
      _ ≤ base ^ (b * (a * k / b + 1)) := Nat.pow_le_pow_right hbase hexp
      _ = (base ^ (a * k / b + 1)) ^ b := by rw [← pow_mul, Nat.mul_comm]
  exact (Nat.pow_le_pow_iff_left hb.ne').mp hpow

/-- `mul ^ b ≤ base ^ a` from a pair of smaller exponents whose ratio `p / q`
is at most `a / b`. -/
theorem pow_le_pow_of_le_ratio {mul base a b p q : Nat} (hq : 0 < q) (hbase : 0 < base)
    (h : mul ^ q ≤ base ^ p) (hratio : p * b ≤ a * q) : mul ^ b ≤ base ^ a := by
  have hpow : (mul ^ b) ^ q ≤ (base ^ a) ^ q :=
    calc (mul ^ b) ^ q = (mul ^ q) ^ b := by rw [← pow_mul, ← pow_mul, Nat.mul_comm]
      _ ≤ (base ^ p) ^ b := Nat.pow_le_pow_left h b
      _ = base ^ (p * b) := by rw [← pow_mul]
      _ ≤ base ^ (a * q) := Nat.pow_le_pow_right hbase hratio
      _ = (base ^ a) ^ q := by rw [← pow_mul]
  exact (Nat.pow_le_pow_iff_left hq.ne').mp hpow

/-! ## Numbers written most significant digit first -/

section Horner

variable {mul n d : Nat} {ds : List Nat}

/-- The number `n` becomes once the digits `ds`, most significant first, are
written after it in base `mul`. -/
def horner (mul n : Nat) (ds : List Nat) : Nat := ds.foldl (fun acc d => d + mul * acc) n

@[simp] theorem horner_nil : horner mul n [] = n := rfl

theorem horner_cons : horner mul n (d :: ds) = horner mul (d + mul * n) ds := rfl

theorem horner_eq : horner mul n ds = n * mul ^ ds.length + Nat.ofDigits mul ds.reverse := by
  induction ds generalizing n with
  | nil => simp
  | cons d ds ih =>
    rw [horner_cons, ih, List.length_cons, Nat.ofDigits_reverse_cons, pow_succ]
    ring

theorem le_horner (hmul : 0 < mul) : n ≤ horner mul n ds := by
  rw [horner_eq]
  have := Nat.le_mul_of_pos_right n (Nat.pow_pos (n := ds.length) hmul)
  omega

/-- Digits below the base keep a number of `j` digits below `mul ^ j`. -/
theorem horner_lt_pow {j : Nat} (hmul : 1 < mul) (hds : ∀ d ∈ ds, d < mul) (hn : n < mul ^ j) :
    horner mul n ds < mul ^ (j + ds.length) := by
  rw [horner_eq, pow_add]
  have hlow : Nat.ofDigits mul ds.reverse < mul ^ ds.length := by
    have := Nat.ofDigits_lt_base_pow_length hmul (l := ds.reverse)
      (fun x hx => hds x (List.mem_reverse.mp hx))
    rwa [List.length_reverse] at this
  calc n * mul ^ ds.length + Nat.ofDigits mul ds.reverse
      < (n + 1) * mul ^ ds.length := by rw [Nat.add_mul, Nat.one_mul]; omega
    _ ≤ mul ^ j * mul ^ ds.length := Nat.mul_le_mul_right _ hn

/-- Reading back the digits of `n`, most significant first, gives `n`. -/
theorem horner_append {es : List Nat} : horner mul n (ds ++ es) = horner mul (horner mul n ds) es :=
  List.foldl_append

/-- The number a fold starts from sits above all the digits it reads. -/
theorem horner_start : horner mul n ds = n * mul ^ ds.length + horner mul 0 ds := by
  rw [horner_eq, horner_eq (n := 0), Nat.zero_mul, Nat.zero_add]

/-- Digit lists of one length write different numbers. -/
theorem horner_inj {es : List Nat} (hmul : 1 < mul) (hlen : ds.length = es.length)
    (hds : ∀ d ∈ ds, d < mul) (hes : ∀ e ∈ es, e < mul) (h : horner mul 0 ds = horner mul 0 es) :
    ds = es := by
  rw [horner_eq, horner_eq, Nat.zero_mul, Nat.zero_mul, Nat.zero_add, Nat.zero_add] at h
  have hrev := Nat.ofDigits_inj_of_len_eq hmul (by simpa using hlen)
    (fun d hd => hds d (List.mem_reverse.mp hd)) (fun e he => hes e (List.mem_reverse.mp he)) h
  exact List.reverse_injective hrev

theorem horner_digits : horner mul 0 (mul.digits n).reverse = n := by
  rw [horner_eq, List.reverse_reverse, Nat.ofDigits_digits, Nat.zero_mul, Nat.zero_add]

/-- Digits with no leading zero are the digits of the number they write. -/
theorem digits_horner (hmul : 1 < mul) (hds : ∀ d ∈ ds, d < mul) (hhead : ds.head? ≠ some 0) :
    mul.digits (horner mul 0 ds) = ds.reverse := by
  rw [horner_eq, Nat.zero_mul, Nat.zero_add]
  refine Nat.digits_ofDigits mul hmul ds.reverse (fun x hx => hds x (List.mem_reverse.mp hx)) ?_
  intro hne
  rw [List.getLast_reverse]
  intro h0
  have hds0 : ds ≠ [] := by simpa using hne
  exact hhead (by rw [List.head?_eq_some_head hds0, h0])

/-- The digits of a number, most significant first, do not start with a zero. -/
theorem head?_digits_reverse_ne_zero (b n : Nat) : (b.digits n).reverse.head? ≠ some 0 := by
  rcases Nat.eq_zero_or_pos n with rfl | hn
  · simp
  · rw [List.head?_reverse, List.getLast?_eq_some_getLast (Nat.digits_ne_nil_iff_ne_zero.mpr hn.ne')]
    intro h
    exact Nat.getLast_digit_ne_zero b hn.ne' (Option.some.inj h)

/-- So skipping leading zeros leaves them as they are. -/
theorem dropWhile_digits_reverse (b n : Nat) :
    (b.digits n).reverse.dropWhile (· == 0) = (b.digits n).reverse := by
  refine List.dropWhile_eq_self_iff.mpr fun hl h0 => head?_digits_reverse_ne_zero b n ?_
  rw [List.head?_eq_getElem?, List.getElem?_eq_getElem hl, beq_iff_eq.mp h0]

end Horner

/-! ## Leading runs -/

section Leading

variable {α β : Type}

/-- The run of `a`s at the front of a list is that many `a`s. -/
theorem takeWhile_beq_eq_replicate [BEq α] [LawfulBEq α] (a : α) (l : List α) :
    l.takeWhile (· == a) = List.replicate (l.takeWhile (· == a)).length a :=
  List.eq_replicate_iff.mpr ⟨rfl, fun x hx => by simpa using List.mem_takeWhile_imp hx⟩

/-- What follows the run does not start with `a`. -/
theorem head?_dropWhile_beq_ne [BEq α] [LawfulBEq α] (a : α) (l : List α) :
    (l.dropWhile (· == a)).head? ≠ some a := by
  intro h
  have hnot := List.head?_dropWhile_not (· == a) l
  rw [h] at hnot
  simp at hnot

/-- A list whose first element `f` does not send to `b` maps to a list that
does not start with `b`. -/
theorem head?_map_ne {f : α → β} {l : List α} {b : β} (h : ∀ x, l.head? = some x → f x ≠ b) :
    (l.map f).head? ≠ some b := by
  rw [List.head?_map]
  intro hb
  obtain ⟨x, hx, hfx⟩ := Option.map_eq_some_iff.mp hb
  exact h x hx hfx

end Leading

/-! ## Trailing zeros -/

section TrailingZeros

variable {b : Nat}

/-- Taking the trailing zeros off a number written as `a` followed by `k` more
digits leaves at least `a`, when `a` itself does not end in a zero: all the
zeros come from the `k` digits. -/
theorem le_of_mul_pow_eq {a M T k r : Nat} (hb : 1 < b) (ha : ¬ b ∣ a) (hr : r < b ^ k)
    (h : M * b ^ T = a * b ^ k + r) : a ≤ M := by
  have hpos : 0 < b ^ T := Nat.pow_pos (by omega)
  by_cases hT : T ≤ k
  · apply Nat.le_of_mul_le_mul_right _ hpos
    calc a * b ^ T ≤ a * b ^ k := Nat.mul_le_mul_left a (Nat.pow_le_pow_right (by omega) hT)
      _ ≤ M * b ^ T := h ▸ Nat.le_add_right _ _
  · -- more zeros than digits after `a`: then `r` is zero and `b` divides `a`
    exfalso
    obtain ⟨j, rfl⟩ : ∃ j, T = k + (j + 1) := ⟨T - k - 1, by omega⟩
    have hsplit : M * b ^ (j + 1) * b ^ k = a * b ^ k + r := by
      rw [← h, pow_add b k (j + 1)]
      ring
    have hr0 : r = 0 := by
      have hdvd : b ^ k ∣ a * b ^ k + r := hsplit ▸ Dvd.intro_left _ rfl
      exact Nat.eq_zero_of_dvd_of_lt ((Nat.dvd_add_right (Dvd.intro_left a rfl)).mp hdvd) hr
    have ha' : M * b ^ (j + 1) = a := by
      rw [hr0, Nat.add_zero] at hsplit
      exact Nat.eq_of_mul_eq_mul_right (Nat.pow_pos (by omega)) hsplit
    exact ha ⟨M * b ^ j, by rw [← ha', pow_succ]; ring⟩

/-- A number with no trailing zero, scaled by a power of the base, is whole
only when the power is not negative. -/
theorem nonneg_of_mul_zpow_eq_intCast {M : Nat} {k z : Int} (hb : 1 < b) (hM : ¬ b ∣ M)
    (h : (M : ℚ) * (b : ℚ) ^ k = z) : 0 ≤ k := by
  by_contra hk
  obtain ⟨j, rfl⟩ : ∃ j : Nat, k = -((j + 1 : Nat) : Int) := ⟨(-k - 1).toNat, by omega⟩
  have hb0 : (b : ℚ) ^ (j + 1) ≠ 0 := pow_ne_zero _ (by exact_mod_cast (by omega : b ≠ 0))
  have hMq : (M : ℚ) = z * (b : ℚ) ^ (j + 1) := by
    rw [← h, zpow_neg, zpow_natCast, mul_assoc, inv_mul_cancel₀ hb0, mul_one]
  have hMz : (M : Int) = z * (b : Int) ^ (j + 1) := by exact_mod_cast hMq
  exact hM (Int.natCast_dvd_natCast.mp ⟨z * (b : Int) ^ j, by rw [hMz, pow_succ]; ring⟩)

end TrailingZeros

end Radix
