import Veribase.Util.MoneyStr
import Veribase.Lib.Radix

/-!
# Fixed-point numbers

`ParseFixedPoint(val, decimals, &amount)` reads a JSON number and returns it
as a whole number of `10^-decimals` units.  The significant digits collect in
`mantissa`; a zero digit is only counted in `mantissa_tzeros`, and multiplied
in when a nonzero digit follows (`ProcessMantissaDigit`), so that the
mantissa never ends in a zero.  The digits after the point also count in
`point_ofs`.  At the end the exponent, less `point_ofs`, plus the zeros held
back, plus `decimals`, must lie in `[0, 18)`, and the mantissa is multiplied
by ten that many times.  Each multiplication by ten is guarded against
`UPPER_BOUND = 10^18 - 1`, and so is each digit of the exponent, so that no
`int64_t` ever overflows: they are integers here.  The string is a list of
characters; the `int` counters `ptr`, `mantissa_tzeros` and `point_ofs` are
natural numbers, so strings are taken shorter than `2^31`.

The parser is cut where the source has its comments: the sign, the integer
part, the fraction, the exponent, and `finalizeFixedPoint` from "finalize
exponent" on.  Each digit run is `digitLoop`, which reads exactly the digits
in front (`digitLoop_eq`).

What it is for is the JSON grammar `-?(0|[1-9][0-9]*)(\.[0-9]+)?([eE][+-]?[0-9]+)?`,
given here as `JsonNumber`, with `JsonNumber.render` its text and
`JsonNumber.value` the rational number it denotes.

* `exists_render_of_parseFixedPoint`: an accepted string is the text of a
  `JsonNumber`.
* `parseFixedPoint_render`: on such a text the parser runs its three loops
  over the number's own digits, with nothing left over.
* `MantissaInv`: what the mantissa loops keep, `mantissa * 10^mantissa_tzeros`
  the value of the digits read, and a mantissa below the bound that does not
  end in a zero; `foldlM_mantissaStep_ne_none`: the loops give up only on a
  number whose significant digits pass the bound.
* `parseFixedPoint_sound` and `parseFixedPoint_complete`: the amount is the
  value times `10^decimals`, and every whole amount within the bound of a
  nonzero number whose exponent is written within the bound is read.
-/

namespace Veribase

/-! ## The parser -/

/-- `UPPER_BOUND`, `10^18 - 1`: the largest arbitrary decimal that fits an
`int64_t`. -/
def UPPER_BOUND : Int := 1000000000000000000 - 1

/-- The guarded loops `for (...) { if (too large) return false; x *= 10; }`:
multiply by ten `k` times, and give up as soon as the value about to be
multiplied is too large. -/
def timesTenChecked (tooLarge : Int → Bool) : Nat → Int → Option Int
  | 0, m => some m
  | k + 1, m => if tooLarge m then none else timesTenChecked tooLarge k (m * 10)

/-- `ProcessMantissaDigit(ch, mantissa, mantissa_tzeros)`: the new mantissa and
count of zeros held back, or `none` where it returns false. -/
def processMantissaDigit (ch : Char) (mantissa : Int) (mantissa_tzeros : Nat) :
    Option (Int × Nat) :=
  if ch = '0' then some (mantissa, mantissa_tzeros + 1)
  else
    -- `for (int i=0; i<=mantissa_tzeros; ++i)`: the zeros held back and the digit's own place
    (timesTenChecked (fun m => m > UPPER_BOUND / 10) (mantissa_tzeros + 1) mantissa).map
      fun mantissa => (mantissa + ((ch.toNat : Int) - ('0'.toNat : Int)), 0)

/-- `ptr < end && IsDigit(val[ptr])`. -/
def startsWithDigit : List Char → Bool
  | c :: _ => c.isDigit
  | [] => false

/-- The loops `while (ptr < end && IsDigit(val[ptr])) { ...; ++ptr; }`:
`step` is the body, which returns false (`none`) or the new state.  The loop
returns the state and the characters after the digits. -/
def digitLoop {σ : Type} (step : σ → Char → Option σ) : σ → List Char → Option (σ × List Char)
  | st, [] => some (st, [])
  | st, c :: cs =>
    if c.isDigit then (step st c).bind fun st' => digitLoop step st' cs
    else some (st, c :: cs)

/-- The body of the mantissa loops on `(mantissa, mantissa_tzeros, point_ofs)`:
the loop after the point also counts its digits in `point_ofs`
(`point_step = 1`), the loop before it does not (`point_step = 0`). -/
def mantissaStep (point_step : Nat) (st : Int × Nat × Nat) (ch : Char) :
    Option (Int × Nat × Nat) :=
  (processMantissaDigit ch st.1 st.2.1).map fun r => (r.1, r.2, st.2.2 + point_step)

/-- The body of the exponent loop. -/
def exponentStep (exponent : Int) (ch : Char) : Option Int :=
  if exponent > UPPER_BOUND / 10 then none
  else some (exponent * 10 + ((ch.toNat : Int) - ('0'.toNat : Int)))

/-- The sign of the mantissa: a leading `'-'`. -/
def mantissaSign : List Char → Bool × List Char
  | [] => (false, [])
  | c :: s => if c = '-' then (true, s) else (false, c :: s)

/-- The sign of the exponent: a `'+'` or a `'-'`. -/
def exponentSign : List Char → Bool × List Char
  | [] => (false, [])
  | c :: s => if c = '+' then (false, s) else if c = '-' then (true, s) else (false, c :: s)

/-- The integer part: a single `'0'` is passed over, a digit from `'1'` to
`'9'` starts the loop, and anything else, or nothing, is refused. -/
def parseIntegerPart : List Char → Option ((Int × Nat × Nat) × List Char)
  | [] => none
  | c :: s =>
    if c = '0' then some ((0, 0, 0), s)
    else if '1' ≤ c ∧ c ≤ '9' then digitLoop (mantissaStep 0) (0, 0, 0) (c :: s)
    else none

/-- The fraction: after a `'.'` at least one digit. -/
def parseFractionPart (st : Int × Nat × Nat) : List Char → Option ((Int × Nat × Nat) × List Char)
  | [] => some (st, [])
  | c :: s =>
    if c = '.' then
      if startsWithDigit s then digitLoop (mantissaStep 1) st s else none
    else some (st, c :: s)

/-- The exponent: after an `'e'` or `'E'` and a sign, at least one digit.
Returns `exponent_sign`, `exponent` and what is left. -/
def parseExponentPart : List Char → Option (Bool × Int × List Char)
  | [] => some (false, 0, [])
  | c :: s =>
    if c = 'e' ∨ c = 'E' then
      if startsWithDigit (exponentSign s).2 then
        (digitLoop exponentStep 0 (exponentSign s).2).map fun r => ((exponentSign s).1, r)
      else none
    else some (false, 0, c :: s)

/-- `ParseFixedPoint` from "finalize exponent" on. -/
def finalizeFixedPoint (mantissa_sign exponent_sign : Bool) (mantissa : Int)
    (mantissa_tzeros point_ofs : Nat) (exponent decimals : Int) : Option Int :=
  let exponent := if exponent_sign then -exponent else exponent
  let exponent := exponent - point_ofs + mantissa_tzeros
  let mantissa := if mantissa_sign then -mantissa else mantissa
  -- convert to one 64-bit fixed-point value
  let exponent := exponent + decimals
  if exponent < 0 then none
  else if exponent ≥ 18 then none
  else
    (timesTenChecked (fun m => m > UPPER_BOUND / 10 ∨ m < -(UPPER_BOUND / 10))
        exponent.toNat mantissa).bind
      fun mantissa => if mantissa > UPPER_BOUND ∨ mantissa < -UPPER_BOUND then none else some mantissa

/-- `ParseFixedPoint(val, decimals, &amount_out)`: the amount, or `none` where
it returns false. -/
def parseFixedPoint (val : List Char) (decimals : Int) : Option Int := do
  let (mantissa_sign, s) := mantissaSign val
  let (st, s) ← parseIntegerPart s
  let ((mantissa, mantissa_tzeros, point_ofs), s) ← parseFractionPart st s
  let (exponent_sign, exponent, s) ← parseExponentPart s
  -- trailing garbage
  if s ≠ [] then none
  else finalizeFixedPoint mantissa_sign exponent_sign mantissa mantissa_tzeros point_ofs exponent decimals

example : parseFixedPoint ['-', '1', '.', '5', '0', 'e', '+', '3'] 8 = some (-150000000000) := by
  decide

/-! ## Guarded multiplication -/

theorem UPPER_BOUND_eq : UPPER_BOUND = 999999999999999999 := rfl

/-- A value times ten stays within the bound exactly when the value is within a
tenth of it: the test of the guarded loops. -/
theorem abs_mul_ten_le_iff (x : Int) : |x * 10| ≤ UPPER_BOUND ↔ |x| ≤ UPPER_BOUND / 10 := by
  rw [abs_mul, Int.le_ediv_iff_mul_le (by decide)]
  rfl

theorem abs_mul_ten_le_abs_mul_pow (x : Int) (k : Nat) : |x * 10| ≤ |x * 10 ^ (k + 1)| := by
  rw [abs_mul, abs_mul]
  apply mul_le_mul_of_nonneg_left _ (abs_nonneg x)
  rw [abs_of_pos (by norm_num), abs_of_pos (by positivity)]
  exact le_self_pow₀ (by norm_num) (Nat.succ_ne_zero k)

/-- The guarded loop multiplies by `10 ^ (k + 1)` when the product is within the
bound, and gives up otherwise, for any test that refuses exactly the values
beyond a tenth of the bound. -/
theorem timesTenChecked_succ {tooLarge : Int → Bool} (k : Nat) {m : Int}
    (htest : ∀ j : Nat, tooLarge (m * 10 ^ j) = decide (UPPER_BOUND / 10 < |m * 10 ^ j|)) :
    timesTenChecked tooLarge (k + 1) m =
      if |m * 10 ^ (k + 1)| ≤ UPPER_BOUND then some (m * 10 ^ (k + 1)) else none := by
  have htest0 : tooLarge m = decide (UPPER_BOUND / 10 < |m|) := by simpa using htest 0
  rw [timesTenChecked, htest0]
  by_cases hlarge : UPPER_BOUND / 10 < |m|
  · -- too large already, and so is every product
    have hover : ¬ |m * 10 ^ (k + 1)| ≤ UPPER_BOUND := fun hle =>
      absurd ((abs_mul_ten_le_iff m).mp ((abs_mul_ten_le_abs_mul_pow m k).trans hle))
        (not_le.mpr hlarge)
    rw [decide_eq_true hlarge, if_pos rfl, if_neg hover]
  · rw [decide_eq_false hlarge, if_neg Bool.false_ne_true]
    cases k with
    | zero =>
      have hfit : |m * 10 ^ (0 + 1)| ≤ UPPER_BOUND := by
        rw [zero_add, pow_one, abs_mul_ten_le_iff]
        exact le_of_not_gt hlarge
      rw [if_pos hfit, zero_add, pow_one, timesTenChecked]
    | succ k =>
      -- the loop goes on from `m * 10`, whose test is the same
      have htest' : ∀ j : Nat, tooLarge (m * 10 * 10 ^ j) =
          decide (UPPER_BOUND / 10 < |m * 10 * 10 ^ j|) := fun j => by
        rw [mul_assoc, ← pow_succ']
        exact htest (j + 1)
      rw [timesTenChecked_succ k htest', mul_assoc, ← pow_succ']

theorem toNat_zero_char : ('0' : Char).toNat = 48 := rfl

/-- `ch - '0'` of a digit is its value, from `0` to `9`. -/
theorem digit_sub_zero {c : Char} (hc : c.isDigit = true) :
    (c.toNat : Int) - ('0'.toNat : Int) = ((c.toNat - 48 : Nat) : Int) ∧ c.toNat - 48 ≤ 9 := by
  have hrange := (isDigit_iff c).mp hc
  rw [toNat_zero_char]
  omega

theorem processMantissaDigit_eq (ch : Char) {m : Int} (tz : Nat) (hm : 0 ≤ m) :
    processMantissaDigit ch m tz =
      if ch = '0' then some (m, tz + 1)
      else if m * 10 ^ (tz + 1) ≤ UPPER_BOUND then
        some (m * 10 ^ (tz + 1) + ((ch.toNat : Int) - ('0'.toNat : Int)), 0)
      else none := by
  have hpow : ∀ j : Nat, 0 ≤ m * 10 ^ j := fun j => by positivity
  unfold processMantissaDigit
  rw [timesTenChecked_succ tz fun j => by rw [abs_of_nonneg (hpow j)],
    abs_of_nonneg (hpow _)]
  by_cases hzero : ch = '0'
  · simp [hzero]
  · by_cases hfit : m * 10 ^ (tz + 1) ≤ UPPER_BOUND <;> simp [hzero, hfit]

/-! ## The digit loops -/

/-- A digit loop reads the digits in front and leaves the rest. -/
theorem digitLoop_eq {σ : Type} (step : σ → Char → Option σ) (st : σ) (s : List Char) :
    digitLoop step st s =
      ((s.takeWhile Char.isDigit).foldlM step st).map
        fun st' => (st', s.dropWhile Char.isDigit) := by
  induction s generalizing st with
  | nil => rfl
  | cons c cs ih =>
    by_cases hc : c.isDigit
    · simp only [digitLoop, hc, if_true, List.takeWhile_cons_of_pos hc,
        List.dropWhile_cons_of_pos hc, List.foldlM_cons]
      cases step st c with
      | none => rfl
      | some st' => exact ih st'
    · simp [digitLoop, hc]

theorem digitLoop_append {σ : Type} (step : σ → Char → Option σ) (st : σ) {ds rest : List Char}
    (hds : AllDigits ds) (hrest : startsWithDigit rest = false) :
    digitLoop step st (ds ++ rest) = (ds.foldlM step st).map fun st' => (st', rest) := by
  have htake : rest.takeWhile Char.isDigit = [] := by
    cases rest <;> simp_all [startsWithDigit]
  have hdrop : rest.dropWhile Char.isDigit = rest := by
    cases rest <;> simp_all [startsWithDigit]
  rw [digitLoop_eq, List.takeWhile_append_of_pos hds, List.dropWhile_append_of_pos hds, htake,
    hdrop, List.append_nil]

theorem digitLoop_eq_some {σ : Type} {step : σ → Char → Option σ} {st st' : σ}
    {s rest : List Char} (h : digitLoop step st s = some (st', rest)) :
    ∃ ds, s = ds ++ rest ∧ AllDigits ds ∧ ds.foldlM step st = some st' ∧
      startsWithDigit rest = false := by
  rw [digitLoop_eq, Option.map_eq_some_iff] at h
  obtain ⟨st'', hfold, hpair⟩ := h
  simp only [Prod.mk.injEq] at hpair
  obtain ⟨rfl, rfl⟩ := hpair
  refine ⟨s.takeWhile Char.isDigit, (List.takeWhile_append_dropWhile).symm,
    fun c hc => List.mem_takeWhile_imp hc, hfold, ?_⟩
  have hhead := List.head?_dropWhile_not Char.isDigit s
  cases hdrop : s.dropWhile Char.isDigit with
  | nil => rfl
  | cons c cs => simpa [hdrop, startsWithDigit] using hhead

/-- The exponent loop from `e`: the digits' value after `e`, when that is
within the bound; it gives up otherwise. -/
theorem foldlM_exponentStep {e : Int} {ds : List Char} (he : 0 ≤ e) (hbound : e ≤ UPPER_BOUND)
    (hds : AllDigits ds) :
    ds.foldlM exponentStep e =
      if e * 10 ^ ds.length + digitsValue ds ≤ UPPER_BOUND then
        some (e * 10 ^ ds.length + digitsValue ds)
      else none := by
  induction ds generalizing e with
  | nil => simp [hbound, digitsValue]
  | cons c cs ih =>
    have hcs : AllDigits cs := fun x hx => hds x (by simp [hx])
    obtain ⟨hdigit, hdigit9⟩ := digit_sub_zero (hds c (by simp))
    -- the first digit moves into the accumulator
    have hshift : e * 10 ^ (c :: cs).length + (digitsValue (c :: cs) : Int) =
        (e * 10 + ((c.toNat : Int) - ('0'.toNat : Int))) * 10 ^ cs.length + digitsValue cs := by
      rw [← List.singleton_append, digitsValue_append, digitsValue_singleton, hdigit,
        List.singleton_append, List.length_cons]
      push_cast
      ring
    rw [List.foldlM_cons, exponentStep, hshift, hdigit]
    by_cases hlarge : e > UPPER_BOUND / 10
    · -- one more digit already passes the bound
      have hpow : (1 : Int) ≤ 10 ^ cs.length := one_le_pow₀ (by norm_num)
      have hprod : e * 10 + ((c.toNat - 48 : Nat) : Int) ≤
          (e * 10 + ((c.toNat - 48 : Nat) : Int)) * 10 ^ cs.length :=
        le_mul_of_one_le_right (by omega) hpow
      have hrest : (0 : Int) ≤ digitsValue cs := Nat.cast_nonneg _
      have hover : ¬ (e * 10 + ((c.toNat - 48 : Nat) : Int)) * 10 ^ cs.length +
          digitsValue cs ≤ UPPER_BOUND := by
        rw [UPPER_BOUND_eq] at hlarge ⊢
        omega
      rw [if_pos hlarge, if_neg hover]
      rfl
    · rw [if_neg hlarge]
      exact ih (by omega) (by rw [UPPER_BOUND_eq] at hlarge ⊢; omega) hcs

/-! ## The mantissa loops -/

/-- What the mantissa loops keep after reading the digits `read`:
`mantissa * 10 ^ mantissa_tzeros` is their value, and the mantissa is within
the bound and does not end in a zero. -/
structure MantissaInv (read : List Char) (mantissa : Int) (mantissa_tzeros : Nat) : Prop where
  nonneg : 0 ≤ mantissa
  no_trailing_zero : mantissa = 0 ∨ ¬ (10 : Int) ∣ mantissa
  le_bound : mantissa ≤ UPPER_BOUND
  value : mantissa * 10 ^ mantissa_tzeros = digitsValue read

theorem MantissaInv.nil : MantissaInv [] 0 0 :=
  ⟨le_rfl, Or.inl rfl, by decide, by simp [digitsValue]⟩

theorem digitsValue_concat (read : List Char) (c : Char) :
    (digitsValue (read ++ [c]) : Int) = digitsValue read * 10 + ((c.toNat - 48 : Nat) : Int) := by
  rw [digitsValue_append, digitsValue_singleton, List.length_singleton, pow_one]
  push_cast
  ring

theorem sub_zero_char_pos {c : Char} (hc : c.isDigit = true) (hzero : c ≠ '0') :
    1 ≤ c.toNat - 48 := by
  have hrange := (isDigit_iff c).mp hc
  have hne : c.toNat ≠ 48 := fun h48 =>
    hzero (Char.toNat_inj.mp (h48.trans toNat_zero_char.symm))
  omega

/-- One digit keeps the invariant. -/
theorem MantissaInv.processMantissaDigit {read : List Char} {m : Int} {tz : Nat} {c : Char}
    {r : Int × Nat} (hinv : MantissaInv read m tz) (hc : c.isDigit = true)
    (h : processMantissaDigit c m tz = some r) : MantissaInv (read ++ [c]) r.1 r.2 := by
  obtain ⟨hdigit, hdigit9⟩ := digit_sub_zero hc
  have hvalue := digitsValue_concat read c
  have hx : 0 ≤ m * 10 ^ tz := mul_nonneg hinv.nonneg (by positivity)
  rw [processMantissaDigit_eq c tz hinv.nonneg] at h
  split_ifs at h with hzero hfit
  · -- a zero is only counted
    cases h
    have hzero' : c.toNat - 48 = 0 := by rw [hzero]; rfl
    refine ⟨hinv.nonneg, hinv.no_trailing_zero, hinv.le_bound, ?_⟩
    rw [hvalue, ← hinv.value, hzero', pow_succ]
    push_cast
    ring
  · -- any other digit multiplies in the zeros held back, and ends the mantissa
    cases h
    have hpos := sub_zero_char_pos hc hzero
    rw [pow_succ, ← mul_assoc] at hfit
    rw [pow_succ, ← mul_assoc, hdigit]
    refine ⟨by omega, Or.inr (by omega), by rw [UPPER_BOUND_eq] at hfit ⊢; omega, ?_⟩
    rw [pow_zero, mul_one, hvalue, hinv.value]

/-- The mantissa loops keep the invariant; the loop after the point counts its
digits in `point_ofs`. -/
theorem MantissaInv.foldlM {point_step : Nat} {read ds : List Char} {m : Int} {tz p : Nat}
    {st : Int × Nat × Nat} (hinv : MantissaInv read m tz) (hds : AllDigits ds)
    (h : ds.foldlM (mantissaStep point_step) (m, tz, p) = some st) :
    MantissaInv (read ++ ds) st.1 st.2.1 ∧ st.2.2 = p + point_step * ds.length := by
  induction ds generalizing read m tz p with
  | nil =>
    obtain rfl : (m, tz, p) = st := Option.some.inj h
    simpa using hinv
  | cons c cs ih =>
    rw [List.foldlM_cons] at h
    obtain ⟨st', hstep, hrest⟩ := Option.bind_eq_some_iff.mp h
    obtain ⟨r, hr, rfl⟩ := Option.map_eq_some_iff.mp hstep
    have hinv' := hinv.processMantissaDigit (hds c (by simp)) hr
    obtain ⟨hinv'', hpoint⟩ := ih hinv' (fun x hx => hds x (by simp [hx])) hrest
    refine ⟨by simpa using hinv'', ?_⟩
    rw [hpoint, List.length_cons]
    ring

/-- A digit is taken unless the digits read, this one and those still to come
have more significant digits than the bound allows: they make `M * 10 ^ T`
for an `M` within the bound. -/
theorem processMantissaDigit_ne_none {read rest : List Char} {m : Int} {tz M T : Nat} {c : Char}
    (hinv : MantissaInv read m tz) (hc : c.isDigit = true) (hrest : AllDigits rest)
    (hM : M * 10 ^ T = digitsValue (read ++ c :: rest)) (hMle : (M : Int) ≤ UPPER_BOUND) :
    processMantissaDigit c m tz ≠ none := by
  rw [processMantissaDigit_eq c tz hinv.nonneg]
  split_ifs with hzero hfit
  · simp
  · simp
  · -- what is read up to this digit has no trailing zero, and already passes the bound
    obtain ⟨hdigit, hdigit9⟩ := digit_sub_zero hc
    have hpos := sub_zero_char_pos hc hzero
    have hhead : digitsValue (read ++ [c]) = digitsValue read * 10 + (c.toNat - 48) := by
      rw [digitsValue_append, digitsValue_singleton, List.length_singleton, pow_one]
    have hheadDvd : ¬ 10 ∣ digitsValue (read ++ [c]) := by omega
    have hsplit : digitsValue (read ++ c :: rest) =
        digitsValue (read ++ [c]) * 10 ^ rest.length + digitsValue rest := by
      rw [← List.singleton_append, ← List.append_assoc, digitsValue_append]
    have hle : digitsValue (read ++ [c]) ≤ M :=
      Radix.le_of_mul_pow_eq (by norm_num) hheadDvd (digitsValue_lt hrest) (hM.trans hsplit)
    have hleInt : (digitsValue (read ++ [c]) : Int) ≤ M := by exact_mod_cast hle
    rw [digitsValue_concat, ← hinv.value] at hleInt
    rw [pow_succ, ← mul_assoc] at hfit
    exact absurd (by omega) hfit

/-- The mantissa loops run to the end of their digits whenever the whole
mantissa, with the digits still to come (`more`), is `M * 10 ^ T` with `M`
within the bound. -/
theorem foldlM_mantissaStep_ne_none {point_step : Nat} {read ds more : List Char} {m : Int}
    {tz p M T : Nat} (hinv : MantissaInv read m tz) (hds : AllDigits ds) (hmore : AllDigits more)
    (hM : M * 10 ^ T = digitsValue (read ++ ds ++ more)) (hMle : (M : Int) ≤ UPPER_BOUND) :
    ds.foldlM (mantissaStep point_step) (m, tz, p) ≠ none := by
  induction ds generalizing read m tz p with
  | nil => simp
  | cons c cs ih =>
    have hc := hds c (by simp)
    have hcs : AllDigits cs := fun x hx => hds x (by simp [hx])
    obtain ⟨r, hr⟩ := Option.ne_none_iff_exists'.mp
      (processMantissaDigit_ne_none hinv hc (hcs.append hmore) (by simpa using hM) hMle)
    have hstep : mantissaStep point_step (m, tz, p) c = some (r.1, r.2, p + point_step) := by
      simp [mantissaStep, hr]
    rw [List.foldlM_cons, hstep]
    exact ih (hinv.processMantissaDigit hc hr) hcs (by simpa using hM)

/-! ## The JSON number grammar -/

/-- The integer part of a JSON number, `0|[1-9][0-9]*`. -/
def IntegerDigits (l : List Char) : Prop :=
  l = ['0'] ∨ ∃ c cs, l = c :: cs ∧ '1' ≤ c ∧ c ≤ '9' ∧ AllDigits cs

/-- The exponent of a JSON number, `[eE][+-]?[0-9]+`. -/
structure JsonExponent where
  letter : Char
  sign : List Char
  digits : List Char
  letter_mem : letter = 'e' ∨ letter = 'E'
  sign_mem : sign = [] ∨ sign = ['+'] ∨ sign = ['-']
  digits_ne_nil : digits ≠ []
  digits_all : AllDigits digits

/-- A number of the JSON grammar `-?(0|[1-9][0-9]*)(\.[0-9]+)?([eE][+-]?[0-9]+)?`;
a fraction without digits stands for no fraction. -/
structure JsonNumber where
  negative : Bool
  integer : List Char
  fraction : List Char
  exponent : Option JsonExponent
  integer_ok : IntegerDigits integer
  fraction_all : AllDigits fraction

/-- The text of an exponent. -/
def JsonExponent.render (x : JsonExponent) : List Char := x.letter :: (x.sign ++ x.digits)

/-- The text of a fraction: nothing, or `'.'` and its digits. -/
def fractionText (fraction : List Char) : List Char := if fraction = [] then [] else '.' :: fraction

/-- The text of an exponent, if there is one. -/
def exponentText : Option JsonExponent → List Char
  | none => []
  | some x => x.render

/-- The text of a JSON number. -/
def JsonNumber.render (n : JsonNumber) : List Char :=
  (if n.negative then ['-'] else []) ++
    (n.integer ++ (fractionText n.fraction ++ exponentText n.exponent))

/-- The exponent as it is written, without its sign. -/
def JsonNumber.exponentLiteral (n : JsonNumber) : Nat :=
  match n.exponent with
  | none => 0
  | some x => digitsValue x.digits

/-- The exponent with its sign. -/
def JsonNumber.exponentValue (n : JsonNumber) : Int :=
  match n.exponent with
  | none => 0
  | some x => if x.sign = ['-'] then -(digitsValue x.digits : Int) else digitsValue x.digits

/-- The number a JSON number denotes: its digits as one whole number, times ten
to the exponent less the number of digits after the point. -/
def JsonNumber.value (n : JsonNumber) : ℚ :=
  (if n.negative then -1 else 1) * (digitsValue (n.integer ++ n.fraction) : ℚ) *
    10 ^ (n.exponentValue - n.fraction.length)

/-! ## The parser reads the grammar -/

@[simp] theorem allDigits_cons {c : Char} {l : List Char} :
    AllDigits (c :: l) ↔ c.isDigit = true ∧ AllDigits l := by
  simp [AllDigits]

theorem nonzeroDigit_iff (c : Char) : ('1' ≤ c ∧ c ≤ '9') ↔ 49 ≤ c.toNat ∧ c.toNat ≤ 57 := by
  simp only [Char.le_def, UInt32.le_iff_toNat_le]
  rfl

theorem isDigit_of_nonzeroDigit {c : Char} (h : '1' ≤ c ∧ c ≤ '9') : c.isDigit = true ∧ c ≠ '0' := by
  have hrange := (nonzeroDigit_iff c).mp h
  refine ⟨(isDigit_iff c).mpr ⟨by omega, hrange.2⟩, fun hzero => ?_⟩
  rw [hzero] at hrange
  exact absurd hrange.1 (by decide)

theorem IntegerDigits.startsWithDigit {l : List Char} (h : IntegerDigits l) (rest : List Char) :
    startsWithDigit (l ++ rest) = true := by
  rcases h with rfl | ⟨c, cs, rfl, hc⟩
  · rfl
  · exact (isDigit_of_nonzeroDigit ⟨hc.1, hc.2.1⟩).1

theorem startsWithDigit_exponentText (x : Option JsonExponent) :
    startsWithDigit (exponentText x) = false := by
  rcases x with _ | x
  · rfl
  · rcases x.letter_mem with hletter | hletter <;>
      simp only [exponentText, JsonExponent.render, startsWithDigit, hletter] <;> decide

theorem head?_exponentText (x : Option JsonExponent) : (exponentText x).head? ≠ some '.' := by
  rcases x with _ | x
  · simp [exponentText]
  · rcases x.letter_mem with hletter | hletter <;>
      simp [exponentText, JsonExponent.render, hletter]

theorem startsWithDigit_fractionText (fraction : List Char) (x : Option JsonExponent) :
    startsWithDigit (fractionText fraction ++ exponentText x) = false := by
  by_cases hnil : fraction = []
  · rw [fractionText, if_pos hnil, List.nil_append, startsWithDigit_exponentText]
  · rw [fractionText, if_neg hnil]
    rfl

theorem mantissaSign_eq (val : List Char) :
    val = (if (mantissaSign val).1 then ['-'] else []) ++ (mantissaSign val).2 := by
  cases val with
  | nil => rfl
  | cons c s =>
    by_cases hminus : c = '-'
    · simp [mantissaSign, hminus]
    · simp [mantissaSign, hminus]

theorem mantissaSign_append (negative : Bool) {s : List Char} (hs : startsWithDigit s = true) :
    mantissaSign ((if negative then ['-'] else []) ++ s) = (negative, s) := by
  cases negative with
  | true => simp [mantissaSign]
  | false =>
    cases s with
    | nil => exact absurd hs (by decide)
    | cons c s =>
      have hminus : c ≠ '-' := by
        rintro rfl
        exact absurd (show ('-' : Char).isDigit = true from hs) (by decide)
      simp [mantissaSign, hminus]

theorem exponentSign_eq (s : List Char) :
    ∃ sign, (sign = [] ∨ sign = ['+'] ∨ sign = ['-']) ∧ s = sign ++ (exponentSign s).2 := by
  cases s with
  | nil => exact ⟨[], Or.inl rfl, rfl⟩
  | cons c s =>
    by_cases hplus : c = '+'
    · exact ⟨['+'], Or.inr (Or.inl rfl), by simp [exponentSign, hplus]⟩
    · by_cases hminus : c = '-'
      · exact ⟨['-'], Or.inr (Or.inr rfl), by simp [exponentSign, hminus]⟩
      · exact ⟨[], Or.inl rfl, by simp [exponentSign, hplus, hminus]⟩

theorem exponentSign_append {sign ds : List Char} (hsign : sign = [] ∨ sign = ['+'] ∨ sign = ['-'])
    (hds : startsWithDigit ds = true) :
    exponentSign (sign ++ ds) = (decide (sign = ['-']), ds) := by
  rcases hsign with rfl | rfl | rfl
  · cases ds with
    | nil => exact absurd hds (by decide)
    | cons c s =>
      have hplus : c ≠ '+' := by
        rintro rfl
        exact absurd (show ('+' : Char).isDigit = true from hds) (by decide)
      have hminus : c ≠ '-' := by
        rintro rfl
        exact absurd (show ('-' : Char).isDigit = true from hds) (by decide)
      simp [exponentSign, hplus, hminus]
  · simp [exponentSign]
  · simp [exponentSign]

theorem digitLoop_of_allDigits {σ : Type} (step : σ → Char → Option σ) (st : σ) {ds : List Char}
    (hds : AllDigits ds) : digitLoop step st ds = (ds.foldlM step st).map fun st' => (st', []) := by
  have happend : digitLoop step st (ds ++ []) = (ds.foldlM step st).map fun st' => (st', []) :=
    digitLoop_append step st hds rfl
  simpa using happend

/-! ### Each part, on text that is the grammar's -/

/-- The digits of the integer part that its loop reads: a lone `'0'` is passed
over. -/
def integerRead (integer : List Char) : List Char := if integer = ['0'] then [] else integer

/-- What the exponent loop reads of an exponent: its sign, and the value of its
digits. -/
def exponentRead : Option JsonExponent → Option (Bool × Int)
  | none => some (false, 0)
  | some x => (x.digits.foldlM exponentStep 0).map fun e => (decide (x.sign = ['-']), e)

theorem parseIntegerPart_append {integer rest : List Char} (hint : IntegerDigits integer)
    (hrest : startsWithDigit rest = false) :
    parseIntegerPart (integer ++ rest) =
      ((integerRead integer).foldlM (mantissaStep 0) (0, 0, 0)).map fun st => (st, rest) := by
  rcases hint with rfl | ⟨c, cs, rfl, h1, h9, hcs⟩
  · simp [parseIntegerPart, integerRead]
  · obtain ⟨hc, hzero⟩ := isDigit_of_nonzeroDigit ⟨h1, h9⟩
    have hread : integerRead (c :: cs) = c :: cs := if_neg (by simp [hzero])
    rw [hread, List.cons_append, parseIntegerPart, if_neg hzero, if_pos ⟨h1, h9⟩,
      ← List.cons_append, digitLoop_append _ _ (allDigits_cons.mpr ⟨hc, hcs⟩) hrest]

theorem parseFractionPart_append (st : Int × Nat × Nat) {fraction rest : List Char}
    (hf : AllDigits fraction) (hrest : startsWithDigit rest = false)
    (hdot : rest.head? ≠ some '.') :
    parseFractionPart st (fractionText fraction ++ rest) =
      (fraction.foldlM (mantissaStep 1) st).map fun st' => (st', rest) := by
  by_cases hnil : fraction = []
  · subst hnil
    cases rest with
    | nil => rfl
    | cons c s =>
      have hc : c ≠ '.' := fun h => hdot (by simp [h])
      simp [fractionText, parseFractionPart, hc]
  · obtain ⟨c, cs, rfl⟩ := List.exists_cons_of_ne_nil hnil
    have hstart : startsWithDigit (c :: cs ++ rest) = true := by
      simpa [startsWithDigit] using (allDigits_cons.mp hf).1
    rw [fractionText, if_neg hnil, List.cons_append, parseFractionPart, if_pos rfl,
      if_pos hstart, digitLoop_append _ _ hf hrest]

theorem parseExponentPart_exponentText (x : Option JsonExponent) :
    parseExponentPart (exponentText x) = (exponentRead x).map fun r => (r.1, r.2, []) := by
  rcases x with _ | x
  · rfl
  · have hstart : startsWithDigit x.digits = true := by
      obtain ⟨c, cs, hcs⟩ := List.exists_cons_of_ne_nil x.digits_ne_nil
      have hc := x.digits_all c (by simp [hcs])
      simpa [hcs, startsWithDigit] using hc
    simp only [exponentText, JsonExponent.render, parseExponentPart, if_pos x.letter_mem,
      exponentSign_append x.sign_mem hstart, if_pos hstart, exponentRead,
      digitLoop_of_allDigits _ _ x.digits_all, Option.map_map]
    rfl

theorem parseIntegerPart_eq_some {s rest : List Char} {st : Int × Nat × Nat}
    (h : parseIntegerPart s = some (st, rest)) :
    ∃ integer, IntegerDigits integer ∧ s = integer ++ rest := by
  cases s with
  | nil => cases h
  | cons c s =>
    simp only [parseIntegerPart] at h
    split_ifs at h with hzero hnonzero
    · -- a lone zero
      obtain ⟨-, rfl⟩ := Prod.mk.inj (Option.some.inj h)
      exact ⟨['0'], Or.inl rfl, by rw [hzero]; rfl⟩
    · -- the loop reads the first digit and the digits after it
      obtain ⟨ds, hsplit, hds, -, hrest⟩ := digitLoop_eq_some h
      have hc := (isDigit_of_nonzeroDigit hnonzero).1
      cases ds with
      | nil =>
        rw [List.nil_append] at hsplit
        rw [← hsplit] at hrest
        simp [startsWithDigit, hc] at hrest
      | cons d ds =>
        obtain ⟨rfl, rfl⟩ : c = d ∧ s = ds ++ rest := by simpa using hsplit
        exact ⟨c :: ds, Or.inr ⟨c, ds, rfl, hnonzero.1, hnonzero.2, (allDigits_cons.mp hds).2⟩,
          rfl⟩

theorem parseFractionPart_eq_some {st st' : Int × Nat × Nat} {s rest : List Char}
    (h : parseFractionPart st s = some (st', rest)) :
    ∃ fraction, AllDigits fraction ∧ s = fractionText fraction ++ rest := by
  have hnone : AllDigits ([] : List Char) ∧ rest = fractionText [] ++ rest :=
    ⟨(fun _ hc => nomatch hc), by simp [fractionText]⟩
  cases s with
  | nil =>
    obtain ⟨-, rfl⟩ := Prod.mk.inj (Option.some.inj h)
    exact ⟨[], hnone⟩
  | cons c s =>
    simp only [parseFractionPart] at h
    split_ifs at h with hdot hdigit
    · -- after the point, the loop reads at least one digit
      obtain ⟨ds, rfl, hds, -, hrest⟩ := digitLoop_eq_some h
      have hne : ds ≠ [] := by
        rintro rfl
        rw [List.nil_append] at hdigit
        simp [hrest] at hdigit
      refine ⟨ds, hds, ?_⟩
      rw [hdot, fractionText, if_neg hne]
      rfl
    · obtain ⟨-, rfl⟩ := Prod.mk.inj (Option.some.inj h)
      exact ⟨[], hnone⟩

theorem parseExponentPart_eq_some {s rest : List Char} {sg : Bool} {e : Int}
    (h : parseExponentPart s = some (sg, e, rest)) : ∃ x, s = exponentText x ++ rest := by
  cases s with
  | nil =>
    simp only [parseExponentPart, Option.some.injEq, Prod.mk.injEq] at h
    obtain ⟨-, -, rfl⟩ := h
    exact ⟨none, rfl⟩
  | cons c s =>
    simp only [parseExponentPart] at h
    split_ifs at h with hletter hdigit
    · -- a letter, a sign, and at least one digit
      obtain ⟨⟨e', rest'⟩, hloop, hpair⟩ := Option.map_eq_some_iff.mp h
      simp only [Prod.mk.injEq] at hpair
      obtain ⟨-, -, rfl⟩ := hpair
      obtain ⟨ds, hsplit, hds, -, hrest⟩ := digitLoop_eq_some hloop
      obtain ⟨sign, hsign, hs⟩ := exponentSign_eq s
      have hne : ds ≠ [] := by
        rintro rfl
        rw [hsplit, List.nil_append] at hdigit
        simp [hrest] at hdigit
      refine ⟨some ⟨c, sign, ds, hletter, hsign, hne, hds⟩, ?_⟩
      rw [hs, hsplit]
      simp [exponentText, JsonExponent.render]
    · simp only [Option.some.injEq, Prod.mk.injEq] at h
      obtain ⟨-, -, rfl⟩ := h
      exact ⟨none, rfl⟩

/-- Every string `ParseFixedPoint` accepts is the text of a JSON number. -/
theorem exists_render_of_parseFixedPoint {val : List Char} {decimals a : Int}
    (h : parseFixedPoint val decimals = some a) : ∃ n : JsonNumber, n.render = val := by
  have hsign := mantissaSign_eq val
  rcases hms : mantissaSign val with ⟨negative, s⟩
  rw [hms] at hsign
  simp only [parseFixedPoint, hms, Option.bind_eq_bind] at h
  obtain ⟨⟨st, s1⟩, h1, h⟩ := Option.bind_eq_some_iff.mp h
  obtain ⟨⟨st', s2⟩, h2, h⟩ := Option.bind_eq_some_iff.mp h
  obtain ⟨⟨sg, e, s3⟩, h3, h⟩ := Option.bind_eq_some_iff.mp h
  -- nothing is left after the exponent
  have hs3 : s3 = [] := by
    by_contra hne
    simp [hne] at h
  obtain ⟨integer, hint, rfl⟩ := parseIntegerPart_eq_some h1
  obtain ⟨fraction, hfrac, rfl⟩ := parseFractionPart_eq_some h2
  obtain ⟨x, rfl⟩ := parseExponentPart_eq_some h3
  subst hs3
  exact ⟨⟨negative, integer, fraction, x, hint, hfrac⟩, by simp [JsonNumber.render, hsign]⟩

/-- On the text of a JSON number the parser runs its loops over the number's own
digits and finds nothing left over. -/
theorem parseFixedPoint_render (n : JsonNumber) (decimals : Int) :
    parseFixedPoint n.render decimals =
      ((integerRead n.integer).foldlM (mantissaStep 0) (0, 0, 0)).bind fun st =>
        (n.fraction.foldlM (mantissaStep 1) st).bind fun st' =>
          (exponentRead n.exponent).bind fun r =>
            finalizeFixedPoint n.negative r.1 st'.1 st'.2.1 st'.2.2 r.2 decimals := by
  have hstart := n.integer_ok.startsWithDigit (fractionText n.fraction ++ exponentText n.exponent)
  rw [parseFixedPoint, JsonNumber.render, mantissaSign_append n.negative hstart]
  simp only [Option.bind_eq_bind, parseIntegerPart_append n.integer_ok (startsWithDigit_fractionText _ _),
    Option.bind_map, Function.comp_def,
    parseFractionPart_append _ n.fraction_all (startsWithDigit_exponentText _)
      (head?_exponentText _),
    parseExponentPart_exponentText, ne_eq, not_true_eq_false, if_false]

/-! ## The amount -/

/-- The last loop and check: the amount is `x * 10 ^ k` when that is within the
bound. -/
theorem scaleFinal_eq (x : Int) (k : Nat) :
    (timesTenChecked (fun m => m > UPPER_BOUND / 10 ∨ m < -(UPPER_BOUND / 10)) k x).bind
        (fun mantissa =>
          if mantissa > UPPER_BOUND ∨ mantissa < -UPPER_BOUND then none else some mantissa) =
      if |x * 10 ^ k| ≤ UPPER_BOUND then some (x * 10 ^ k) else none := by
  -- the final check is the bound on both sides
  have hcheck : ∀ y : Int, (y > UPPER_BOUND ∨ y < -UPPER_BOUND) ↔ ¬ |y| ≤ UPPER_BOUND := by
    intro y
    rw [abs_le]
    omega
  cases k with
  | zero =>
    simp only [timesTenChecked, Option.bind_some, pow_zero, mul_one]
    by_cases hfit : |x| ≤ UPPER_BOUND
    · rw [if_neg (by rwa [hcheck, not_not]), if_pos hfit]
    · rw [if_pos ((hcheck x).mpr hfit), if_neg hfit]
  | succ k =>
    -- the loop tests both signs: the bound on the absolute value
    have htest : ∀ j : Nat, decide (x * 10 ^ j > UPPER_BOUND / 10 ∨ x * 10 ^ j < -(UPPER_BOUND / 10)) =
        decide (UPPER_BOUND / 10 < |x * 10 ^ j|) := fun j =>
      decide_eq_decide.mpr (by rw [lt_abs]; omega)
    rw [timesTenChecked_succ k htest]
    by_cases hfit : |x * 10 ^ (k + 1)| ≤ UPPER_BOUND
    · rw [if_pos hfit, Option.bind_some, if_neg (by rwa [hcheck, not_not])]
    · rw [if_neg hfit, Option.bind_none]

/-- The end of the parser: the exponent, all told, is some `E` in `[0, 18)`, and
the amount is the signed mantissa times `10 ^ E`, within the bound. -/
theorem finalizeFixedPoint_eq_some {mantissa_sign exponent_sign : Bool} {m : Int} {tz p : Nat}
    {e decimals a : Int} :
    finalizeFixedPoint mantissa_sign exponent_sign m tz p e decimals = some a ↔
      ∃ E : Nat, (E : Int) = (if exponent_sign then -e else e) - p + tz + decimals ∧ E < 18 ∧
        a = (if mantissa_sign then -m else m) * 10 ^ E ∧ |a| ≤ UPPER_BOUND := by
  simp only [finalizeFixedPoint, scaleFinal_eq]
  generalize (if exponent_sign then -e else e) - p + tz + decimals = k
  generalize (if mantissa_sign then -m else m) = x
  constructor
  · intro h
    split_ifs at h with hneg hlarge hfit
    cases h
    exact ⟨k.toNat, by omega, by omega, rfl, hfit⟩
  · rintro ⟨E, rfl, hE, rfl, hfit⟩
    rw [if_neg (by omega), if_neg (by omega), Int.toNat_natCast, if_pos hfit]

theorem IntegerDigits.allDigits {l : List Char} (h : IntegerDigits l) : AllDigits l := by
  rcases h with rfl | ⟨c, cs, rfl, h1, h9, hcs⟩
  · simp only [allDigits_cons]
    exact ⟨rfl, fun _ hc => nomatch hc⟩
  · exact allDigits_cons.mpr ⟨(isDigit_of_nonzeroDigit ⟨h1, h9⟩).1, hcs⟩

theorem allDigits_integerRead {l : List Char} (h : IntegerDigits l) : AllDigits (integerRead l) := by
  unfold integerRead
  split_ifs
  · exact fun _ hc => nomatch hc
  · exact h.allDigits

theorem digitsValue_integerRead (integer rest : List Char) :
    digitsValue (integerRead integer ++ rest) = digitsValue (integer ++ rest) := by
  unfold integerRead
  split_ifs with hzero
  · rw [hzero, List.nil_append, digitsValue_append, digitsValue_singleton, toNat_zero_char,
      Nat.sub_self, Nat.zero_mul, Nat.zero_add]
  · rfl

/-- The exponent loop reads the exponent with its sign. -/
theorem exponentRead_eq_some {n : JsonNumber} {es : Bool} {e : Int}
    (h : exponentRead n.exponent = some (es, e)) : (if es then -e else e) = n.exponentValue := by
  unfold JsonNumber.exponentValue
  rcases hx : n.exponent with _ | x
  · rw [hx] at h
    obtain ⟨rfl, rfl⟩ := Prod.mk.inj (Option.some.inj h)
    rfl
  · rw [hx] at h
    obtain ⟨e', hfold, hpair⟩ := Option.map_eq_some_iff.mp h
    rw [foldlM_exponentStep le_rfl (by decide) x.digits_all] at hfold
    simp only [zero_mul, zero_add] at hfold
    split_ifs at hfold
    obtain ⟨rfl, rfl⟩ := Prod.mk.inj ((Option.some.inj hfold).symm ▸ hpair)
    by_cases hminus : x.sign = ['-'] <;> simp [hminus]

/-- The exponent loop runs to the end when the exponent is written within the
bound. -/
theorem exponentRead_ne_none {n : JsonNumber} (h : (n.exponentLiteral : Int) ≤ UPPER_BOUND) :
    exponentRead n.exponent ≠ none := by
  unfold JsonNumber.exponentLiteral at h
  rcases hx : n.exponent with _ | x
  · simp [exponentRead]
  · rw [hx] at h
    simp only [exponentRead, foldlM_exponentStep le_rfl (by decide) x.digits_all, zero_mul,
      zero_add, if_pos h]
    simp

/-- The value times `10 ^ decimals`, from a mantissa and the zeros held back
after it: the signed mantissa times ten to the exponent, less the digits after
the point, plus the zeros and `decimals`. -/
theorem JsonNumber.value_mul_zpow (n : JsonNumber) {m : Int} {tz : Nat}
    (hm : m * 10 ^ tz = digitsValue (n.integer ++ n.fraction)) (decimals : Int) :
    n.value * 10 ^ decimals =
      ((if n.negative then -m else m : Int) : ℚ) *
        10 ^ (n.exponentValue - n.fraction.length + tz + decimals) := by
  have hmq : (digitsValue (n.integer ++ n.fraction) : ℚ) = (m : ℚ) * 10 ^ (tz : Int) := by
    rw [zpow_natCast]
    exact_mod_cast hm.symm
  have h10 : (10 : ℚ) ≠ 0 := by norm_num
  rw [JsonNumber.value, hmq, zpow_add₀ h10, zpow_add₀ h10 (n.exponentValue - n.fraction.length)]
  split_ifs <;> push_cast <;> ring

/-- A whole number that is `±M * 10 ^ k`, for an `M` that does not end in a
zero, has a natural number for `k`. -/
theorem exists_pow_of_mul_zpow_eq {M : Int} {s : Bool} {k z : Int} (hM0 : 0 ≤ M)
    (hM : ¬ (10 : Int) ∣ M) (h : ((if s then -M else M : Int) : ℚ) * 10 ^ k = z) :
    ∃ j : Nat, (j : Int) = k ∧ z = (if s then -M else M) * 10 ^ j := by
  have hMnat : ¬ 10 ∣ M.toNat := fun hdvd => hM (by
    have hcast := Int.natCast_dvd_natCast.mpr hdvd
    rwa [Int.toNat_of_nonneg hM0] at hcast)
  have hMq : ((M.toNat : Nat) : ℚ) = (M : ℚ) := by exact_mod_cast Int.toNat_of_nonneg hM0
  have hcast : ((M.toNat : Nat) : ℚ) * ((10 : Nat) : ℚ) ^ k = ((if s then -z else z : Int) : ℚ) := by
    rw [hMq, Nat.cast_ofNat]
    cases s <;> simp at h ⊢ <;> linarith
  have hk : 0 ≤ k := Radix.nonneg_of_mul_zpow_eq_intCast (by norm_num) hMnat hcast
  refine ⟨k.toNat, Int.toNat_of_nonneg hk, ?_⟩
  have hzq : (z : ℚ) = ((if s then -M else M : Int) : ℚ) * 10 ^ k.toNat := by
    rw [← h, ← zpow_natCast, Int.toNat_of_nonneg hk]
  exact_mod_cast hzq

theorem abs_signed_mul_pow {M : Int} (s : Bool) (k : Nat) (hM0 : 0 ≤ M) :
    |(if s then -M else M) * 10 ^ k| = M * 10 ^ k := by
  rw [abs_mul, abs_of_nonneg (by positivity : (0 : Int) ≤ 10 ^ k)]
  split_ifs
  · rw [abs_neg, abs_of_nonneg hM0]
  · rw [abs_of_nonneg hM0]

/-- An amount `±m * 10 ^ E` within the bound, for `m ≥ 1`: `m` is within the
bound too, and `E < 18`. -/
theorem le_bound_of_amount {m : Int} {s : Bool} {E : Nat} (hm1 : 1 ≤ m)
    (hbound : |(if s then -m else m) * 10 ^ E| ≤ UPPER_BOUND) : m ≤ UPPER_BOUND ∧ E < 18 := by
  rw [abs_signed_mul_pow _ _ (by omega)] at hbound
  have hm : m ≤ m * 10 ^ E := le_mul_of_one_le_right (by omega) (one_le_pow₀ (by norm_num))
  have hpow : (10 : Int) ^ E ≤ m * 10 ^ E := le_mul_of_one_le_left (by positivity) hm1
  rw [UPPER_BOUND_eq] at hbound ⊢
  exact ⟨by omega, (pow_lt_pow_iff_right₀ (by norm_num : (1 : Int) < 10)).mp (by omega)⟩

/-! ## Soundness and completeness -/

/-- Every amount `ParseFixedPoint` returns is exact: it is read from the text of a
JSON number, and it is that number's value times `10 ^ decimals`, within the
bound. -/
theorem parseFixedPoint_sound {val : List Char} {decimals a : Int}
    (h : parseFixedPoint val decimals = some a) :
    ∃ n : JsonNumber, n.render = val ∧ (a : ℚ) = n.value * 10 ^ decimals ∧ |a| ≤ UPPER_BOUND := by
  obtain ⟨n, rfl⟩ := exists_render_of_parseFixedPoint h
  rw [parseFixedPoint_render] at h
  obtain ⟨⟨m₀, tz₀, p₀⟩, hinteger, h⟩ := Option.bind_eq_some_iff.mp h
  obtain ⟨⟨m, tz, p⟩, hfraction, h⟩ := Option.bind_eq_some_iff.mp h
  obtain ⟨⟨es, e⟩, hexponent, h⟩ := Option.bind_eq_some_iff.mp h
  obtain ⟨E, hE, -, rfl, hbound⟩ := finalizeFixedPoint_eq_some.mp h
  -- the two mantissa loops read the integer part and the fraction
  obtain ⟨hinv₀, hpoint₀⟩ := MantissaInv.nil.foldlM (allDigits_integerRead n.integer_ok) hinteger
  obtain ⟨hinv, hpoint⟩ := hinv₀.foldlM n.fraction_all hfraction
  dsimp only at hpoint₀ hinv hpoint hE
  have hvalue : m * 10 ^ tz = digitsValue (n.integer ++ n.fraction) := by
    rw [hinv.value, List.nil_append, digitsValue_integerRead]
  -- so the exponent, all told, is `E`
  have hexp : n.exponentValue - n.fraction.length + tz + decimals = E := by
    rw [hE, ← exponentRead_eq_some hexponent]
    omega
  refine ⟨n, rfl, ?_, hbound⟩
  rw [n.value_mul_zpow hvalue, hexp, zpow_natCast]
  push_cast
  rfl

/-- `ParseFixedPoint` reads every JSON number whose value is not zero, whose
exponent is written within the bound, and whose value times `10 ^ decimals` is
a whole number within the bound. -/
theorem parseFixedPoint_complete (n : JsonNumber) {decimals z : Int} (hnonzero : n.value ≠ 0)
    (hexp : (n.exponentLiteral : Int) ≤ UPPER_BOUND) (hz : n.value * 10 ^ decimals = z)
    (hbound : |z| ≤ UPPER_BOUND) : parseFixedPoint n.render decimals = some z := by
  have hdigits : digitsValue (n.integer ++ n.fraction) ≠ 0 := by
    intro hzero
    apply hnonzero
    simp [JsonNumber.value, hzero]
  have hread : digitsValue ([] ++ integerRead n.integer ++ n.fraction) =
      digitsValue (n.integer ++ n.fraction) := by
    rw [List.nil_append, digitsValue_integerRead]
  -- the significant digits `M` of the number: the amount is `±M * 10 ^ j`, so `M` is within the bound
  obtain ⟨T, M, hMdvd, hMT⟩ := Nat.exists_eq_pow_mul_and_not_dvd hdigits 10 (by norm_num)
  have hM : (M : Int) * 10 ^ T = digitsValue (n.integer ++ n.fraction) := by
    rw [hMT]
    push_cast
    ring
  obtain ⟨j, -, hzM⟩ := exists_pow_of_mul_zpow_eq (Int.natCast_nonneg M)
    (fun hdvd => hMdvd (Int.natCast_dvd_natCast.mp hdvd)) ((n.value_mul_zpow hM decimals).symm.trans hz)
  have hM1 : (1 : Int) ≤ M := by
    have hM0 : M ≠ 0 := fun h0 => hMdvd (h0 ▸ dvd_zero 10)
    omega
  have hMle : (M : Int) ≤ UPPER_BOUND := by
    rw [hzM] at hbound
    exact (le_bound_of_amount hM1 hbound).1
  -- the loops run to the end
  have hintegerLoop : (integerRead n.integer).foldlM (mantissaStep 0) (0, 0, 0) ≠ none :=
    foldlM_mantissaStep_ne_none MantissaInv.nil (allDigits_integerRead n.integer_ok)
      n.fraction_all (by rw [hread, hMT, Nat.mul_comm]) hMle
  obtain ⟨⟨m₀, tz₀, p₀⟩, hinteger⟩ := Option.ne_none_iff_exists'.mp hintegerLoop
  obtain ⟨hinv₀, hpoint₀⟩ := MantissaInv.nil.foldlM (allDigits_integerRead n.integer_ok) hinteger
  dsimp only at hinv₀ hpoint₀
  have hfractionLoop : n.fraction.foldlM (mantissaStep 1) (m₀, tz₀, p₀) ≠ none :=
    foldlM_mantissaStep_ne_none hinv₀ n.fraction_all
      (show AllDigits ([] : List Char) from fun _ hc => nomatch hc)
      (by rw [List.append_nil, hread, hMT, Nat.mul_comm]) hMle
  obtain ⟨⟨m, tz, p⟩, hfraction⟩ := Option.ne_none_iff_exists'.mp hfractionLoop
  obtain ⟨hinv, hpoint⟩ := hinv₀.foldlM n.fraction_all hfraction
  dsimp only at hinv hpoint
  obtain ⟨⟨es, e⟩, hexponent⟩ := Option.ne_none_iff_exists'.mp (exponentRead_ne_none hexp)
  have hvalue : m * 10 ^ tz = digitsValue (n.integer ++ n.fraction) := by
    rw [hinv.value, ← hread]
  -- the mantissa does not end in a zero, since the number is not zero
  have hm : ¬ (10 : Int) ∣ m := hinv.no_trailing_zero.resolve_left fun hzero => hdigits (by
    rw [hzero, zero_mul] at hvalue
    exact_mod_cast hvalue.symm)
  have hm1 : 1 ≤ m := by
    have hne : m ≠ 0 := fun hzero => hm (hzero ▸ dvd_zero 10)
    have := hinv.nonneg
    omega
  -- the amount is `±m * 10 ^ E`, and `E < 18` keeps it within the bound
  obtain ⟨E, hE, hzm⟩ := exists_pow_of_mul_zpow_eq hinv.nonneg hm
    ((n.value_mul_zpow hvalue decimals).symm.trans hz)
  have hE18 : E < 18 := by
    rw [hzm] at hbound
    exact (le_bound_of_amount hm1 hbound).2
  rw [parseFixedPoint_render, hinteger, Option.bind_some, hfraction, Option.bind_some, hexponent,
    Option.bind_some]
  refine finalizeFixedPoint_eq_some.mpr ⟨E, ?_, hE18, hzm, hbound⟩
  dsimp only
  rw [hE, ← exponentRead_eq_some hexponent]
  omega

end Veribase
