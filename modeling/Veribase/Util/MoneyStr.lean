import Veribase.Primitives.Transaction
import Veribase.Lib.Fault

/-!
# Money strings

`FormatMoney` prints an amount as `%d.%08d` of its coins and units and trims
trailing zeros, keeping two decimals: the trimming loop stops where the
character two places back is not a digit, which first happens at the second
decimal.  `ParseMoney` trims white space, reads the whole part up to a `'.'`
and at most eight fraction digits, each worth a tenth of the one before, and
rejects anything after them, a whole part of more than ten digits, and units
outside `[0, COIN]`.  Strings are lists of characters; `IsDigit` is
`Char.isDigit` and `%d` is `Nat.toDigits 10`.

The round trip is proved on the string `FormatMoney` builds before trimming,
`Q ++ '.' :: P`: `trimLoop_formatted` says the loop never faults there and
takes off only zeros of `P`, at most six; `parseMoney_formatted` reads back any
such string.  Every accepted string has a value below `10^10 * COIN`
(`parseMoney_bound`), so `money_roundtrip` follows for both directions.
-/

namespace Veribase

/-! ## Characters and decimal strings -/

/-- `IsSpace(c)`, which is also C's `isspace` in the C locale. -/
def isSpace (c : Char) : Bool :=
  c == ' ' || c == '\x0c' || c == '\n' || c == '\r' || c == '\t' || c == '\x0b'

/-- `ValidAsCString(str)`: no embedded NUL, so `strlen` sees the whole string. -/
def validAsCString (str : List Char) : Bool := !str.contains '\x00'

/-- The default pattern of `TrimString`, `" \f\n\r\t\v"`. -/
def trimPattern : List Char := [' ', '\x0c', '\n', '\r', '\t', '\x0b']

/-- `TrimString(str, pattern)`: `str.substr(front, end - front + 1)` between the
first and the last character not in `pattern`, empty when there is none. -/
def trimString (str pattern : List Char) : List Char :=
  ((str.dropWhile pattern.contains).reverse.dropWhile pattern.contains).reverse

/-- The value of a string of decimal digits, most significant first. -/
def digitsValue (l : List Char) : Nat := l.foldl (fun acc c => 10 * acc + (c.toNat - '0'.toNat)) 0

/-- `atoi64(str)`, that is `strtoll(str, nullptr, 10)`: leading white space,
an optional sign, then decimal digits up to the first other character; a
value beyond the range of `int64_t` saturates. -/
def atoi64 (str : List Char) : Int :=
  let s := str.dropWhile isSpace
  let (neg, t) : Bool × List Char := match s with
    | '-' :: t => (true, t)
    | '+' :: t => (false, t)
    | t => (false, t)
  let v : Int := digitsValue (t.takeWhile Char.isDigit)
  max (-2 ^ 63) (min (2 ^ 63 - 1) (if neg then -v else v))

/-! ## `FormatMoney` -/

/-- `%08d` of a nonnegative number: its digits, padded with zeros on the left
to eight characters. -/
def formatDigits08 (n : Nat) : List Char :=
  List.replicate (8 - (Nat.toDigits 10 n).length) '0' ++ Nat.toDigits 10 n

/-- The loop of `FormatMoney` that counts the zeros to trim, from position `i`
down: it goes on while `str[i]` is `'0'` and `str[i - 2]` is a digit.  At
positions `0` and `1`, `str[i - 2]` would lie before the string. -/
def trimLoop (str : List Char) : Nat → Faulty Nat
  | i + 2 => Fault.index str (i + 2) >>= fun c =>
      if c = '0' then
        Fault.index str i >>= fun d => if d.isDigit then (· + 1) <$> trimLoop str (i + 1) else pure 0
      else pure 0
  | i => Fault.index str i >>= fun c => if c = '0' then .error .outOfBounds else pure 0

/-- `FormatMoney(n)`. -/
def formatMoney (n : Int) : Faulty (List Char) := do
  let n_abs := n.natAbs
  let quotient := n_abs / COIN.toNat
  let remainder := n_abs % COIN.toNat
  let str := Nat.toDigits 10 quotient ++ '.' :: formatDigits08 remainder
  let nTrim ← trimLoop str (str.length - 1)
  let str := str.take (str.length - nTrim)
  pure (if n < 0 then '-' :: str else str)

/-! ## `ParseMoney` -/

/-- The fraction digits after the `'.'`: each digit adds `nMult` times its
value to `nUnits`, and `nMult` drops to a tenth, while it is positive.  Returns
the units and where `p` stops. -/
def fractionDigits (nUnits nMult : Int) : List Char → Int × List Char
  | c :: cs =>
    if c.isDigit && nMult > 0 then
      fractionDigits (nUnits + nMult * ((c.toNat : Int) - '0'.toNat)) (nMult / 10) cs
    else (nUnits, c :: cs)
  | [] => (nUnits, [])

/-- The `for` loop of `ParseMoney`: the whole part goes to `strWhole` up to a
`'.'`, whose fraction digits end the loop.  `none` is a `return false` inside
the loop; otherwise the whole part, the units and what is left at `p`. -/
def parseMoneyLoop (strWhole : List Char) : List Char → Option (List Char × Int × List Char)
  | [] => some (strWhole, 0, [])
  | c :: cs =>
    if c = '.' then
      let (nUnits, rest) := fractionDigits 0 (COIN / 10) cs
      some (strWhole, nUnits, rest)
    else if isSpace c then none
    else if !c.isDigit then none
    else parseMoneyLoop (strWhole ++ [c]) cs

/-- `ParseMoney(money_string, nRet)`: the amount, or `none` for `false`. -/
def parseMoney (money_string : List Char) : Option Int :=
  if !validAsCString money_string then none
  else
    let str := trimString money_string trimPattern
    if str.isEmpty then none
    else
      match parseMoneyLoop [] str with
      | none => none
      | some (strWhole, nUnits, rest) =>
        if !rest.isEmpty then none
        else if strWhole.length > 10 then none
        else if nUnits < 0 || nUnits > COIN then none
        else some (atoi64 strWhole * COIN + nUnits)

/-! ## Digits -/

/-- A string of decimal digits. -/
def AllDigits (l : List Char) : Prop := ∀ c ∈ l, c.isDigit = true

theorem isDigit_iff (c : Char) : c.isDigit = true ↔ 48 ≤ c.toNat ∧ c.toNat ≤ 57 := by
  simp only [Char.isDigit, Bool.and_eq_true, decide_eq_true_eq, ge_iff_le, UInt32.le_iff_toNat_le]
  rfl

theorem AllDigits.append {l₁ l₂ : List Char} (h₁ : AllDigits l₁) (h₂ : AllDigits l₂) :
    AllDigits (l₁ ++ l₂) := by
  intro c hc
  rcases List.mem_append.mp hc with hc | hc
  · exact h₁ c hc
  · exact h₂ c hc

theorem allDigits_toDigits (n : Nat) : AllDigits (Nat.toDigits 10 n) :=
  fun _ hc => Nat.isDigit_of_mem_toDigits (by decide) (by decide) hc

theorem allDigits_replicate_zero (k : Nat) : AllDigits (List.replicate k '0') := by
  intro c hc
  rw [List.eq_of_mem_replicate hc]
  rfl

@[simp] theorem digitsValue_singleton (c : Char) : digitsValue [c] = c.toNat - 48 := by
  simp only [digitsValue, List.foldl_cons, List.foldl_nil, Nat.mul_zero, Nat.zero_add]
  rfl

theorem digitsValue_append (l₁ l₂ : List Char) :
    digitsValue (l₁ ++ l₂) = digitsValue l₁ * 10 ^ l₂.length + digitsValue l₂ := by
  induction l₂ using List.reverseRecOn with
  | nil => simp [digitsValue]
  | append_singleton l c ih =>
    rw [← List.append_assoc]
    simp only [digitsValue, List.foldl_append, List.foldl_cons, List.foldl_nil] at ih ⊢
    rw [ih, List.length_append, List.length_singleton, Nat.pow_succ]
    ring

theorem digitsValue_replicate_zero (k : Nat) : digitsValue (List.replicate k '0') = 0 := by
  induction k with
  | zero => rfl
  | succ k ih =>
    rw [List.replicate_succ', digitsValue_append, ih]
    rfl

theorem digitsValue_lt {l : List Char} (h : AllDigits l) : digitsValue l < 10 ^ l.length := by
  induction l using List.reverseRecOn with
  | nil => simp [digitsValue]
  | append_singleton l c ih =>
    have hc := (isDigit_iff c).mp (h c (by simp))
    have hl := ih fun d hd => h d (by simp [hd])
    rw [digitsValue_append, digitsValue_singleton]
    simp only [List.length_append, List.length_singleton, pow_succ]
    omega

/-- `%d` reads back as its value. -/
theorem digitsValue_toDigits (n : Nat) : digitsValue (Nat.toDigits 10 n) = n := by
  induction n using Nat.strong_induction_on with
  | _ n ih =>
    by_cases hn : n < 10
    · rw [Nat.toDigits_of_lt_base hn]
      simp [digitsValue, Nat.toNat_digitChar_of_lt_ten hn]
    · -- split off the last digit
      have hsplit := Nat.toDigits_append_toDigits (b := 10) (n := n / 10) (d := n % 10)
        (by decide) (by omega) (Nat.mod_lt _ (by decide))
      rw [Nat.div_add_mod] at hsplit
      rw [← hsplit, digitsValue_append, ih (n / 10) (by omega),
        Nat.toDigits_of_lt_base (Nat.mod_lt _ (by decide))]
      simp [digitsValue, Nat.toNat_digitChar_of_lt_ten (Nat.mod_lt n (by decide))]
      omega

theorem length_formatDigits08 {r : Nat} (hr : r < 10 ^ 8) : (formatDigits08 r).length = 8 := by
  have := Nat.toDigits_length 10 r 8 (by decide) hr
  simp only [formatDigits08, List.length_append, List.length_replicate]
  omega

theorem allDigits_formatDigits08 (r : Nat) : AllDigits (formatDigits08 r) :=
  (allDigits_replicate_zero _).append (allDigits_toDigits r)

theorem digitsValue_formatDigits08 (r : Nat) : digitsValue (formatDigits08 r) = r := by
  rw [formatDigits08, digitsValue_append, digitsValue_replicate_zero, Nat.zero_mul, Nat.zero_add,
    digitsValue_toDigits]

/-! ## The trimming loop -/

section Trim

variable {Q P : List Char}

theorem getElem?_formatted_frac (j : Nat) : (Q ++ '.' :: P)[Q.length + 1 + j]? = P[j]? := by
  rw [List.getElem?_append_right (by omega), show Q.length + 1 + j - Q.length = j + 1 by omega]
  rfl

theorem getElem?_formatted_dot : (Q ++ '.' :: P)[Q.length]? = some '.' := by simp

/-- From the second decimal on, the loop has counted only zeros of `P`, and
never more than it has passed: at the second decimal the character two
places back is the `'.'`.  The induction is on the position above the second
decimal. -/
theorem trimLoop_fraction (hPd : AllDigits P) (hP : P.length = 8) :
    ∀ j < 7, ∃ n, trimLoop (Q ++ '.' :: P) (Q.length + 2 + j) = .ok n ∧ n ≤ j ∧
      ∀ k < n, P[j + 1 - k]? = some '0'
  | 0, _ => by
    obtain ⟨c, hc⟩ : ∃ c, P[1]? = some c := ⟨P[1], List.getElem?_eq_getElem (by omega)⟩
    have hc' : (Q ++ '.' :: P)[Q.length + 2]? = some c := by
      rw [← hc, ← getElem?_formatted_frac 1]
    have hdot : ('.' : Char).isDigit = false := rfl
    refine ⟨0, ?_, le_refl 0, fun k hk => absurd hk (Nat.not_lt_zero k)⟩
    rw [Nat.add_zero, trimLoop, Fault.index_of_getElem? hc', Fault.ok_bind]
    split_ifs
    · rw [Fault.index_of_getElem? getElem?_formatted_dot, Fault.ok_bind, hdot]
      rfl
    · rfl
  | j + 1, hj => by
    obtain ⟨n, hrun, hn, hzero⟩ := trimLoop_fraction hPd hP j (by omega)
    obtain ⟨c, hc⟩ : ∃ c, P[j + 2]? = some c := ⟨P[j + 2], List.getElem?_eq_getElem (by omega)⟩
    obtain ⟨d, hd⟩ : ∃ d, P[j]? = some d := ⟨P[j], List.getElem?_eq_getElem (by omega)⟩
    have hc' : (Q ++ '.' :: P)[Q.length + 1 + j + 2]? = some c := by
      rw [← hc, show Q.length + 1 + j + 2 = Q.length + 1 + (j + 2) by omega, getElem?_formatted_frac]
    have hd' : (Q ++ '.' :: P)[Q.length + 1 + j]? = some d := by rw [← hd, getElem?_formatted_frac]
    have hdigit : d.isDigit = true := hPd d (List.mem_of_getElem? hd)
    rw [show Q.length + 2 + (j + 1) = Q.length + 1 + j + 2 by omega, trimLoop,
      Fault.index_of_getElem? hc', Fault.ok_bind]
    by_cases hzc : c = '0'
    · -- one more zero, two places above a digit of `P`
      rw [if_pos hzc, Fault.index_of_getElem? hd', Fault.ok_bind, if_pos hdigit,
        show Q.length + 1 + j + 1 = Q.length + 2 + j by omega, hrun]
      refine ⟨n + 1, rfl, by omega, fun k hk => ?_⟩
      rcases k with _ | k
      · rw [← hzc, ← hc]
        rfl
      · rw [show j + 1 + 1 - (k + 1) = j + 1 - k by omega]
        exact hzero k (by omega)
    · rw [if_neg hzc]
      exact ⟨0, rfl, by omega, fun k hk => absurd hk (Nat.not_lt_zero k)⟩

/-- **The trimming loop of `FormatMoney`** never faults on `%d.%08d`, and
takes off only zeros of the eight decimals, at most six. -/
theorem trimLoop_formatted (hPd : AllDigits P) (hP : P.length = 8) :
    ∃ n, trimLoop (Q ++ '.' :: P) (Q.length + 8) = .ok n ∧ n ≤ 6 ∧
      P = P.take (8 - n) ++ List.replicate n '0' := by
  obtain ⟨n, hrun, hn, hzero⟩ := trimLoop_fraction (Q := Q) hPd hP 6 (by omega)
  refine ⟨n, hrun, hn, ?_⟩
  have hdrop : P.drop (8 - n) = List.replicate n '0' := by
    rw [List.eq_replicate_iff]
    refine ⟨by simp [hP]; omega, fun c hc => ?_⟩
    obtain ⟨t, ht⟩ := List.mem_iff_getElem?.mp hc
    have htn : t < n := by
      have := (List.getElem?_eq_some_iff.mp ht).1
      simp [hP] at this
      omega
    rw [List.getElem?_drop, show 8 - n + t = 6 + 1 - (n - 1 - t) by omega,
      hzero (n - 1 - t) (by omega)] at ht
    exact (Option.some.inj ht).symm
  rw [← hdrop, List.take_append_drop]

end Trim

/-! ## Reading a formatted amount -/

theorem toNat_lt_of_isSpace {c : Char} (h : isSpace c = true) : c.toNat < 48 := by
  simp only [isSpace, Bool.or_eq_true, beq_iff_eq] at h
  rcases h with (((((rfl | rfl) | rfl) | rfl) | rfl) | rfl) <;> simp

theorem toNat_lt_of_mem_trimPattern {c : Char} (h : trimPattern.contains c = true) :
    c.toNat < 48 := by
  simp only [trimPattern, List.contains_cons, List.contains_nil, Bool.or_false, Bool.or_eq_true,
    beq_iff_eq] at h
  rcases h with rfl | rfl | rfl | rfl | rfl | rfl <;> simp

theorem isSpace_of_isDigit {c : Char} (h : c.isDigit = true) : isSpace c = false := by
  have := (isDigit_iff c).mp h
  cases hs : isSpace c
  · rfl
  · have := toNat_lt_of_isSpace hs
    omega

theorem trimPattern_of_isDigit {c : Char} (h : c.isDigit = true) : trimPattern.contains c = false := by
  have := (isDigit_iff c).mp h
  cases hs : trimPattern.contains c
  · rfl
  · have := toNat_lt_of_mem_trimPattern hs
    omega

/-- A string that starts and ends outside the pattern is its own trim. -/
theorem trimString_eq_self {l pattern : List Char}
    (hhead : ∀ c ∈ l.head?, pattern.contains c = false)
    (hlast : ∀ z ∈ l.getLast?, pattern.contains z = false) : trimString l pattern = l := by
  rcases List.eq_nil_or_concat l with rfl | ⟨init, z, rfl⟩
  · rfl
  rw [List.concat_eq_append] at *
  have hz : ¬ pattern.contains z = true := by
    rw [hlast z (by simp)]
    decide
  have hfront : (init ++ [z]).dropWhile pattern.contains = init ++ [z] := by
    cases init with
    | nil => exact List.dropWhile_cons_of_neg hz
    | cons c m =>
      refine List.dropWhile_cons_of_neg ?_
      rw [hhead c (by simp)]
      decide
  rw [trimString, hfront, List.reverse_append, List.reverse_singleton, List.singleton_append,
    List.dropWhile_cons_of_neg hz, List.reverse_cons, List.reverse_reverse]

/-- The whole part is copied to `strWhole` digit by digit. -/
theorem parseMoneyLoop_append_digits (w : List Char) {Q : List Char} (hQ : AllDigits Q)
    (rest : List Char) : parseMoneyLoop w (Q ++ rest) = parseMoneyLoop (w ++ Q) rest := by
  induction Q generalizing w with
  | nil => simp
  | cons c Q ih =>
    have hc := hQ c (by simp)
    have hdot : c ≠ '.' := by
      rintro rfl
      exact absurd hc (by decide)
    rw [List.cons_append, parseMoneyLoop, if_neg hdot, if_neg (by simp [isSpace_of_isDigit hc]),
      if_neg (by simp [hc]), ih (w ++ [c]) (fun d hd => hQ d (by simp [hd])), List.append_assoc,
      List.singleton_append]

/-- Fraction digits worth `10^k`, `10^(k-1)`, ... read as the number they
spell, scaled to the place of the last one. -/
theorem fractionDigits_digits {F : List Char} (hF : AllDigits F) :
    ∀ (k : Nat) (acc : Int), F.length ≤ k + 1 →
      fractionDigits acc (10 ^ k) F = (acc + ((digitsValue F * 10 ^ (k + 1 - F.length) : Nat) : Int), []) := by
  induction F with
  | nil =>
    intro k acc _
    simp [fractionDigits, digitsValue]
  | cons c cs ih =>
    intro k acc hlen
    have hc := (isDigit_iff c).mp (hF c (by simp))
    have hcs : AllDigits cs := fun d hd => hF d (by simp [hd])
    have hd : ((c.toNat : Int) - ('0' : Char).toNat) = ((c.toNat - 48 : Nat) : Int) := by
      rw [show ('0' : Char).toNat = 48 from rfl]
      omega
    have hval := digitsValue_append [c] cs
    rw [List.singleton_append, digitsValue_singleton] at hval
    have hpos : (0 : Int) < 10 ^ k := by positivity
    have hlen' : cs.length ≤ k := by
      rw [List.length_cons] at hlen
      omega
    rw [fractionDigits, if_pos (by simp [hF c (by simp), hpos]), hd, hval]
    rcases k with _ | k
    · -- the last place: `cs` is empty and `nMult` is spent
      have hnil : cs = [] := List.eq_nil_of_length_eq_zero (by omega)
      subst hnil
      simp [fractionDigits, digitsValue]
    · have hdiv : (10 : Int) ^ (k + 1) / 10 = 10 ^ k := by
        rw [pow_succ, Int.mul_ediv_cancel _ (by decide)]
      rw [hdiv, ih hcs k _ hlen']
      have hsplit : (10 : Int) ^ cs.length * 10 ^ (k + 1 - cs.length) = 10 ^ (k + 1) := by
        rw [← pow_add, Nat.add_sub_cancel' (by omega)]
      simp only [List.length_cons, Prod.mk.injEq, and_true]
      rw [show k + 1 + 1 - (cs.length + 1) = k + 1 - cs.length by omega, ← hsplit]
      push_cast
      ring

/-- `atoi64` of at most eighteen digits is their value. -/
theorem atoi64_digits {l : List Char} (h : AllDigits l) (hl : l.length ≤ 18) :
    atoi64 l = digitsValue l := by
  have hbound : digitsValue l < 10 ^ 18 :=
    lt_of_lt_of_le (digitsValue_lt h) (Nat.pow_le_pow_right (by decide) hl)
  have htake : l.takeWhile Char.isDigit = l := List.takeWhile_eq_self_iff.mpr h
  cases l with
  | nil => rfl
  | cons c t =>
    have hc := h c (by simp)
    have hminus : c ≠ '-' := by
      rintro rfl
      exact absurd hc (by decide)
    have hplus : c ≠ '+' := by
      rintro rfl
      exact absurd hc (by decide)
    have hdrop : (c :: t).dropWhile isSpace = c :: t :=
      List.dropWhile_cons_of_neg (by simp [isSpace_of_isDigit hc])
    simp only [atoi64, hdrop]
    split
    · rename_i heq
      exact absurd (List.cons.inj heq).1 hminus
    · rename_i heq
      exact absurd (List.cons.inj heq).1 hplus
    · rw [htake]
      simp only [Bool.false_eq_true, if_false]
      omega

/-- **Reading a formatted amount.**  `ParseMoney` accepts a whole part of at
most ten digits, a `'.'` and two to eight fraction digits, and returns the
amount they spell. -/
theorem parseMoney_formatted {Q F : List Char} (hQ : Q ≠ []) (hQd : AllDigits Q)
    (hQl : Q.length ≤ 10) (hFd : AllDigits F) (hF2 : 2 ≤ F.length) (hF8 : F.length ≤ 8) :
    parseMoney (Q ++ '.' :: F) = some (digitsValue Q * COIN + digitsValue F * 10 ^ (8 - F.length)) := by
  -- every character is a digit or the '.'
  have hchars : ∀ c ∈ Q ++ '.' :: F, c.isDigit = true ∨ c = '.' := by
    intro c hc
    rcases List.mem_append.mp hc with hc | hc
    · exact .inl (hQd c hc)
    · rcases List.mem_cons.mp hc with rfl | hc
      · exact .inr rfl
      · exact .inl (hFd c hc)
  have hvalid : validAsCString (Q ++ '.' :: F) = true := by
    cases hnul : (Q ++ '.' :: F).contains '\x00'
    · rw [validAsCString, hnul]
      rfl
    · rcases hchars _ (List.contains_iff_mem.mp hnul) with h | h
      · exact absurd h (by decide)
      · exact absurd h (by decide)
  have htrim : trimString (Q ++ '.' :: F) trimPattern = Q ++ '.' :: F := by
    obtain ⟨q, Q', rfl⟩ := List.exists_cons_of_ne_nil hQ
    obtain ⟨F', z, rfl⟩ := (List.eq_nil_or_concat F).resolve_left (by rintro rfl; simp at hF2)
    rw [List.concat_eq_append] at hFd ⊢
    apply trimString_eq_self
    · intro c hc
      simp only [List.cons_append, List.head?_cons, Option.mem_def, Option.some.injEq] at hc
      subst hc
      exact trimPattern_of_isDigit (hQd _ (by simp))
    · intro c hc
      rw [show q :: Q' ++ '.' :: (F' ++ [z]) = (q :: Q' ++ '.' :: F') ++ [z] by simp,
        List.getLast?_concat, Option.mem_def, Option.some.injEq] at hc
      subst hc
      exact trimPattern_of_isDigit (hFd _ (by simp))
  have hloop : parseMoneyLoop [] (Q ++ '.' :: F) =
      some (Q, ((digitsValue F * 10 ^ (8 - F.length) : Nat) : Int), []) := by
    rw [parseMoneyLoop_append_digits [] hQd, List.nil_append, parseMoneyLoop, if_pos rfl,
      show COIN / 10 = 10 ^ 7 from rfl, fractionDigits_digits hFd 7 0 (by omega), Int.zero_add]
  have hunits : digitsValue F * 10 ^ (8 - F.length) < 10 ^ 8 := by
    have hlt := digitsValue_lt hFd
    calc digitsValue F * 10 ^ (8 - F.length) < 10 ^ F.length * 10 ^ (8 - F.length) :=
          Nat.mul_lt_mul_of_pos_right hlt (by positivity)
      _ = 10 ^ 8 := by rw [← pow_add, Nat.add_sub_cancel' hF8]
  have hne : (Q ++ '.' :: F).isEmpty = false := by simp
  rw [parseMoney, hvalid, htrim]
  simp only [Bool.not_true, Bool.false_eq_true, if_false, hne, hloop, List.isEmpty_nil,
    atoi64_digits hQd (by omega : Q.length ≤ 18)]
  have hunitsZ : ((digitsValue F : Int) * 10 ^ (8 - F.length)) < 10 ^ 8 := by exact_mod_cast hunits
  rw [if_neg (by omega), if_neg (by simp [COIN]; omega)]
  push_cast
  rfl

/-! ## What `ParseMoney` accepts -/

theorem fractionDigits_zero (acc : Int) : ∀ cs, fractionDigits acc 0 cs = (acc, cs)
  | [] => rfl
  | c :: cs => by simp [fractionDigits]

/-- The units the fraction digits add stay below ten times the first place:
each digit adds at most nine places, and the places fall by tenths. -/
theorem fractionDigits_lt : ∀ (cs : List Char) (acc m : Int), 0 < m →
    (fractionDigits acc m cs).1 < acc + 10 * m
  | [], acc, m, hm => by
    simp only [fractionDigits]
    omega
  | c :: cs, acc, m, hm => by
    unfold fractionDigits
    split_ifs with h
    · have hc := (isDigit_iff c).mp (by simpa using (Bool.and_eq_true _ _).mp h |>.1)
      have h0 : ('0' : Char).toNat = 48 := rfl
      set d : Int := (c.toNat : Int) - ('0' : Char).toNat with hd
      have hd9 : m * d ≤ m * 9 := Int.mul_le_mul_of_nonneg_left (by omega) hm.le
      by_cases hm10 : 0 < m / 10
      · have := fractionDigits_lt cs (acc + m * d) (m / 10) hm10
        omega
      · rw [show m / 10 = 0 by omega, fractionDigits_zero]
        omega
    · simp only
      omega

/-- The whole part `ParseMoney` collects is all digits, and the units its
fraction digits add stay below `COIN`. -/
theorem parseMoneyLoop_spec {strWhole rest : List Char} {nUnits : Int} :
    ∀ (s w : List Char), AllDigits w → parseMoneyLoop w s = some (strWhole, nUnits, rest) →
      AllDigits strWhole ∧ nUnits < COIN
  | [], w, hw, h => by
    simp only [parseMoneyLoop, Option.some.injEq, Prod.mk.injEq] at h
    obtain ⟨rfl, rfl, rfl⟩ := h
    exact ⟨hw, by decide⟩
  | c :: cs, w, hw, h => by
    unfold parseMoneyLoop at h
    by_cases hdot : c = '.'
    · -- the '.': the fraction digits end the loop
      rw [if_pos hdot] at h
      have hlt := fractionDigits_lt cs 0 (COIN / 10) (by decide)
      generalize fractionDigits 0 (COIN / 10) cs = p at h hlt
      obtain ⟨u, r⟩ := p
      simp only [Option.some.injEq, Prod.mk.injEq] at h
      obtain ⟨rfl, rfl, rfl⟩ := h
      exact ⟨hw, by simpa [COIN] using hlt⟩
    rw [if_neg hdot] at h
    by_cases hspace : isSpace c = true
    · rw [if_pos hspace] at h
      cases h
    rw [if_neg hspace] at h
    by_cases hdigit : c.isDigit = true
    · rw [if_neg (by simp [hdigit])] at h
      exact parseMoneyLoop_spec cs (w ++ [c]) (hw.append (by simp [AllDigits, hdigit])) h
    · rw [if_pos (by simpa using hdigit)] at h
      cases h

/-- **Every amount `ParseMoney` accepts** is nonnegative and below
`10^10 * COIN`: at most ten whole digits, and units below `COIN`. -/
theorem parseMoney_bound {s : List Char} {v : Int} (h : parseMoney s = some v) :
    0 ≤ v ∧ v < 10 ^ 10 * COIN := by
  unfold parseMoney at h
  dsimp only at h
  split_ifs at h
  split at h
  · cases h
  · rename_i strWhole nUnits rest hloop
    split_ifs at h with hrest hlen hunits
    obtain ⟨hdigits, hlt⟩ := parseMoneyLoop_spec _ [] (fun _ hc => absurd hc (by simp)) hloop
    have hpos : ¬ nUnits < 0 := by simp at hunits; omega
    have hwhole := digitsValue_lt hdigits
    have h10 : digitsValue strWhole < 10 ^ 10 :=
      lt_of_lt_of_le hwhole (Nat.pow_le_pow_right (by decide) (by omega))
    rw [atoi64_digits hdigits (by omega)] at h
    cases h
    simp only [COIN] at hlt ⊢
    omega

/-! ## Round trip -/

/-- **`FormatMoney`, then `ParseMoney`**, gives back every amount below
`10^10 * COIN`. -/
theorem formatMoney_parseMoney {n : Int} (h0 : 0 ≤ n) (hn : n < 10 ^ 10 * COIN) :
    ∃ str, formatMoney n = .ok str ∧ parseMoney str = some n := by
  have hcoin : COIN.toNat = 10 ^ 8 := rfl
  have hnat : (n.natAbs : Int) = n := Int.natAbs_of_nonneg h0
  have hq10 : n.natAbs / 10 ^ 8 < 10 ^ 10 := by
    simp only [COIN] at hn
    omega
  have hr8 : n.natAbs % 10 ^ 8 < 10 ^ 8 := Nat.mod_lt _ (by positivity)
  -- the string before trimming: `Q ++ '.' :: P`
  set Q := Nat.toDigits 10 (n.natAbs / 10 ^ 8) with hQdef
  set P := formatDigits08 (n.natAbs % 10 ^ 8) with hPdef
  have hP : P.length = 8 := length_formatDigits08 hr8
  have hQl : Q.length ≤ 10 := Nat.toDigits_length 10 _ 10 (by decide) hq10
  have hQ : Q ≠ [] := List.ne_nil_of_length_pos Nat.length_toDigits_pos
  have hPd : AllDigits P := allDigits_formatDigits08 _
  obtain ⟨k, hrun, hk, hsplit⟩ := trimLoop_formatted (Q := Q) (P := P) hPd hP
  have hlen : (Q ++ '.' :: P).length - 1 = Q.length + 8 := by simp [hP]
  have htake : (Q ++ '.' :: P).take ((Q ++ '.' :: P).length - k) = Q ++ '.' :: P.take (8 - k) := by
    rw [show (Q ++ '.' :: P).length - k = Q.length + ((8 - k) + 1) by simp [hP]; omega,
      List.take_length_add_append, List.take_succ_cons]
  refine ⟨Q ++ '.' :: P.take (8 - k), ?_, ?_⟩
  · show (trimLoop (Q ++ '.' :: P) ((Q ++ '.' :: P).length - 1) >>= fun nTrim =>
      pure (if n < 0 then '-' :: (Q ++ '.' :: P).take ((Q ++ '.' :: P).length - nTrim)
        else (Q ++ '.' :: P).take ((Q ++ '.' :: P).length - nTrim))) = _
    rw [hlen, hrun, Fault.ok_bind, if_neg (by omega), htake]
    rfl
  · -- the fraction kept is `P` without the zeros the loop took off
    have hFd : AllDigits (P.take (8 - k)) := fun c hc => hPd c (List.mem_of_mem_take hc)
    have hFl : (P.take (8 - k)).length = 8 - k := by simp [hP]
    have hvalue : digitsValue (P.take (8 - k)) * 10 ^ k = n.natAbs % 10 ^ 8 := by
      have := digitsValue_formatDigits08 (n.natAbs % 10 ^ 8)
      rw [← hPdef, hsplit, digitsValue_append, List.length_replicate, digitsValue_replicate_zero,
        Nat.add_zero] at this
      exact this
    rw [parseMoney_formatted hQ (allDigits_toDigits _) hQl hFd (by omega) (by omega), hFl,
      show 8 - (8 - k) = k by omega, hQdef, digitsValue_toDigits]
    congr 1
    have hv : ((digitsValue (P.take (8 - k)) : Int) * 10 ^ k) = ((n.natAbs % 10 ^ 8 : Nat) : Int) := by
      exact_mod_cast hvalue
    rw [hv]
    simp only [COIN]
    omega

theorem money_roundtrip :
    (∀ n : Int, 0 ≤ n → n < 10 ^ 10 * COIN →
      ∃ str, formatMoney n = .ok str ∧ parseMoney str = some n) ∧
    (∀ (s : List Char) (v : Int), parseMoney s = some v →
      0 ≤ v ∧ v < 10 ^ 10 * COIN ∧ ∃ str, formatMoney v = .ok str ∧ parseMoney str = some v) := by
  refine ⟨fun n h0 hn => formatMoney_parseMoney h0 hn, fun s v h => ?_⟩
  obtain ⟨h0, hv⟩ := parseMoney_bound h
  exact ⟨h0, hv, formatMoney_parseMoney h0 hv⟩

end Veribase
