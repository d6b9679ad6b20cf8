import Veribase.Wallet.CoinSelection

/-!
# Coin selection: branch and bound

`SelectCoinsBnB` (`wallet/coinselection.cpp`) looks for groups of outputs
whose effective values sum into the range from
`actual_target = not_input_fees + target_value` to
`actual_target + cost_of_change`: the selections that need no change output.
It sorts the groups by effective value, largest first, and searches depth
first over the decisions to take or to leave each group, taking first.  It
backtracks when the groups left cannot reach the range, when the selection is
past it, or when the waste exceeds the least found; at a selection in the
range it keeps it if its waste is the least so far.  It does not try to take
a group that has the value and fee of the group before it when that one was
left.  It stops when the tree is searched (`break`) or after `TOTAL_TRIES`
iterations.

The loop is `bnbLoop` over `BnBState.step`, which backtracks
(`BnBState.backtrack`, through `walkBack`), keeps a selection
(`BnBState.record`) or moves forwards (`BnBState.forward`).  `selectCoinsBnB`
returns a `BnBOutcome`, or `none` when its `assert` fails or an `at` is out
of range.  `selectCoinsBnB_sound_complete` is the contract.

* Soundness rests on `BnBHolds`: the running totals are what the selection
  and the groups after it are worth, wrapped as `int64_t` (`int64Wrap`),
  and a kept selection passed the test of the range.  The groups'
  effective values, at most `MAX_MONEY` together, and a range whose ends are
  `int64_t` amounts make the wrapped totals and the test the exact ones.
* Completeness rests on `BnBSearched`: while nothing is kept, every
  canonical selection (`Mask.Canonical`: no group taken right after an equal
  one that was left) left of the current prefix (`Mask.Before`) is outside
  the range.  Each backtrack leaves only a subtree with none in the range,
  and every selection has a canonical one of the same value
  (`Mask.exists_canonical`).

The search needs more than it checks.  For soundness the ends of the range
must not wrap: `not_input_fees + target_value` past the largest `int64_t`
wraps to a negative target, and the empty selection is returned.  For
completeness the pool must not be empty: an empty selection in the range is
never kept, since its mask is empty.  And the waste of every selection, with
the excess value, must stay within `MAX_MONEY`, the waste it starts from, and
above the least `int64_t`: otherwise the waste test cuts subtrees, or the
wrapped waste of a selection in the range is too large to keep
(`selectCoinsBnB_overflow_and_misses` has all four).
-/

namespace Veribase

open Mask StrictSort

/-! ## The search -/

/-- `TOTAL_TRIES`. -/
def TOTAL_TRIES : Nat := 100000

/-- The variables of the search loop of `SelectCoinsBnB`. -/
structure BnBState where
  curr_value : Int
  curr_available_value : Int
  curr_waste : Int
  /-- `curr_selection`, as the stack it is used as: its last entry first. -/
  curr_selection : List Bool
  best_selection : List Bool
  best_waste : Int

/-- How an iteration of the loop ends. -/
inductive BnBNext where
  /-- The loop goes on from this state. -/
  | next (s : BnBState)
  /-- `break`: the walk back emptied the selection. -/
  | exhausted (s : BnBState)

/-- The state an iteration ends in. -/
def BnBNext.state : BnBNext → BnBState
  | .next s => s
  | .exhausted s => s

/-- `std::vector<bool>::resize(n)`: cut to `n` entries, or pad with `false`. -/
def resize (v : List Bool) (n : Nat) : List Bool := v.take n ++ List.replicate (n - v.length) false

section Search

variable (utxo_pool : List OutputGroup) (actual_target cost_of_change : Int)

/-- The test for a backtrack: the groups left cannot reach the target, the
selection is past the range, or the waste exceeds the best while the first
group's fee is above its long-term fee.  `utxo_pool.at(0)` is read in the last
case only. -/
def BnBState.prune (s : BnBState) : Option Bool :=
  if int64Wrap (s.curr_value + s.curr_available_value) < actual_target ∨
      s.curr_value > int64Wrap (actual_target + cost_of_change) then some true
  else if s.curr_waste > s.best_waste then do
    let utxo ← utxo_pool[0]?
    pure (decide (int64Wrap (utxo.fee - utxo.long_term_fee) > 0))
  else some false

/-- A selection in the range: it is kept when its waste, with the excess
value, is at most the best. -/
def BnBState.record (s : BnBState) : BnBState :=
  -- `curr_waste += ...` and `curr_waste -= ...` around the test leave it as it was
  let curr_waste := int64Wrap (s.curr_waste + int64Wrap (s.curr_value - actual_target))
  if curr_waste ≤ s.best_waste then
    { s with
      best_selection := resize s.curr_selection.reverse utxo_pool.length
      best_waste := curr_waste }
  else s

/-- The `while` loop of a backtrack: pop the groups left off the end of the
selection, giving their values back. -/
def walkBack : List Bool → Int → Option (List Bool × Int)
  | false :: curr_selection, curr_available_value => do
    let utxo ← utxo_pool[curr_selection.length]?
    walkBack curr_selection (int64Wrap (curr_available_value + utxo.effective_value))
  | curr_selection, curr_available_value => some (curr_selection, curr_available_value)

/-- A backtrack: walk back to the last group taken and leave it instead, or
`break` when there is none. -/
def BnBState.backtrack (s : BnBState) : Option BnBNext := do
  let back ← walkBack utxo_pool s.curr_selection s.curr_available_value
  match back.1 with
  | [] => pure (.exhausted { s with curr_selection := [], curr_available_value := back.2 })
  | _ :: curr_selection => do
    let utxo ← utxo_pool[curr_selection.length]?
    pure (.next
      { s with
        curr_selection := false :: curr_selection
        curr_available_value := back.2
        curr_value := int64Wrap (s.curr_value - utxo.effective_value)
        curr_waste := int64Wrap (s.curr_waste - int64Wrap (utxo.fee - utxo.long_term_fee)) })

/-- A step forwards: take the next group, or leave it when the group before
it was left and has the same value and fee. -/
def BnBState.forward (s : BnBState) : Option BnBNext := do
  let utxo ← utxo_pool[s.curr_selection.length]?
  let curr_available_value := int64Wrap (s.curr_available_value - utxo.effective_value)
  let skip ← match s.curr_selection with
    | false :: curr_selection => do
      let prev ← utxo_pool[curr_selection.length]?
      pure (decide (utxo.effective_value = prev.effective_value ∧ utxo.fee = prev.fee))
    | _ => pure false
  if skip then
    pure (.next { s with curr_available_value, curr_selection := false :: s.curr_selection })
  else
    pure (.next
      { s with
        curr_available_value
        curr_selection := true :: s.curr_selection
        curr_value := int64Wrap (s.curr_value + utxo.effective_value)
        curr_waste := int64Wrap (s.curr_waste + int64Wrap (utxo.fee - utxo.long_term_fee)) })

/-- One iteration of the search loop. -/
def BnBState.step (s : BnBState) : Option BnBNext := do
  if ← s.prune utxo_pool actual_target cost_of_change then s.backtrack utxo_pool
  else if s.curr_value ≥ actual_target then (s.record utxo_pool actual_target).backtrack utxo_pool
  else s.forward utxo_pool

/-- `for (size_t i = 0; i < TOTAL_TRIES; ++i)` with `n` iterations left; the
flag says that the loop ended at `break`. -/
def bnbLoop : Nat → BnBState → Option (BnBState × Bool)
  | 0, s => some (s, false)
  | n + 1, s => do
    match ← s.step utxo_pool actual_target cost_of_change with
    | .next s => bnbLoop n s
    | .exhausted s => pure (s, true)

end Search

/-- How `SelectCoinsBnB` returns. -/
inductive BnBOutcome where
  /-- `true`, with `out_set` and `value_ret`. -/
  | found (out_set : Finset CInputCoin) (value_ret : Int)
  /-- `false` before the search: the groups are worth less than the target. -/
  | insufficient
  /-- `false` after the search, which ended at `break` (`exhausted`) or after
  `TOTAL_TRIES` iterations. -/
  | notFound (exhausted : Bool)
deriving DecidableEq

/-- `SelectCoinsBnB(utxo_pool, target_value, cost_of_change, out_set,
value_ret, not_input_fees)`, or `none` when the `assert` fails or an `at` is
out of range; `S` is `std::sort`. -/
def selectCoinsBnB (S : SortContract descending) (utxo_pool : List OutputGroup)
    (target_value cost_of_change not_input_fees : Int) : Option BnBOutcome :=
  let actual_target := int64Wrap (not_input_fees + target_value)
  let curr_available_value :=
    (utxo_pool.map (·.effective_value)).foldl (fun total v => int64Wrap (total + v)) 0
  -- `assert(utxo.effective_value > 0)` for each group while it is summed
  if utxo_pool.any fun utxo => utxo.effective_value ≤ 0 then none
  else if curr_available_value < actual_target then some .insufficient
  else do
    let utxo_pool := (S.sort utxo_pool.toArray).toList
    let ret ← bnbLoop utxo_pool actual_target cost_of_change TOTAL_TRIES
      ⟨0, curr_available_value, 0, [], [], MAX_MONEY⟩
    if ret.1.best_selection.isEmpty then pure (.notFound ret.2)
    else
      let out := (maskSelect ret.1.best_selection utxo_pool).foldl addGroup (∅, 0)
      pure (.found out.1 out.2)

/-! ## What the totals are -/

/-- What groups are worth, in effective value. -/
def effectiveValue (groups : List OutputGroup) : Int := (groups.map (·.effective_value)).sum

/-- The fees of groups less their long-term fees: the waste of a selection
without its excess value. -/
def feeWaste (groups : List OutputGroup) : Int :=
  (groups.map fun utxo => utxo.fee - utxo.long_term_fee).sum

@[simp] theorem effectiveValue_nil : effectiveValue [] = 0 := rfl

@[simp] theorem effectiveValue_cons (utxo : OutputGroup) (groups : List OutputGroup) :
    effectiveValue (utxo :: groups) = utxo.effective_value + effectiveValue groups := by
  simp [effectiveValue]

@[simp] theorem effectiveValue_append (groups groups' : List OutputGroup) :
    effectiveValue (groups ++ groups') = effectiveValue groups + effectiveValue groups' := by
  simp [effectiveValue]

@[simp] theorem feeWaste_nil : feeWaste [] = 0 := rfl

@[simp] theorem feeWaste_cons (utxo : OutputGroup) (groups : List OutputGroup) :
    feeWaste (utxo :: groups) = utxo.fee - utxo.long_term_fee + feeWaste groups := by
  simp [feeWaste]

@[simp] theorem feeWaste_append (groups groups' : List OutputGroup) :
    feeWaste (groups ++ groups') = feeWaste groups + feeWaste groups' := by
  simp [feeWaste]

/-- A value in the target range. -/
def InRange (actual_target cost_of_change value : Int) : Prop :=
  actual_target ≤ value ∧ value ≤ actual_target + cost_of_change

/-- A value in the target range as the search tests it, with the upper end
computed as an `int64_t`. -/
def InTestedRange (actual_target cost_of_change value : Int) : Prop :=
  actual_target ≤ value ∧ value ≤ int64Wrap (actual_target + cost_of_change)

/-- When the upper end does not wrap, the test is the range. -/
theorem InTestedRange.inRange {actual_target cost_of_change value : Int}
    (h : InTestedRange actual_target cost_of_change value)
    (hrange : int64Range (actual_target + cost_of_change)) :
    InRange actual_target cost_of_change value := by
  obtain ⟨hlo, hhi⟩ := h
  rw [int64Wrap_of_range hrange] at hhi
  exact ⟨hlo, hhi⟩

/-! ## The totals and the kept selection -/

section Holds

variable {utxo_pool : List OutputGroup} {actual_target cost_of_change : Int} {s : BnBState}
  {next : BnBNext}

/-- What the loop keeps: the running totals are, as `int64_t` computes them,
what the selection takes and what the groups after it are worth, and a kept
selection is as long as the pool and passed the test of the range. -/
structure BnBHolds (utxo_pool : List OutputGroup) (actual_target cost_of_change : Int)
    (s : BnBState) : Prop where
  depth : s.curr_selection.length ≤ utxo_pool.length
  value : s.curr_value = int64Wrap (effectiveValue (maskSelect s.curr_selection.reverse utxo_pool))
  available : s.curr_available_value =
    int64Wrap (effectiveValue (utxo_pool.drop s.curr_selection.length))
  waste : s.curr_waste = int64Wrap (feeWaste (maskSelect s.curr_selection.reverse utxo_pool))
  best : s.best_selection = [] ∨ (s.best_selection.length = utxo_pool.length ∧
    InTestedRange actual_target cost_of_change
      (int64Wrap (effectiveValue (maskSelect s.best_selection utxo_pool))))

/-- The walk back pops a run of `false` and stops at `true` or at the bottom,
giving back what the groups it passes are worth. -/
theorem walkBack_spec (utxo_pool : List OutputGroup) : ∀ curr_selection : List Bool,
    curr_selection.length ≤ utxo_pool.length →
    ∃ k rest, curr_selection = List.replicate k false ++ rest ∧ rest.head? ≠ some false ∧
      walkBack utxo_pool curr_selection
          (int64Wrap (effectiveValue (utxo_pool.drop curr_selection.length))) =
        some (rest, int64Wrap (effectiveValue (utxo_pool.drop rest.length)))
  | [], _ => ⟨0, [], rfl, by simp, rfl⟩
  | true :: rest, _ => ⟨0, true :: rest, rfl, by simp, rfl⟩
  | false :: curr_selection, hlen => by
    have hlt : curr_selection.length < utxo_pool.length := by
      simp only [List.length_cons] at hlen; omega
    obtain ⟨k, rest, hsel, hhead, hwalk⟩ := walkBack_spec utxo_pool curr_selection hlt.le
    refine ⟨k + 1, rest, by rw [hsel, List.replicate_succ, List.cons_append], hhead, ?_⟩
    -- the group popped is given back
    have hback : effectiveValue (utxo_pool.drop (false :: curr_selection).length) +
        utxo_pool[curr_selection.length].effective_value =
          effectiveValue (utxo_pool.drop curr_selection.length) := by
      rw [List.drop_eq_getElem_cons hlt, effectiveValue_cons, List.length_cons]
      ring
    rw [walkBack, List.getElem?_eq_getElem hlt]
    simp only [Option.bind_eq_bind, Option.bind_some, int64Wrap_int64Wrap_add]
    rw [hback, hwalk]

/-- **A backtrack.**  Below a run of `false` the selection is empty and the
loop breaks; below a run of `false` and a `true`, that group is left. -/
theorem BnBHolds.backtrack_spec (h : BnBHolds utxo_pool actual_target cost_of_change s) :
    ∃ k rest, s.curr_selection = List.replicate k false ++ rest ∧
      ((rest = [] ∧ s.backtrack utxo_pool = some (.exhausted
          { s with
            curr_selection := []
            curr_available_value := int64Wrap (effectiveValue utxo_pool) })) ∨
       ∃ rest' : List Bool, ∃ hr : rest'.length < utxo_pool.length, rest = true :: rest' ∧
         s.backtrack utxo_pool = some (.next
          { s with
            curr_selection := false :: rest'
            curr_available_value := int64Wrap (effectiveValue (utxo_pool.drop (rest'.length + 1)))
            curr_value := int64Wrap (s.curr_value - utxo_pool[rest'.length].effective_value)
            curr_waste := int64Wrap (s.curr_waste -
              int64Wrap (utxo_pool[rest'.length].fee - utxo_pool[rest'.length].long_term_fee)) })) := by
  obtain ⟨k, rest, hsel, hhead, hwalk⟩ := walkBack_spec utxo_pool s.curr_selection h.depth
  refine ⟨k, rest, hsel, ?_⟩
  have hrest : rest.length ≤ utxo_pool.length := by
    have := h.depth
    rw [hsel, List.length_append] at this
    omega
  unfold BnBState.backtrack
  rw [h.available, hwalk]
  simp only [Option.bind_eq_bind, Option.bind_some]
  cases rest with
  | nil => exact .inl ⟨rfl, by simp⟩
  | cons b rest' =>
    cases b with
    | false => simp at hhead
    | true =>
      have hr : rest'.length < utxo_pool.length := by simpa using hrest
      refine .inr ⟨rest', hr, rfl, ?_⟩
      simp only [List.getElem?_eq_getElem hr, Option.bind_some, List.length_cons]
      rfl

/-- A backtrack keeps the kept selection. -/
theorem BnBHolds.backtrack_best (h : BnBHolds utxo_pool actual_target cost_of_change s)
    (hb : s.backtrack utxo_pool = some next) : next.state.best_selection = s.best_selection := by
  obtain ⟨k, rest, -, ⟨-, hb'⟩ | ⟨rest', hr, -, hb'⟩⟩ := h.backtrack_spec <;>
    rw [hb'] at hb <;> cases hb <;> rfl

theorem BnBHolds.backtrack (h : BnBHolds utxo_pool actual_target cost_of_change s)
    (hb : s.backtrack utxo_pool = some next) : BnBHolds utxo_pool actual_target cost_of_change next.state := by
  obtain ⟨k, rest, hsel, ⟨rfl, hb'⟩ | ⟨rest', hr, rfl, hb'⟩⟩ := h.backtrack_spec
  · rw [hb'] at hb
    cases hb
    -- a run of `false` takes nothing
    have hrev : s.curr_selection.reverse = List.replicate k false := by
      simp [hsel, List.reverse_replicate]
    refine ⟨by simp [BnBNext.state], ?_, by simp [BnBNext.state], ?_, h.best⟩
    · simp [BnBNext.state, h.value, hrev, maskSelect_replicate_false]
    · simp [BnBNext.state, h.waste, hrev, maskSelect_replicate_false]
  · rw [hb'] at hb
    cases hb
    -- the group left is taken out of the totals
    have hrev : s.curr_selection.reverse = rest'.reverse ++ [true] ++ List.replicate k false := by
      simp [hsel, List.reverse_replicate]
    have hlen : rest'.reverse.length < utxo_pool.length := by simpa using hr
    have htrue := maskSelect_snoc rest'.reverse true utxo_pool hlen
    have hfalse := maskSelect_snoc rest'.reverse false utxo_pool hlen
    simp only [List.length_reverse, if_true, Bool.false_eq_true, if_false, List.append_nil] at htrue hfalse
    refine ⟨by simpa [BnBNext.state] using hr, ?_, by simp [BnBNext.state], ?_, h.best⟩
    · simp only [BnBNext.state, List.reverse_cons, hfalse, h.value, hrev,
        maskSelect_append_replicate_false, htrue, effectiveValue_append, effectiveValue_cons,
        effectiveValue_nil, int64Wrap_int64Wrap_sub]
      congr 1
      ring
    · simp only [BnBNext.state, List.reverse_cons, hfalse, h.waste, hrev,
        maskSelect_append_replicate_false, htrue, feeWaste_append, feeWaste_cons, feeWaste_nil,
        int64Wrap_int64Wrap_sub, int64Wrap_sub_int64Wrap]
      congr 1
      ring

/-- `prev` and `utxo` have the same effective value and fee: the search does
not take `utxo` right after leaving `prev`. -/
def SameGroup (prev utxo : OutputGroup) : Prop :=
  utxo.effective_value = prev.effective_value ∧ utxo.fee = prev.fee

/-- **A step forwards** takes the next group, or leaves it when the group
before it was left and is the same. -/
theorem BnBState.forward_spec (s : BnBState) (hd : s.curr_selection.length < utxo_pool.length) :
    ∃ b : Bool, (b = false → ∃ rest : List Bool, ∃ hr : rest.length < utxo_pool.length,
        s.curr_selection = false :: rest ∧
          SameGroup utxo_pool[rest.length] utxo_pool[s.curr_selection.length]) ∧
      s.forward utxo_pool = some (.next
        { s with
          curr_selection := b :: s.curr_selection
          curr_available_value :=
            int64Wrap (s.curr_available_value - utxo_pool[s.curr_selection.length].effective_value)
          curr_value := if b then
              int64Wrap (s.curr_value + utxo_pool[s.curr_selection.length].effective_value)
            else s.curr_value
          curr_waste := if b then int64Wrap (s.curr_waste +
              int64Wrap (utxo_pool[s.curr_selection.length].fee -
                utxo_pool[s.curr_selection.length].long_term_fee))
            else s.curr_waste }) := by
  obtain ⟨curr_value, curr_available_value, curr_waste, curr_selection, best_selection,
    best_waste⟩ := s
  simp only at hd ⊢
  unfold BnBState.forward
  simp only [List.getElem?_eq_getElem hd, Option.bind_eq_bind, Option.bind_some]
  -- the skip test reads the group before only after a group left
  cases curr_selection with
  | nil => exact ⟨true, by simp, by simp⟩
  | cons b rest =>
    have hr : rest.length < utxo_pool.length := by simp at hd; omega
    cases b with
    | true => exact ⟨true, by simp, by simp⟩
    | false =>
      simp only [List.getElem?_eq_getElem hr, Option.bind_some]
      by_cases hsame : SameGroup utxo_pool[rest.length] utxo_pool[(false :: rest).length]
      · refine ⟨false, fun _ => ⟨rest, hr, rfl, hsame⟩, ?_⟩
        simp only [SameGroup, List.length_cons] at hsame
        simp [hsame]
      · refine ⟨true, by simp, ?_⟩
        simp only [SameGroup, List.length_cons] at hsame
        simp [hsame]

theorem BnBHolds.forward (h : BnBHolds utxo_pool actual_target cost_of_change s)
    (hd : s.curr_selection.length < utxo_pool.length) (hf : s.forward utxo_pool = some next) :
    BnBHolds utxo_pool actual_target cost_of_change next.state := by
  obtain ⟨b, -, hb⟩ := s.forward_spec hd
  rw [hb] at hf
  cases hf
  have hsnoc := maskSelect_snoc s.curr_selection.reverse b utxo_pool (by simpa using hd)
  simp only [List.length_reverse] at hsnoc
  refine ⟨by simpa [BnBNext.state] using hd, ?_, ?_, ?_, h.best⟩
  · simp only [BnBNext.state, List.reverse_cons, hsnoc, h.value, effectiveValue_append]
    cases b <;> simp
  · simp only [BnBNext.state, List.length_cons, h.available, List.drop_eq_getElem_cons hd,
      effectiveValue_cons, int64Wrap_int64Wrap_sub]
    congr 1
    ring
  · simp only [BnBNext.state, List.reverse_cons, hsnoc, h.waste, feeWaste_append]
    cases b <;> simp

/-- Keeping a selection in the range keeps the invariant. -/
theorem BnBHolds.record (h : BnBHolds utxo_pool actual_target cost_of_change s)
    (hin : InTestedRange actual_target cost_of_change s.curr_value) :
    BnBHolds utxo_pool actual_target cost_of_change (s.record utxo_pool actual_target) := by
  unfold BnBState.record
  dsimp only
  split
  · have hdepth : s.curr_selection.reverse.length ≤ utxo_pool.length := by simpa using h.depth
    refine ⟨h.depth, h.value, h.available, h.waste, .inr ⟨?_, ?_⟩⟩
    · simp only [resize, List.take_of_length_le hdepth, List.length_append,
        List.length_replicate]
      omega
    · rw [resize, List.take_of_length_le hdepth, maskSelect_append_replicate_false, ← h.value]
      exact hin
  · exact h

/-- The backtrack test, when it passes. -/
theorem BnBState.prune_eq_some_true (h : s.prune utxo_pool actual_target cost_of_change = some true) :
    int64Wrap (s.curr_value + s.curr_available_value) < actual_target ∨
      s.curr_value > int64Wrap (actual_target + cost_of_change) ∨
      (s.curr_waste > s.best_waste ∧
        ∃ utxo, utxo_pool[0]? = some utxo ∧ int64Wrap (utxo.fee - utxo.long_term_fee) > 0) := by
  unfold BnBState.prune at h
  split_ifs at h with hout hwaste
  · exact hout.elim .inl (.inr ∘ .inl)
  · cases hfirst : utxo_pool[0]? with
    | none => simp [hfirst] at h
    | some utxo =>
      simp only [hfirst, Option.bind_eq_bind, Option.bind_some, Option.pure_def, Option.some.injEq,
        decide_eq_true_eq] at h
      exact .inr (.inr ⟨hwaste, utxo, rfl, h⟩)
  · cases h

/-- The backtrack test, when it fails: the selection can still reach the
range and is not past it. -/
theorem BnBState.prune_eq_some_false
    (h : s.prune utxo_pool actual_target cost_of_change = some false) :
    actual_target ≤ int64Wrap (s.curr_value + s.curr_available_value) ∧
      s.curr_value ≤ int64Wrap (actual_target + cost_of_change) := by
  unfold BnBState.prune at h
  by_cases hout : int64Wrap (s.curr_value + s.curr_available_value) < actual_target ∨
      s.curr_value > int64Wrap (actual_target + cost_of_change)
  · rw [if_pos hout] at h
    cases h
  · simp only [not_or, not_lt] at hout
    exact hout

/-- **An iteration** backtracks on the test, backtracks after keeping a
selection that has reached the target, or moves forwards. -/
theorem BnBState.step_cases (h : s.step utxo_pool actual_target cost_of_change = some next) :
    (s.prune utxo_pool actual_target cost_of_change = some true ∧
      s.backtrack utxo_pool = some next) ∨
    (s.prune utxo_pool actual_target cost_of_change = some false ∧
      actual_target ≤ s.curr_value ∧ (s.record utxo_pool actual_target).backtrack utxo_pool = some next) ∨
    (s.prune utxo_pool actual_target cost_of_change = some false ∧
      s.curr_value < actual_target ∧ s.forward utxo_pool = some next) := by
  unfold BnBState.step at h
  cases hp : s.prune utxo_pool actual_target cost_of_change with
  | none => simp [hp] at h
  | some b =>
    simp only [hp, Option.bind_eq_bind, Option.bind_some] at h
    cases b with
    | true => exact .inl ⟨rfl, h⟩
    | false =>
      simp only [Bool.false_eq_true, if_false] at h
      split_ifs at h with hge
      · exact .inr (.inl ⟨rfl, hge, h⟩)
      · exact .inr (.inr ⟨rfl, by omega, h⟩)

/-- A selection that can still reach the target but has not yet is shorter
than the pool. -/
theorem BnBHolds.depth_lt (h : BnBHolds utxo_pool actual_target cost_of_change s)
    (hreach : actual_target ≤ int64Wrap (s.curr_value + s.curr_available_value))
    (hlt : s.curr_value < actual_target) : s.curr_selection.length < utxo_pool.length := by
  by_contra hd
  -- with every group decided nothing is left, and the value is its own wrap
  have hall : s.curr_available_value = 0 := by
    rw [h.available, List.drop_eq_nil_of_le (by omega)]
    rfl
  rw [hall, add_zero, h.value, int64Wrap_int64Wrap, ← h.value] at hreach
  omega

/-- **One iteration** keeps the invariant. -/
theorem BnBHolds.step (h : BnBHolds utxo_pool actual_target cost_of_change s)
    (hstep : s.step utxo_pool actual_target cost_of_change = some next) :
    BnBHolds utxo_pool actual_target cost_of_change next.state := by
  rcases s.step_cases hstep with ⟨-, hb⟩ | ⟨hp, hge, hb⟩ | ⟨hp, hlt, hf⟩
  · exact h.backtrack hb
  · exact (h.record ⟨hge, (s.prune_eq_some_false hp).2⟩).backtrack hb
  · exact h.forward (h.depth_lt (s.prune_eq_some_false hp).1 hlt) hf

/-- **The loop** keeps the invariant. -/
theorem BnBHolds.bnbLoop : ∀ (n : Nat) {s s' : BnBState} {exhausted : Bool},
    BnBHolds utxo_pool actual_target cost_of_change s →
    Veribase.bnbLoop utxo_pool actual_target cost_of_change n s = some (s', exhausted) →
    BnBHolds utxo_pool actual_target cost_of_change s'
  | 0, _, _, _, h, hrun => by
    cases hrun
    exact h
  | n + 1, s, _, _, h, hrun => by
    rw [Veribase.bnbLoop] at hrun
    cases hstep : s.step utxo_pool actual_target cost_of_change with
    | none => simp [hstep] at hrun
    | some next =>
      have hnext := h.step hstep
      simp only [hstep, Option.bind_eq_bind, Option.bind_some] at hrun
      cases next with
      | next s₁ => exact BnBHolds.bnbLoop n hnext hrun
      | exhausted s₁ =>
        cases hrun
        exact hnext

end Holds

/-! ## What the search has ruled out -/

section Searched

variable {utxo_pool : List OutputGroup} {actual_target cost_of_change : Int} {s : BnBState}
  {next : BnBNext}

/-- A selection that the search need not find: not a canonical selection of
the pool, or outside the range. -/
def RuledOut (utxo_pool : List OutputGroup) (actual_target cost_of_change : Int)
    (m : List Bool) : Prop :=
  m.length = utxo_pool.length → Canonical SameGroup utxo_pool m →
    ¬InRange actual_target cost_of_change (effectiveValue (maskSelect m utxo_pool))

/-- Below the prefix `p` there is nothing to find. -/
def Cleared (utxo_pool : List OutputGroup) (actual_target cost_of_change : Int)
    (p : List Bool) : Prop :=
  ∀ m, p <+: m → RuledOut utxo_pool actual_target cost_of_change m

/-- What the search has ruled out while it has kept nothing: the best waste is
still `MAX_MONEY`, and every selection left of the current prefix is ruled
out. -/
structure BnBSearched (utxo_pool : List OutputGroup) (actual_target cost_of_change : Int)
    (s : BnBState) : Prop where
  best_waste : s.best_selection = [] → s.best_waste = MAX_MONEY
  before : s.best_selection = [] → ∀ m, Before s.curr_selection.reverse m →
    RuledOut utxo_pool actual_target cost_of_change m

/-- Once a selection is kept there is nothing left to show. -/
theorem BnBSearched.of_best_ne_nil (h : s.best_selection ≠ []) :
    BnBSearched utxo_pool actual_target cost_of_change s :=
  ⟨fun h' => absurd h' h, fun h' => absurd h' h⟩

/-- Groups of positive effective value: a selection of them is worth at least
nothing and at most all of them. -/
theorem effectiveValue_sublist {groups groups' : List OutputGroup} (hsub : groups.Sublist groups')
    (hpos : ∀ utxo ∈ groups', 0 < utxo.effective_value) :
    0 ≤ effectiveValue groups ∧ effectiveValue groups ≤ effectiveValue groups' := by
  constructor
  · apply List.sum_nonneg
    simp only [List.mem_map]
    rintro _ ⟨utxo, hmem, rfl⟩
    exact (hpos utxo (hsub.subset hmem)).le
  · exact sum_le_of_subperm _ hsub.subperm fun utxo hmem => (hpos utxo hmem).le

/-- A selection of groups of positive effective value, worth at most
`MAX_MONEY` together, is worth an `int64_t` amount. -/
theorem int64Wrap_effectiveValue {groups groups' : List OutputGroup} (hsub : groups.Sublist groups')
    (hpos : ∀ utxo ∈ groups', 0 < utxo.effective_value) (hmoney : effectiveValue groups' ≤ MAX_MONEY) :
    int64Wrap (effectiveValue groups) = effectiveValue groups :=
  int64Wrap_sum_of_subperm _ hsub.subperm (fun utxo hmem => (hpos utxo hmem).le) hmoney

/-- The waste of a selection is at most what the fees above the long-term fees
of all the groups add to. -/
theorem feeWaste_le {groups groups' : List OutputGroup} (hsub : groups.Sublist groups') :
    feeWaste groups ≤ (groups'.map fun utxo => max 0 (utxo.fee - utxo.long_term_fee)).sum :=
  calc feeWaste groups ≤ (groups.map fun utxo => max 0 (utxo.fee - utxo.long_term_fee)).sum :=
        List.sum_le_sum fun _ _ => le_max_right _ _
    _ ≤ _ := (hsub.map _).sum_le_sum (by simp)

/-- The waste of a selection is at least what the fees below the long-term
fees of all the groups add to. -/
theorem le_feeWaste {groups groups' : List OutputGroup} (hsub : groups.Sublist groups') :
    (groups'.map fun utxo => min 0 (utxo.fee - utxo.long_term_fee)).sum ≤ feeWaste groups := by
  -- negated, the fees below are non-negative, and the sublist sums to less
  have hneg := (hsub.map fun utxo : OutputGroup => -min 0 (utxo.fee - utxo.long_term_fee)).sum_le_sum
    (by simp)
  have hsum : ∀ l : List OutputGroup, (l.map fun utxo => -min 0 (utxo.fee - utxo.long_term_fee)).sum =
      -(l.map fun utxo => min 0 (utxo.fee - utxo.long_term_fee)).sum := fun l => by
    rw [List.sum_neg, List.map_map]; rfl
  rw [hsum, hsum] at hneg
  calc (groups'.map fun utxo => min 0 (utxo.fee - utxo.long_term_fee)).sum
      ≤ (groups.map fun utxo => min 0 (utxo.fee - utxo.long_term_fee)).sum := by omega
    _ ≤ feeWaste groups := List.sum_le_sum fun _ _ => min_le_right _ _

/-- On groups worth at most `MAX_MONEY`, the running value does not wrap. -/
theorem BnBHolds.value_eq (h : BnBHolds utxo_pool actual_target cost_of_change s)
    (hpos : ∀ utxo ∈ utxo_pool, 0 < utxo.effective_value)
    (hmoney : effectiveValue utxo_pool ≤ MAX_MONEY) :
    s.curr_value = effectiveValue (maskSelect s.curr_selection.reverse utxo_pool) := by
  rw [h.value, int64Wrap_effectiveValue (maskSelect_sublist _ _) hpos hmoney]

/-- On groups worth at most `MAX_MONEY`, the value left does not wrap. -/
theorem BnBHolds.available_eq (h : BnBHolds utxo_pool actual_target cost_of_change s)
    (hpos : ∀ utxo ∈ utxo_pool, 0 < utxo.effective_value)
    (hmoney : effectiveValue utxo_pool ≤ MAX_MONEY) :
    s.curr_available_value = effectiveValue (utxo_pool.drop s.curr_selection.length) := by
  rw [h.available, int64Wrap_effectiveValue (List.drop_sublist _ _) hpos hmoney]

/-- The selection and the groups after it are some of the groups, so what
they can reach together does not wrap either. -/
theorem BnBHolds.int64Wrap_reach (h : BnBHolds utxo_pool actual_target cost_of_change s)
    (hpos : ∀ utxo ∈ utxo_pool, 0 < utxo.effective_value)
    (hmoney : effectiveValue utxo_pool ≤ MAX_MONEY) :
    int64Wrap (s.curr_value + s.curr_available_value) = s.curr_value + s.curr_available_value := by
  have hsub : (maskSelect s.curr_selection.reverse utxo_pool ++
      utxo_pool.drop s.curr_selection.length).Sublist utxo_pool := by
    have := maskSelect_sublist (s.curr_selection.reverse ++
      List.replicate (utxo_pool.drop s.curr_selection.length).length true) utxo_pool
    rwa [maskSelect_append, List.length_reverse, maskSelect_replicate_true] at this
  rw [h.value_eq hpos hmoney, h.available_eq hpos hmoney, ← effectiveValue_append]
  exact int64Wrap_effectiveValue hsub hpos hmoney

/-- While the fees stay within their bounds the running waste does not wrap,
and is at most what the fees above the long-term fees add to. -/
theorem BnBHolds.waste_le (h : BnBHolds utxo_pool actual_target cost_of_change s)
    (hcost : 0 ≤ cost_of_change)
    (hwaste : (utxo_pool.map fun utxo => max 0 (utxo.fee - utxo.long_term_fee)).sum +
      cost_of_change ≤ MAX_MONEY)
    (hloss : -2 ^ 63 ≤ (utxo_pool.map fun utxo => min 0 (utxo.fee - utxo.long_term_fee)).sum) :
    s.curr_waste = feeWaste (maskSelect s.curr_selection.reverse utxo_pool) ∧
      s.curr_waste ≤ (utxo_pool.map fun utxo => max 0 (utxo.fee - utxo.long_term_fee)).sum := by
  have hle := feeWaste_le (maskSelect_sublist s.curr_selection.reverse utxo_pool)
  have hge := le_feeWaste (maskSelect_sublist s.curr_selection.reverse utxo_pool)
  have hrange : int64Range (feeWaste (maskSelect s.curr_selection.reverse utxo_pool)) :=
    ⟨by omega, by unfold MAX_MONEY COIN at hwaste; omega⟩
  have heq : s.curr_waste = feeWaste (maskSelect s.curr_selection.reverse utxo_pool) := by
    rw [h.waste, int64Wrap_of_range hrange]
  exact ⟨heq, heq ▸ hle⟩

/-- Below the current prefix, a selection is worth what the prefix takes and
some of what is left. -/
theorem BnBHolds.value_below (h : BnBHolds utxo_pool actual_target cost_of_change s)
    (hpos : ∀ utxo ∈ utxo_pool, 0 < utxo.effective_value)
    (hmoney : effectiveValue utxo_pool ≤ MAX_MONEY) {m : List Bool}
    (hm : s.curr_selection.reverse <+: m) :
    s.curr_value ≤ effectiveValue (maskSelect m utxo_pool) ∧
      effectiveValue (maskSelect m utxo_pool) ≤ s.curr_value + s.curr_available_value := by
  obtain ⟨r, rfl⟩ := hm
  have hrest := effectiveValue_sublist (maskSelect_sublist r (utxo_pool.drop s.curr_selection.length))
    fun utxo hu => hpos utxo (List.mem_of_mem_drop hu)
  rw [maskSelect_append, effectiveValue_append, ← h.value_eq hpos hmoney, List.length_reverse,
    h.available_eq hpos hmoney]
  omega

/-- **The two cuts.**  When the groups left cannot reach the range, or the
selection is past it, nothing below is in the range. -/
theorem BnBHolds.cleared_of_prune (h : BnBHolds utxo_pool actual_target cost_of_change s)
    (hpos : ∀ utxo ∈ utxo_pool, 0 < utxo.effective_value)
    (hmoney : effectiveValue utxo_pool ≤ MAX_MONEY)
    (hrange : int64Range (actual_target + cost_of_change))
    (hcut : int64Wrap (s.curr_value + s.curr_available_value) < actual_target ∨
      s.curr_value > int64Wrap (actual_target + cost_of_change)) :
    Cleared utxo_pool actual_target cost_of_change s.curr_selection.reverse := by
  rw [h.int64Wrap_reach hpos hmoney, int64Wrap_of_range hrange] at hcut
  intro m hm _ _ hin
  have := h.value_below hpos hmoney hm
  unfold InRange at hin
  omega

/-- **A backtrack** rules out, with the subtree it leaves, everything left of
the new prefix; when it breaks, everything. -/
theorem BnBSearched.backtrack (h : BnBHolds utxo_pool actual_target cost_of_change s)
    (hs : BnBSearched utxo_pool actual_target cost_of_change s)
    (hclear : s.best_selection = [] → Cleared utxo_pool actual_target cost_of_change
      s.curr_selection.reverse)
    (hb : s.backtrack utxo_pool = some next) :
    BnBSearched utxo_pool actual_target cost_of_change next.state ∧
      ∀ s', next = .exhausted s' → s'.best_selection = [] →
        ∀ m, RuledOut utxo_pool actual_target cost_of_change m := by
  obtain ⟨k, rest, hsel, ⟨rfl, hb'⟩ | ⟨rest', hr, rfl, hb'⟩⟩ := h.backtrack_spec
  · rw [hb'] at hb
    cases hb
    -- the selection was a run of `false`: every mask is left of it or below it
    have hrev : s.curr_selection.reverse = List.replicate k false := by
      simp [hsel, List.reverse_replicate]
    refine ⟨⟨hs.best_waste, fun _ m hm => by simp [BnBNext.state, Before] at hm⟩, ?_⟩
    rintro s' ⟨⟩ hbest m hlen hcan
    have hk : k ≤ m.length := by
      have := h.depth
      rw [hsel] at this
      simp only [List.length_append, List.length_replicate, List.length_nil] at this
      omega
    rcases before_or_prefix_replicate_false hk with hbef | hpre
    · exact hs.before hbest m (hrev ▸ hbef) hlen hcan
    · exact hclear hbest m (hrev ▸ hpre) hlen hcan
  · rw [hb'] at hb
    cases hb
    refine ⟨⟨hs.best_waste, fun hbest m hbef hlen hcan => ?_⟩, by rintro s' ⟨⟩⟩
    have hrev : s.curr_selection.reverse = rest'.reverse ++ [true] ++ List.replicate k false := by
      simp [hsel, List.reverse_replicate]
    have hk : rest'.reverse.length + 1 + k ≤ m.length := by
      have := h.depth
      rw [hsel] at this
      simp only [List.length_append, List.length_replicate, List.length_cons] at this
      simp only [List.length_reverse]
      omega
    simp only [BnBNext.state, List.reverse_cons] at hbef
    rcases before_backtrack hk hbef with hbef | hpre
    · exact hs.before hbest m (hrev ▸ hbef) hlen hcan
    · exact hclear hbest m (hrev ▸ hpre) hlen hcan

/-- **A step forwards** rules out nothing new that could be found: leaving a
group without trying it happens only right after leaving the same group. -/
theorem BnBSearched.forward (hs : BnBSearched utxo_pool actual_target cost_of_change s)
    (hd : s.curr_selection.length < utxo_pool.length) (hf : s.forward utxo_pool = some next) :
    BnBSearched utxo_pool actual_target cost_of_change next.state ∧ ∀ s', next ≠ .exhausted s' := by
  obtain ⟨b, hskip, hb⟩ := s.forward_spec hd
  rw [hb] at hf
  cases hf
  refine ⟨⟨hs.best_waste, fun hbest m hbef => ?_⟩, fun _ h => by cases h⟩
  simp only [BnBNext.state, List.reverse_cons] at hbef hbest
  cases b with
  | true => exact hs.before hbest m ((before_append_true _ _).mp hbef)
  | false =>
    rcases (before_append_false _ _).mp hbef with hbef | hpre
    · exact hs.before hbest m hbef
    · -- `m` takes this group right after leaving the same one: not canonical
      obtain ⟨rest, hr, hsel, hsame⟩ := hskip rfl
      intro hlen hcan
      have hd' : rest.length + 1 < utxo_pool.length := by simpa [hsel] using hd
      have hm1 := hpre.getElem (i := rest.length + 1) (by simp [hsel])
      have hm0 := hpre.getElem (i := rest.length) (by simp [hsel])
      simp [hsel] at hm1 hm0
      have hsame' : SameGroup utxo_pool[rest.length] utxo_pool[rest.length + 1] := by
        simpa [hsel] using hsame
      have := hcan rest.length (by rw [hlen]; exact hd') hd' hsame' hm0
      simp [hm1] at this

/-- Before anything is kept, a selection in the range is kept: its waste with
the excess value lies between the fees' bounds, and does not wrap. -/
theorem BnBHolds.record_ne_nil (h : BnBHolds utxo_pool actual_target cost_of_change s)
    (hne : utxo_pool ≠ []) (hcost : 0 ≤ cost_of_change)
    (hwaste : (utxo_pool.map fun utxo => max 0 (utxo.fee - utxo.long_term_fee)).sum +
      cost_of_change ≤ MAX_MONEY)
    (hloss : -2 ^ 63 ≤ (utxo_pool.map fun utxo => min 0 (utxo.fee - utxo.long_term_fee)).sum)
    (hs : BnBSearched utxo_pool actual_target cost_of_change s)
    (hin : InRange actual_target cost_of_change s.curr_value) :
    (s.record utxo_pool actual_target).best_selection ≠ [] := by
  have hdepth : s.curr_selection.reverse.length ≤ utxo_pool.length := by simpa using h.depth
  unfold BnBState.record
  dsimp only
  split
  · -- the kept selection is as long as the pool
    intro hnil
    have hlen := congrArg List.length hnil
    simp only [resize, List.take_of_length_le hdepth, List.length_append, List.length_replicate,
      List.length_nil] at hlen
    exact hne (List.eq_nil_of_length_eq_zero (by omega))
  · rename_i hgt
    intro hbest
    obtain ⟨hw, hle⟩ := h.waste_le hcost hwaste hloss
    have hge := le_feeWaste (maskSelect_sublist s.curr_selection.reverse utxo_pool)
    unfold InRange at hin
    have hrange : int64Range (feeWaste (maskSelect s.curr_selection.reverse utxo_pool) +
        (s.curr_value - actual_target)) :=
      ⟨by omega, by unfold MAX_MONEY COIN at hwaste; omega⟩
    rw [hs.best_waste hbest, int64Wrap_add_int64Wrap, hw, int64Wrap_of_range hrange] at hgt
    omega

/-- **One iteration** of the search keeps what it has ruled out, and rules out
everything when it breaks. -/
theorem BnBSearched.step (hpos : ∀ utxo ∈ utxo_pool, 0 < utxo.effective_value)
    (hmoney : effectiveValue utxo_pool ≤ MAX_MONEY) (hrange : int64Range (actual_target + cost_of_change))
    (hne : utxo_pool ≠ []) (hcost : 0 ≤ cost_of_change)
    (hwaste : (utxo_pool.map fun utxo => max 0 (utxo.fee - utxo.long_term_fee)).sum +
      cost_of_change ≤ MAX_MONEY)
    (hloss : -2 ^ 63 ≤ (utxo_pool.map fun utxo => min 0 (utxo.fee - utxo.long_term_fee)).sum)
    (h : BnBHolds utxo_pool actual_target cost_of_change s)
    (hs : BnBSearched utxo_pool actual_target cost_of_change s)
    (hstep : s.step utxo_pool actual_target cost_of_change = some next) :
    BnBSearched utxo_pool actual_target cost_of_change next.state ∧
      ∀ s', next = .exhausted s' → s'.best_selection = [] →
        ∀ m, RuledOut utxo_pool actual_target cost_of_change m := by
  rcases s.step_cases hstep with ⟨hp, hb⟩ | ⟨hp, hge, hb⟩ | ⟨hp, hlt, hf⟩
  · refine hs.backtrack h (fun hbest => ?_) hb
    rcases s.prune_eq_some_true hp with hshort | hover | ⟨hgt, -⟩
    · exact h.cleared_of_prune hpos hmoney hrange (.inl hshort)
    · exact h.cleared_of_prune hpos hmoney hrange (.inr hover)
    · -- the waste test cannot pass before anything is kept
      have hle := (h.waste_le hcost hwaste hloss).2
      rw [hs.best_waste hbest] at hgt
      omega
  · -- a selection in the range is kept, and the search has nothing left to show
    have hin : InTestedRange actual_target cost_of_change s.curr_value :=
      ⟨hge, (s.prune_eq_some_false hp).2⟩
    have hkept := h.record_ne_nil hne hcost hwaste hloss hs (hin.inRange hrange)
    have hbest := (h.record hin).backtrack_best hb
    rw [← hbest] at hkept
    refine ⟨BnBSearched.of_best_ne_nil hkept, ?_⟩
    rintro s' rfl hnil
    exact absurd hnil hkept
  · have ⟨hs', hnext⟩ := hs.forward (h.depth_lt (s.prune_eq_some_false hp).1 hlt) hf
    exact ⟨hs', fun s' hex => absurd hex (hnext s')⟩

/-- **The search.**  A loop that breaks with nothing kept has ruled out every
selection. -/
theorem BnBSearched.bnbLoop (hpos : ∀ utxo ∈ utxo_pool, 0 < utxo.effective_value)
    (hmoney : effectiveValue utxo_pool ≤ MAX_MONEY) (hrange : int64Range (actual_target + cost_of_change))
    (hne : utxo_pool ≠ []) (hcost : 0 ≤ cost_of_change)
    (hwaste : (utxo_pool.map fun utxo => max 0 (utxo.fee - utxo.long_term_fee)).sum +
      cost_of_change ≤ MAX_MONEY)
    (hloss : -2 ^ 63 ≤ (utxo_pool.map fun utxo => min 0 (utxo.fee - utxo.long_term_fee)).sum) :
    ∀ (n : Nat) {s s' : BnBState}, BnBHolds utxo_pool actual_target cost_of_change s →
      BnBSearched utxo_pool actual_target cost_of_change s →
      Veribase.bnbLoop utxo_pool actual_target cost_of_change n s = some (s', true) →
      s'.best_selection = [] → ∀ m, RuledOut utxo_pool actual_target cost_of_change m
  | 0, _, _, _, _, hrun => by cases hrun
  | n + 1, s, _, h, hs, hrun => by
    rw [Veribase.bnbLoop] at hrun
    cases hstep : s.step utxo_pool actual_target cost_of_change with
    | none => simp [hstep] at hrun
    | some next =>
      have ⟨hs', hex⟩ := BnBSearched.step hpos hmoney hrange hne hcost hwaste hloss h hs hstep
      simp only [hstep, Option.bind_eq_bind, Option.bind_some] at hrun
      cases next with
      | next s₁ =>
        exact BnBSearched.bnbLoop hpos hmoney hrange hne hcost hwaste hloss n (h.step hstep) hs' hrun
      | exhausted s₁ =>
        cases hrun
        exact hex _ rfl

end Searched

/-! ## SelectCoinsBnB -/

section Select

variable {S : SortContract descending} {utxo_pool : List OutputGroup}
  {target_value cost_of_change not_input_fees : Int}

/-- The state the search starts from. -/
def bnbStart (curr_available_value : Int) : BnBState :=
  ⟨0, curr_available_value, 0, [], [], MAX_MONEY⟩

/-- `curr_available_value += utxo.effective_value` over the groups, from a
wrapped total: the wrapped sum. -/
theorem foldl_int64Wrap_add : ∀ (values : List Int) (total : Int),
    values.foldl (fun total v => int64Wrap (total + v)) (int64Wrap total) =
      int64Wrap (total + values.sum)
  | [], total => by simp
  | v :: values, total => by
    rw [List.foldl_cons, int64Wrap_int64Wrap_add, foldl_int64Wrap_add values, List.sum_cons,
      add_assoc]

/-- **What `SelectCoinsBnB` can return.**  It returns only when every group
has a positive effective value, and then either before the search, or with
what the search over the sorted groups kept, from the wrapped target and
the wrapped total of the groups. -/
theorem selectCoinsBnB_eq_some {outcome : BnBOutcome}
    (h : selectCoinsBnB S utxo_pool target_value cost_of_change not_input_fees = some outcome) :
    (∀ utxo ∈ utxo_pool, 0 < utxo.effective_value) ∧
    (outcome = .insufficient ∨ ∃ s exhausted,
      bnbLoop (S.sort utxo_pool.toArray).toList (int64Wrap (not_input_fees + target_value))
        cost_of_change TOTAL_TRIES (bnbStart (int64Wrap (effectiveValue utxo_pool))) =
          some (s, exhausted) ∧
      ((s.best_selection = [] ∧ outcome = .notFound exhausted) ∨
        (s.best_selection ≠ [] ∧ outcome = .found
          ((maskSelect s.best_selection (S.sort utxo_pool.toArray).toList).foldl addGroup (∅, 0)).1
          ((maskSelect s.best_selection (S.sort utxo_pool.toArray).toList).foldl addGroup
            (∅, 0)).2))) := by
  unfold selectCoinsBnB at h
  dsimp only at h
  -- the `assert` passed
  by_cases hany : (utxo_pool.any fun utxo => utxo.effective_value ≤ 0) = true
  · rw [if_pos hany] at h
    cases h
  rw [if_neg hany] at h
  refine ⟨by simpa using hany, ?_⟩
  -- the loop summing the groups gives their wrapped total
  have hsum : (utxo_pool.map (·.effective_value)).foldl (fun total v => int64Wrap (total + v)) 0 =
      int64Wrap (effectiveValue utxo_pool) := by
    simpa [effectiveValue] using foldl_int64Wrap_add (utxo_pool.map (·.effective_value)) 0
  rw [hsum] at h
  split_ifs at h with hless
  · cases h
    exact .inl rfl
  · refine .inr ?_
    cases hrun : bnbLoop (S.sort utxo_pool.toArray).toList (int64Wrap (not_input_fees + target_value))
      cost_of_change TOTAL_TRIES (bnbStart (int64Wrap (effectiveValue utxo_pool))) with
    | none =>
      simp only [bnbStart] at hrun
      simp [hrun] at h
    | some ret =>
      simp only [bnbStart] at hrun
      simp only [hrun, Option.bind_eq_bind, Option.bind_some] at h
      refine ⟨ret.1, ret.2, rfl, ?_⟩
      split_ifs at h with hempty
      · cases h
        exact .inl ⟨List.isEmpty_iff.mp hempty, rfl⟩
      · cases h
        exact .inr ⟨fun hnil => hempty (List.isEmpty_iff.mpr hnil), rfl⟩

/-- The sorted groups are the groups. -/
theorem sort_perm (S : SortContract descending) (utxo_pool : List OutputGroup) :
    (S.sort utxo_pool.toArray).toList.Perm utxo_pool := by
  have h := S.perm utxo_pool.toArray
  rw [Array.perm_iff_toList_perm] at h
  simpa using h

/-- The search starts with nothing selected and every group available. -/
theorem bnbHolds_start (S : SortContract descending) (utxo_pool : List OutputGroup)
    (actual_target cost_of_change : Int) :
    BnBHolds (S.sort utxo_pool.toArray).toList actual_target cost_of_change
      (bnbStart (int64Wrap (effectiveValue utxo_pool))) :=
  ⟨by simp [bnbStart], by simp [bnbStart],
    by simpa [bnbStart, effectiveValue] using
      congrArg int64Wrap ((sort_perm S utxo_pool).map (·.effective_value)).sum_eq.symm,
    by simp [bnbStart], .inl rfl⟩

theorem bnbSearched_start (utxo_pool : List OutputGroup) (actual_target cost_of_change : Int)
    (curr_available_value : Int) :
    BnBSearched utxo_pool actual_target cost_of_change (bnbStart curr_available_value) :=
  ⟨fun _ => rfl, fun _ m hm => by simp [bnbStart, Before] at hm⟩

/-- The search runs over the sorted groups: their effective values are
positive when the `assert`s pass, and are worth what the groups are. -/
theorem sorted_bounds (hpos : ∀ utxo ∈ utxo_pool, 0 < utxo.effective_value)
    (hmoney : effectiveValue utxo_pool ≤ MAX_MONEY) :
    (∀ utxo ∈ (S.sort utxo_pool.toArray).toList, 0 < utxo.effective_value) ∧
      effectiveValue (S.sort utxo_pool.toArray).toList ≤ MAX_MONEY := by
  have hperm := sort_perm S utxo_pool
  refine ⟨fun utxo hu => hpos utxo (hperm.subset hu), ?_⟩
  rwa [effectiveValue, (hperm.map _).sum_eq]

/-- **Soundness.**  When the groups are worth at most `MAX_MONEY` and the ends
of the range are `int64_t` amounts, a selection that `SelectCoinsBnB`
returns is a selection of the groups in the range, with its outputs and its
value as `int64_t` sums it. -/
theorem selectCoinsBnB_sound {out_set : Finset CInputCoin} {value_ret : Int}
    (hmoney : effectiveValue utxo_pool ≤ MAX_MONEY)
    (htarget : int64Range (not_input_fees + target_value))
    (hrange : int64Range (not_input_fees + target_value + cost_of_change))
    (h : selectCoinsBnB S utxo_pool target_value cost_of_change not_input_fees =
      some (.found out_set value_ret)) :
    ∃ sel : List OutputGroup, sel.Subperm utxo_pool ∧
      InRange (not_input_fees + target_value) cost_of_change (effectiveValue sel) ∧
      out_set = (sel.flatMap (·.m_outputs)).toFinset ∧
      value_ret = int64Wrap (sel.map (·.m_value)).sum := by
  obtain ⟨hpos, hout | ⟨s, exhausted, hrun, ⟨-, hout⟩ | ⟨hkept, hout⟩⟩⟩ := selectCoinsBnB_eq_some h
  · cases hout
  · cases hout
  obtain ⟨hpos', hmoney'⟩ := sorted_bounds (S := S) hpos hmoney
  rw [int64Wrap_of_range htarget] at hrun
  have hh := (bnbHolds_start S utxo_pool (not_input_fees + target_value) cost_of_change).bnbLoop
    TOTAL_TRIES hrun
  rcases hh.best with hnil | ⟨-, hin⟩
  · exact absurd hnil hkept
  -- the kept selection passed the test, which is the range, on its exact value
  rw [int64Wrap_effectiveValue (maskSelect_sublist _ _) hpos' hmoney'] at hin
  rw [foldl_addGroup_empty] at hout
  cases hout
  exact ⟨_, (maskSelect_sublist _ _).subperm.trans (sort_perm S utxo_pool).subperm,
    hin.inRange hrange, rfl, rfl⟩

/-- **Completeness.**  When the pool is not empty, the groups are worth at
most `MAX_MONEY`, the upper end of the range is an `int64_t` amount, and the
waste of every selection, with the excess value, stays within `MAX_MONEY`
and above the least `int64_t`, a search that ends at `break` with nothing
kept has missed no selection in the range. -/
theorem selectCoinsBnB_complete (hne : utxo_pool ≠ []) (hcost : 0 ≤ cost_of_change)
    (hmoney : effectiveValue utxo_pool ≤ MAX_MONEY)
    (htarget : int64Range (not_input_fees + target_value))
    (hrange : int64Range (not_input_fees + target_value + cost_of_change))
    (hwaste : (utxo_pool.map fun utxo => max 0 (utxo.fee - utxo.long_term_fee)).sum +
      cost_of_change ≤ MAX_MONEY)
    (hloss : -2 ^ 63 ≤ (utxo_pool.map fun utxo => min 0 (utxo.fee - utxo.long_term_fee)).sum)
    (h : selectCoinsBnB S utxo_pool target_value cost_of_change not_input_fees =
      some (.notFound true))
    {sel : List OutputGroup} (hsel : sel.Subperm utxo_pool) :
    ¬InRange (not_input_fees + target_value) cost_of_change (effectiveValue sel) := by
  obtain ⟨hpos, hout | ⟨s, exhausted, hrun, ⟨hnil, hout⟩ | ⟨-, hout⟩⟩⟩ := selectCoinsBnB_eq_some h
  · cases hout
  swap
  · cases hout
  cases hout
  rw [int64Wrap_of_range htarget] at hrun
  -- the search runs over the sorted groups, which are the groups
  have hperm := sort_perm S utxo_pool
  obtain ⟨hpos', hmoney'⟩ := sorted_bounds (S := S) hpos hmoney
  have hne' : (S.sort utxo_pool.toArray).toList ≠ [] := fun hnil' => by
    rw [hnil'] at hperm
    exact hne hperm.symm.eq_nil
  have hwaste' : ((S.sort utxo_pool.toArray).toList.map
      fun utxo => max 0 (utxo.fee - utxo.long_term_fee)).sum + cost_of_change ≤ MAX_MONEY := by
    rwa [(hperm.map _).sum_eq]
  have hloss' : -2 ^ 63 ≤ ((S.sort utxo_pool.toArray).toList.map
      fun utxo => min 0 (utxo.fee - utxo.long_term_fee)).sum := by
    rwa [(hperm.map _).sum_eq]
  have hruled := BnBSearched.bnbLoop hpos' hmoney' hrange hne' hcost hwaste' hloss' TOTAL_TRIES
    (bnbHolds_start S utxo_pool _ _) (bnbSearched_start _ _ _ _) hrun hnil
  -- the selection is the groups some mask takes, and a canonical mask has its value
  obtain ⟨l, hl, hsub⟩ := hsel.trans hperm.symm.subperm
  obtain ⟨m, hlen, hm⟩ := exists_maskSelect_eq hsub
  obtain ⟨m', hlen', hcan', hsum⟩ := exists_canonical (E := SameGroup) (·.effective_value)
    (fun _ _ hsame => hsame.1.symm) _ m hlen
  have hvalue : effectiveValue (maskSelect m' (S.sort utxo_pool.toArray).toList) =
      effectiveValue sel := by
    rw [effectiveValue, hsum, hm, effectiveValue, (hl.map _).sum_eq]
  rw [← hvalue]
  exact hruled m' hlen' hcan'

end Select

/-- **SelectCoinsBnB is sound, and complete when it has searched the whole
tree.**  For every pool whose effective values add to at most `MAX_MONEY`,
every target, cost of change and fees for which `not_input_fees +
target_value` and that plus `cost_of_change` are `int64_t` amounts, and every
sort that meets the contract of `descending`: a selection it returns is a
selection of the groups whose effective values sum into the range, with
`out_set` their outputs and `value_ret` the sum of their values as
`int64_t` computes it; and when the pool is not empty, `cost_of_change` is
not negative, and the fees above the long-term fees of the groups, with
`cost_of_change`, add to at most `MAX_MONEY` while those below add to no
less than the least `int64_t`, a search that ends at `break` and returns
`false` leaves no selection of the groups in the range. -/
theorem selectCoinsBnB_sound_complete (S : SortContract descending) (utxo_pool : List OutputGroup)
    (target_value cost_of_change not_input_fees : Int)
    (hmoney : (utxo_pool.map (·.effective_value)).sum ≤ MAX_MONEY)
    (htarget : int64Range (not_input_fees + target_value))
    (hrange : int64Range (not_input_fees + target_value + cost_of_change)) :
    (∀ out_set value_ret, selectCoinsBnB S utxo_pool target_value cost_of_change not_input_fees =
        some (.found out_set value_ret) →
      ∃ sel : List OutputGroup, sel.Subperm utxo_pool ∧
        not_input_fees + target_value ≤ (sel.map (·.effective_value)).sum ∧
        (sel.map (·.effective_value)).sum ≤ not_input_fees + target_value + cost_of_change ∧
        out_set = (sel.flatMap (·.m_outputs)).toFinset ∧
        value_ret = int64Wrap (sel.map (·.m_value)).sum) ∧
    (utxo_pool ≠ [] → 0 ≤ cost_of_change →
      (utxo_pool.map fun utxo => max 0 (utxo.fee - utxo.long_term_fee)).sum + cost_of_change ≤
        MAX_MONEY →
      -2 ^ 63 ≤ (utxo_pool.map fun utxo => min 0 (utxo.fee - utxo.long_term_fee)).sum →
      selectCoinsBnB S utxo_pool target_value cost_of_change not_input_fees =
        some (.notFound true) →
      ∀ sel : List OutputGroup, sel.Subperm utxo_pool →
        ¬(not_input_fees + target_value ≤ (sel.map (·.effective_value)).sum ∧
          (sel.map (·.effective_value)).sum ≤ not_input_fees + target_value + cost_of_change)) := by
  refine ⟨fun out_set value_ret h => ?_, fun hne hcost hwaste hloss h sel hsel => ?_⟩
  · obtain ⟨sel, hsub, ⟨hlo, hhi⟩, hout, hvalue⟩ := selectCoinsBnB_sound hmoney htarget hrange h
    exact ⟨sel, hsub, hlo, hhi, hout, hvalue⟩
  · exact selectCoinsBnB_complete hne hcost hmoney htarget hrange hwaste hloss h hsel

/-- The contract on two runs: one that keeps the groups worth `2` and `3` for
the target `5`, and one that searches the single group worth `2` for the
target `1` and finds nothing. -/
theorem selectCoinsBnB_sound_complete_two_runs :
    ((([⟨[], 2, 2, 0, 0⟩, ⟨[], 3, 3, 0, 0⟩] : List OutputGroup).map (·.effective_value)).sum ≤
        MAX_MONEY ∧ int64Range (0 + 5) ∧ int64Range (0 + 5 + 0) ∧
      selectCoinsBnB descendingSort [⟨[], 2, 2, 0, 0⟩, ⟨[], 3, 3, 0, 0⟩] 5 0 0 =
        some (.found ∅ 5) ∧
      ∃ sel : List OutputGroup, sel.Subperm [⟨[], 2, 2, 0, 0⟩, ⟨[], 3, 3, 0, 0⟩] ∧
        0 + 5 ≤ (sel.map (·.effective_value)).sum ∧
        (sel.map (·.effective_value)).sum ≤ 0 + 5 + 0 ∧
        (∅ : Finset CInputCoin) = (sel.flatMap (·.m_outputs)).toFinset ∧
        (5 : Int) = int64Wrap (sel.map (·.m_value)).sum) ∧
    ((([⟨[], 2, 2, 0, 0⟩] : List OutputGroup).map (·.effective_value)).sum ≤ MAX_MONEY ∧
      int64Range (0 + 1) ∧ int64Range (0 + 1 + 0) ∧
      [⟨[], 2, 2, 0, 0⟩] ≠ ([] : List OutputGroup) ∧ (0 : Int) ≤ 0 ∧
      ([⟨[], 2, 2, 0, 0⟩].map fun utxo : OutputGroup => max 0 (utxo.fee - utxo.long_term_fee)).sum +
        0 ≤ MAX_MONEY ∧
      -2 ^ 63 ≤ ([⟨[], 2, 2, 0, 0⟩].map fun utxo : OutputGroup =>
        min 0 (utxo.fee - utxo.long_term_fee)).sum ∧
      selectCoinsBnB descendingSort [⟨[], 2, 2, 0, 0⟩] 1 0 0 = some (.notFound true) ∧
      ∀ sel : List OutputGroup, sel.Subperm [⟨[], 2, 2, 0, 0⟩] →
        ¬(0 + 1 ≤ (sel.map (·.effective_value)).sum ∧
          (sel.map (·.effective_value)).sum ≤ 0 + 1 + 0)) := by
  have hfound : selectCoinsBnB descendingSort [⟨[], 2, 2, 0, 0⟩, ⟨[], 3, 3, 0, 0⟩] 5 0 0 =
      some (.found ∅ 5) := by decide
  have hnone : selectCoinsBnB descendingSort [⟨[], 2, 2, 0, 0⟩] 1 0 0 = some (.notFound true) := by
    decide
  have hmoney₁ : (([⟨[], 2, 2, 0, 0⟩, ⟨[], 3, 3, 0, 0⟩] : List OutputGroup).map
      (·.effective_value)).sum ≤ MAX_MONEY := by unfold MAX_MONEY COIN; decide
  have hmoney₂ : (([⟨[], 2, 2, 0, 0⟩] : List OutputGroup).map (·.effective_value)).sum ≤
      MAX_MONEY := by unfold MAX_MONEY COIN; decide
  have hwaste : ([⟨[], 2, 2, 0, 0⟩].map fun utxo : OutputGroup =>
      max 0 (utxo.fee - utxo.long_term_fee)).sum + 0 ≤ MAX_MONEY := by
    unfold MAX_MONEY COIN; decide
  have hloss : -2 ^ 63 ≤ ([⟨[], 2, 2, 0, 0⟩].map fun utxo : OutputGroup =>
      min 0 (utxo.fee - utxo.long_term_fee)).sum := by decide
  have hrange₁ : int64Range (0 + 5) := by unfold int64Range; decide
  have hrange₂ : int64Range (0 + 1) := by unfold int64Range; decide
  exact ⟨⟨hmoney₁, hrange₁, hrange₁, hfound,
      (selectCoinsBnB_sound_complete descendingSort _ 5 0 0 hmoney₁ hrange₁ hrange₁).1 _ _ hfound⟩,
    hmoney₂, hrange₂, hrange₂, List.cons_ne_nil _ _, le_rfl, hwaste, hloss, hnone,
    (selectCoinsBnB_sound_complete descendingSort _ 1 0 0 hmoney₂ hrange₂ hrange₂).2
      (List.cons_ne_nil _ _) le_rfl hwaste hloss hnone⟩

/-- Where the contract needs each of its conditions, on pools of positive
effective values worth at most `MAX_MONEY`.  With `not_input_fees` and
`target_value` both `2^63 - 1`, their sum wraps to the target `-2`: the empty
selection passes the test of the range and is kept as the mask `[false]`,
so the search returns no coins and no value for a range no selection
reaches.  With no groups and the range `[0, 0]`, the empty selection is in
the range but is never kept: the mask it would keep is empty.  With one
group of effective value `1` whose fee is `MAX_MONEY + 1` above its
long-term fee, taking it is in the range `[1, 1]`, but its waste passes
`MAX_MONEY` and the waste test backtracks before the range is tested.  With
two groups whose fees are each `2^62 + 1` below their long-term fees, taking
both is in the range `[5, 5]`, but their waste wraps past the least
`int64_t` to more than `MAX_MONEY`, too much to keep.  The last three
searches end at `break` and return `false`. -/
theorem selectCoinsBnB_overflow_and_misses :
    (selectCoinsBnB descendingSort [⟨[], 5, 5, 0, 0⟩] (2 ^ 63 - 1) 2 (2 ^ 63 - 1) =
        some (.found ∅ 0) ∧
      ∀ sel : List OutputGroup, sel.Subperm [⟨[], 5, 5, 0, 0⟩] →
        (sel.map (·.effective_value)).sum < (2 ^ 63 - 1) + (2 ^ 63 - 1)) ∧
    (selectCoinsBnB descendingSort [] 0 0 0 = some (.notFound true) ∧
      ([] : List OutputGroup).Subperm [] ∧
      0 + 0 ≤ (([] : List OutputGroup).map (·.effective_value)).sum ∧
      (([] : List OutputGroup).map (·.effective_value)).sum ≤ 0 + 0 + 0) ∧
    (selectCoinsBnB descendingSort [⟨[], 1, 1, MAX_MONEY + 1, 0⟩] 1 0 0 = some (.notFound true) ∧
      ([⟨[], 1, 1, MAX_MONEY + 1, 0⟩] : List OutputGroup).Subperm [⟨[], 1, 1, MAX_MONEY + 1, 0⟩] ∧
      0 + 1 ≤ ([⟨[], 1, 1, MAX_MONEY + 1, 0⟩].map OutputGroup.effective_value).sum ∧
      ([⟨[], 1, 1, MAX_MONEY + 1, 0⟩].map OutputGroup.effective_value).sum ≤ 0 + 1 + 0) ∧
    (selectCoinsBnB descendingSort [⟨[], 3, 3, 0, 2 ^ 62 + 1⟩, ⟨[], 2, 2, 0, 2 ^ 62 + 1⟩] 5 0 0 =
        some (.notFound true) ∧
      ([⟨[], 3, 3, 0, 2 ^ 62 + 1⟩, ⟨[], 2, 2, 0, 2 ^ 62 + 1⟩] : List OutputGroup).Subperm
        [⟨[], 3, 3, 0, 2 ^ 62 + 1⟩, ⟨[], 2, 2, 0, 2 ^ 62 + 1⟩] ∧
      0 + 5 ≤ ([⟨[], 3, 3, 0, 2 ^ 62 + 1⟩, ⟨[], 2, 2, 0, 2 ^ 62 + 1⟩].map
        OutputGroup.effective_value).sum ∧
      ([⟨[], 3, 3, 0, 2 ^ 62 + 1⟩, ⟨[], 2, 2, 0, 2 ^ 62 + 1⟩].map
        OutputGroup.effective_value).sum ≤ 0 + 5 + 0) := by
  refine ⟨⟨by decide, fun sel hsel => ?_⟩, ⟨by decide, List.Subperm.refl _, by decide, by decide⟩,
    ⟨by decide, List.Subperm.refl _, by decide, by decide⟩,
    ⟨by decide, List.Subperm.refl _, by decide, by decide⟩⟩
  -- a selection of the one group is worth at most `5`
  have hle := sum_le_of_subperm (·.effective_value) hsel (by simp)
  simp only [List.map_cons, List.map_nil, List.sum_cons, List.sum_nil] at hle
  omega

end Veribase
