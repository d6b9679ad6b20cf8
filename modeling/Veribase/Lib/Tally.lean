import Mathlib

/-!
# Counters kept beside a map

A program that keeps a map of records often keeps beside it a counter of the
records with some property, and adjusts the counter by hand wherever a record
changes: `n -= old.flag; ...; n += new.flag`.  The counter is right when it
equals `tally p m`, the number of entries of the map whose value satisfies
`p`.  `tally_insert_of_lookup` and `tally_erase_of_lookup` say how the tally
moves when one entry changes or goes, in the integers such counters live in,
so that a proof that a counter stays right is one step for each place that
changes the map.

Two map operations of the standard library appear beside them:
`std::map::insert` and `emplace` add an entry only when the key has none
(`insertNew`), and a loop that erases the keys of a list one by one
(`eraseEach`).
-/

namespace Tally

variable {α β : Type}

/-! ## The tally -/

/-- The number of entries of `m` whose value satisfies `p`. -/
def tally (p : β → Bool) (m : AList fun _ : α => β) : Nat :=
  m.entries.countP fun e => p e.2

@[simp] theorem tally_empty (p : β → Bool) : tally p (∅ : AList fun _ : α => β) = 0 := rfl

theorem tally_eq_zero_of_entries (p : β → Bool) {m : AList fun _ : α => β}
    (h : m.entries = []) : tally p m = 0 := by
  simp [tally, h]

variable [DecidableEq α]

/-- The tally of a map whose entry at `a` is `b`, split into that entry and
the others. -/
theorem tally_eq_erase_add (p : β → Bool) {m : AList fun _ : α => β} {a : α} {b : β}
    (h : m.lookup a = some b) : tally p m = tally p (m.erase a) + (p b).toNat := by
  have hmem : a ∈ m.entries.keys := AList.mem_keys.mp (AList.lookup_isSome.mp (by simp [h]))
  obtain ⟨b', l₁, l₂, hnot, heq, hker⟩ := List.exists_of_kerase hmem
  -- the entry the split finds is the one `lookup` finds, since `a` is not a key before it
  have hb : b' = b := by
    have hl : m.entries.dlookup a = some b := h
    rw [heq, List.dlookup_append, List.dlookup_eq_none.mpr hnot, Option.none_or,
      List.dlookup_cons_eq] at hl
    exact Option.some.inj hl
  subst hb
  have herase : (m.erase a).entries = l₁ ++ l₂ := hker
  simp only [tally, herase, heq, List.countP_append, List.countP_cons]
  cases p b'
  · simp
  · simp
    omega

/-- Taking out the entry at `a` takes its value out of the count. -/
theorem tally_erase_of_lookup (p : β → Bool) {m : AList fun _ : α => β} {a : α} {b : β}
    (h : m.lookup a = some b) : (tally p (m.erase a) : Int) = tally p m - (p b).toNat := by
  rw [tally_eq_erase_add p h]
  omega

/-- A new entry at `a` replaces whatever `a` had. -/
theorem tally_insert (p : β → Bool) (m : AList fun _ : α => β) (a : α) (b : β) :
    tally p (m.insert a b) = tally p (m.erase a) + (p b).toNat := by
  have hentries : (m.insert a b).entries = ⟨a, b⟩ :: (m.erase a).entries := AList.entries_insert
  simp only [tally, hentries, List.countP_cons]
  cases p b <;> simp

/-- A new entry at a key that had none adds its value to the count. -/
theorem tally_insert_of_lookup_none (p : β → Bool) {m : AList fun _ : α => β} {a : α}
    (h : m.lookup a = none) (b : β) : tally p (m.insert a b) = tally p m + (p b).toNat := by
  have hnot : a ∉ m.entries.keys := fun hk => AList.lookup_eq_none.mp h (AList.mem_keys.mpr hk)
  have hentries : (m.insert a b).entries = ⟨a, b⟩ :: m.entries := by
    rw [AList.entries_insert, List.kerase_of_notMem_keys hnot]
  simp only [tally, hentries, List.countP_cons]
  cases p b <;> simp

/-- Changing the entry at `a` from `b` to `b'` moves the count by what `b'`
adds and `b` takes. -/
theorem tally_insert_of_lookup (p : β → Bool) {m : AList fun _ : α => β} {a : α} {b : β}
    (h : m.lookup a = some b) (b' : β) :
    (tally p (m.insert a b') : Int) = tally p m - (p b).toNat + (p b').toNat := by
  rw [tally_insert, tally_eq_erase_add p h]
  omega

/-! ## Insertion that keeps an existing entry -/

/-- `std::map::insert` (and `emplace`): add the entry unless `a` has one. -/
def insertNew (m : AList fun _ : α => β) (a : α) (b : β) : AList fun _ : α => β :=
  if a ∈ m then m else m.insert a b

theorem insertNew_of_lookup_none {m : AList fun _ : α => β} {a : α} (h : m.lookup a = none)
    (b : β) : insertNew m a b = m.insert a b := by
  have : a ∉ m := by
    rw [← AList.lookup_isSome, h]
    simp
  simp [insertNew, this]

theorem insertNew_of_lookup_some {m : AList fun _ : α => β} {a : α} {b : β}
    (h : m.lookup a = some b) (b' : β) : insertNew m a b' = m := by
  have : a ∈ m := AList.lookup_isSome.mp (by simp [h])
  simp [insertNew, this]

/-! ## Erasing the keys of a list -/

/-- `for (x : xs) m.erase(key(x))`. -/
def eraseEach {γ : Type} (key : γ → α) (xs : List γ) (m : AList fun _ : α => β) :
    AList fun _ : α => β :=
  xs.foldl (fun m x => m.erase (key x)) m

/-- What is left at a key after the loop: nothing if it is the key of an
element of the list, the old entry otherwise. -/
theorem lookup_eraseEach {γ : Type} (key : γ → α) :
    ∀ (xs : List γ) (m : AList fun _ : α => β) (a : α),
      (eraseEach key xs m).lookup a = if a ∈ xs.map key then none else m.lookup a
  | [], m, a => by simp [eraseEach]
  | x :: xs, m, a => by
    have ih := lookup_eraseEach key xs (m.erase (key x)) a
    simp only [eraseEach, List.foldl_cons] at ih ⊢
    rw [ih]
    by_cases hx : a = key x
    · subst hx
      simp [AList.lookup_erase]
    · by_cases hxs : a ∈ xs.map key
      · simp [hxs]
      · simp [hxs, hx, AList.lookup_erase_ne hx]

end Tally
