import Mathlib

/-!
# Rewriting a map entry by entry

A loop over the entries of one map that rewrites, for each, the value its key
has in another map (`for (it = child.begin(); ...) parent[it->first] = ...`)
touches each key once when the keys of the entries are distinct.  What the
loop leaves at a key is then a function of the entry at that key alone, and a
property of one key at a time survives the whole loop.

`updateEach` is such a loop over an `AList`, whose step may fail, and
`writeEach` the same loop over a map given as a function.  Their two lemmas,
`updateEach_spec` and `writeEach_apply`, say what the loop leaves at every key,
so that a proof about the loop is a proof about one key.
-/

namespace KeyedUpdate

variable {α β γ ε : Type} [DecidableEq α]

/-! ## One key -/

/-- Give `a` the value `b`, or take `a` out for `none`. -/
def setKey (m : AList fun _ : α => β) (a : α) : Option β → AList fun _ : α => β
  | some b => m.insert a b
  | none => m.erase a

@[simp] theorem lookup_setKey_self (m : AList fun _ : α => β) (a : α) (b : Option β) :
    (setKey m a b).lookup a = b := by
  cases b with
  | none => exact AList.lookup_erase a m
  | some b => exact AList.lookup_insert m

theorem lookup_setKey_ne {m : AList fun _ : α => β} {a a' : α} (b : Option β) (h : a' ≠ a) :
    (setKey m a b).lookup a' = m.lookup a' := by
  cases b with
  | none => exact AList.lookup_erase_ne h
  | some b => exact AList.lookup_insert_ne h

/-! ## The loops -/

/-- Each entry `⟨a, c⟩` of the list in turn replaces the value of `a` in the
map by what `f` makes of the old value and `c`. -/
def updateEach (f : α → Option β → γ → Except ε (Option β)) :
    List (Σ _ : α, γ) → (AList fun _ : α => β) → Except ε (AList fun _ : α => β)
  | [], m => pure m
  | ⟨a, c⟩ :: rest, m => do
    let b ← f a (m.lookup a) c
    updateEach f rest (setKey m a b)

/-- `updateEach` for a step that cannot fail, over a map given as a function. -/
def writeEach (f : α → Option β → γ → Option β) : List (Σ _ : α, γ) → (α → Option β) → α → Option β
  | [], s => s
  | ⟨a, c⟩ :: rest, s => writeEach f rest (Function.update s a (f a (s a) c))

/-- A key later in a list of distinct keys is not the head's. -/
theorem ne_of_dlookup_tail {a₀ a : α} {c₀ c : γ} {rest : List (Σ _ : α, γ)}
    (hnd : (⟨a₀, c₀⟩ :: rest : List (Σ _ : α, γ)).NodupKeys) (h : rest.dlookup a = some c) :
    a ≠ a₀ := by
  rintro rfl
  have hmem : a ∈ rest.keys := List.dlookup_isSome.mp (by simp [h])
  exact List.notMem_keys_of_nodupKeys_cons hnd hmem

/-- **What the loop leaves at every key.**  If the step at every key of the
list succeeds with a value satisfying `P`, and `P` holds of the old value at
every other key, the loop succeeds and `P` holds everywhere after it. -/
theorem updateEach_spec (f : α → Option β → γ → Except ε (Option β)) (P : α → Option β → Prop) :
    ∀ {L : List (Σ _ : α, γ)} {m : AList fun _ : α => β}, L.NodupKeys →
      (∀ a c, L.dlookup a = some c → ∃ b, f a (m.lookup a) c = .ok b ∧ P a b) →
      (∀ a, L.dlookup a = none → P a (m.lookup a)) →
      ∃ m', updateEach f L m = .ok m' ∧ ∀ a, P a (m'.lookup a)
  | [], m, _, _, hout => ⟨m, rfl, fun a => hout a rfl⟩
  | ⟨a₀, c₀⟩ :: rest, m, hnd, hin, hout => by
    obtain ⟨b₀, hf, hP⟩ := hin a₀ c₀ (List.dlookup_cons_eq rest a₀ c₀)
    have hnd' : rest.NodupKeys := (List.nodupKeys_cons.mp hnd).2
    -- the rest of the loop runs on `m` with `a₀` set, and never reads `a₀` again
    have hin' : ∀ a c, rest.dlookup a = some c →
        ∃ b, f a ((setKey m a₀ b₀).lookup a) c = .ok b ∧ P a b := by
      intro a c hc
      have hne := ne_of_dlookup_tail hnd hc
      rw [lookup_setKey_ne b₀ hne]
      exact hin a c (by rw [List.dlookup_cons_ne _ _ hne]; exact hc)
    have hout' : ∀ a, rest.dlookup a = none → P a ((setKey m a₀ b₀).lookup a) := by
      intro a ha
      by_cases hne : a = a₀
      · subst hne
        rw [lookup_setKey_self]
        exact hP
      · rw [lookup_setKey_ne b₀ hne]
        exact hout a (by rw [List.dlookup_cons_ne _ _ hne]; exact ha)
    obtain ⟨m', hrun, hall⟩ := updateEach_spec f P hnd' hin' hout'
    refine ⟨m', ?_, hall⟩
    simp only [updateEach, hf, bind, Except.bind]
    exact hrun

/-- What `writeEach` leaves at a key: the step's value on the old one where
the list has the key, the old value elsewhere. -/
theorem writeEach_apply (f : α → Option β → γ → Option β) :
    ∀ {L : List (Σ _ : α, γ)}, L.NodupKeys → ∀ (s : α → Option β) (a : α),
      writeEach f L s a = match L.dlookup a with
        | some c => f a (s a) c
        | none => s a
  | [], _, s, a => rfl
  | ⟨a₀, c₀⟩ :: rest, hnd, s, a => by
    have hnd' : rest.NodupKeys := (List.nodupKeys_cons.mp hnd).2
    rw [writeEach, writeEach_apply f hnd']
    by_cases hne : a = a₀
    · subst hne
      have hnone : rest.dlookup a = none :=
        List.dlookup_eq_none.mpr (List.notMem_keys_of_nodupKeys_cons hnd)
      rw [hnone, List.dlookup_cons_eq, Function.update_self]
    · rw [List.dlookup_cons_ne _ _ hne]
      cases rest.dlookup a with
      | none => exact Function.update_of_ne hne _ _
      | some c => rw [Function.update_of_ne hne]

end KeyedUpdate
