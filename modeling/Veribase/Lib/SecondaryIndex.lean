import Mathlib

/-!
# Secondary indexes of a map

A map of records is often kept with two more structures that let it be
searched another way, and that its code updates by hand at every change:

* a vector of its keys, with each record holding its own position in the
  vector, so that a key can be drawn at random and removed in constant time:
  the key is removed by moving the last key into its place (`swapRemove`);
* an inverted index, which gives for each tag the set of keys whose record
  has that tag (`addUnder`, `removeUnder`), with no entry for a tag that no
  record has.

`Positions` and `Indexes` say that the two structures agree with the map,
given as the functions `pos` and `tags` of its keys; each operation keeps
them for the map changed at one key (`Positions.push`,
`Positions.swapRemove`, `Indexes.add`, `Indexes.remove`).
-/

namespace SecondaryIndex

/-! ## A vector of keys with positions -/

section Positions

variable {κ : Type}

/-- `pos` gives the position of exactly the keys that `l` lists. -/
def Positions (l : List κ) (pos : κ → Option Nat) : Prop :=
  ∀ k p, pos k = some p ↔ l[p]? = some k

/-- `v[p] = last; v.pop_back()` where `last` is `v.back()`, or only
`v.pop_back()` when `p` is the last position: the key at `p` leaves and the
last key takes its place. -/
def swapRemove (l : List κ) (p : Nat) (last : κ) : List κ :=
  if p + 1 ≠ l.length then (l.set p last).dropLast else l.dropLast

/-- A key has one position, so the listed keys are distinct. -/
theorem Positions.eq_of_getElem? {l : List κ} {pos : κ → Option Nat} (h : Positions l pos)
    {p q : Nat} {k : κ} (hp : l[p]? = some k) (hq : l[q]? = some k) : p = q := by
  have h₁ := (h k p).mpr hp
  rw [(h k q).mpr hq, Option.some.injEq] at h₁
  exact h₁.symm

theorem Positions.nodup {l : List κ} {pos : κ → Option Nat} (h : Positions l pos) : l.Nodup := by
  rw [List.nodup_iff_getElem?_ne_getElem?]
  intro i j hij hj heq
  have hx : l[j]? = some l[j] := List.getElem?_eq_getElem hj
  have := h.eq_of_getElem? (heq.trans hx) hx
  omega

theorem Positions.mem_iff {l : List κ} {pos : κ → Option Nat} (h : Positions l pos) (k : κ) :
    k ∈ l ↔ (pos k).isSome := by
  constructor
  · intro hk
    obtain ⟨p, hp, rfl⟩ := List.getElem_of_mem hk
    simp [(h _ p).mpr (List.getElem?_eq_getElem hp)]
  · intro hk
    obtain ⟨p, hp⟩ := Option.isSome_iff_exists.mp hk
    exact List.mem_of_getElem? ((h k p).mp hp)

/-- The key at `p` is the last one exactly when `p` is the last position. -/
theorem Positions.eq_last_iff {l : List κ} {pos : κ → Option Nat} (h : Positions l pos)
    {k last : κ} {p : Nat} (hp : pos k = some p) (hlast : l.getLast? = some last) :
    k = last ↔ p + 1 = l.length := by
  have hkp : l[p]? = some k := (h k p).mp hp
  have hplen : p < l.length := (List.getElem?_eq_some_iff.mp hkp).1
  have hlastp : l[l.length - 1]? = some last := by rw [← List.getLast?_eq_getElem?]; exact hlast
  constructor
  · rintro rfl
    have := h.eq_of_getElem? hkp hlastp
    omega
  · intro hpl
    rw [show p = l.length - 1 by omega] at hkp
    exact Option.some.inj (hkp.symm.trans hlastp)

theorem length_swapRemove (l : List κ) (p : Nat) (last : κ) :
    (swapRemove l p last).length = l.length - 1 := by
  unfold swapRemove
  split <;> simp

variable [DecidableEq κ]

/-- `v.push_back(k)` of a key not listed: it takes the last position. -/
theorem Positions.push {l : List κ} {pos : κ → Option Nat} (h : Positions l pos) {k : κ}
    (hk : pos k = none) : Positions (l ++ [k]) (Function.update pos k (some l.length)) := by
  have hnot : k ∉ l := by
    intro hmem
    have := (h.mem_iff k).mp hmem
    rw [hk] at this
    cases this
  intro k' p
  by_cases hp : p < l.length
  · -- below the end the list is the old one, where `k` is not
    rw [List.getElem?_append_left hp]
    by_cases hk' : k' = k
    · subst hk'
      simp only [Function.update_self, Option.some.injEq]
      exact ⟨fun e => by omega, fun e => absurd (List.mem_of_getElem? e) hnot⟩
    · rw [Function.update_of_ne hk', h k' p]
  · rw [List.getElem?_append_right (by omega), List.getElem?_singleton]
    by_cases hk' : k' = k
    · subst hk'
      simp only [Function.update_self, Option.some.injEq]
      constructor
      · rintro rfl
        simp
      · intro e
        split at e
        · omega
        · cases e
    · rw [Function.update_of_ne hk', h k' p, List.getElem?_eq_none (by omega)]
      constructor
      · intro e
        cases e
      · intro e
        split at e
        · exact absurd (Option.some.inj e).symm hk'
        · cases e

/-- The removal of the key at `p`: the key leaves, and the last key, if it is
another, takes position `p`. -/
theorem Positions.swapRemove {l : List κ} {pos : κ → Option Nat} (h : Positions l pos)
    {k last : κ} {p : Nat} (hp : pos k = some p) (hlast : l.getLast? = some last) :
    Positions (swapRemove l p last)
      (fun x => if x = k then none else if x = last then some p else pos x) := by
  have hkp : l[p]? = some k := (h k p).mp hp
  have hplen : p < l.length := (List.getElem?_eq_some_iff.mp hkp).1
  have hlastp : l[l.length - 1]? = some last := by rw [← List.getLast?_eq_getElem?]; exact hlast
  have hklast : k = last ↔ p + 1 = l.length := h.eq_last_iff hp hlast
  -- the new list at a position: the old one below the end, with `last` at `p`
  have hget : ∀ q, (SecondaryIndex.swapRemove l p last)[q]? =
      if q < l.length - 1 then (if q = p then some last else l[q]?) else none := by
    intro q
    unfold SecondaryIndex.swapRemove
    split
    · rw [List.getElem?_dropLast, List.length_set, List.getElem?_set]
      by_cases hq : q = p
      · subst hq
        simp [hplen]
      · simp [Ne.symm hq, hq]
    · rename_i hpl
      rw [List.getElem?_dropLast]
      by_cases hq : q = p
      · subst hq
        simp [show ¬q < l.length - 1 by omega]
      · simp [hq]
  intro x q
  rw [hget]
  by_cases hxk : x = k
  · -- the key removed is nowhere
    subst hxk
    simp only [if_true, reduceCtorEq, false_iff]
    split
    · split
      · rename_i hq hqp
        intro e
        have := hklast.mp (Option.some.inj e).symm
        omega
      · rename_i hq hqp
        intro e
        exact hqp (h.eq_of_getElem? e hkp)
    · simp
  · by_cases hxl : x = last
    · -- the last key moves to `p`
      subst hxl
      simp only [hxk, if_false, if_true, Option.some.injEq]
      have hpl : p + 1 ≠ l.length := fun hpl => hxk (hklast.mpr hpl).symm
      constructor
      · rintro rfl
        simp [show p < l.length - 1 by omega]
      · intro e
        split at e
        · split at e
          · rename_i hq hqp
            exact hqp.symm
          · rename_i hq hqp
            have := h.eq_of_getElem? e hlastp
            omega
        · cases e
    · -- every other key keeps its position
      simp only [hxk, hxl, if_false]
      rw [h x q]
      constructor
      · intro e
        have hqp : q ≠ p := by
          rintro rfl
          exact hxk (Option.some.inj (hkp.symm.trans e)).symm
        have hql : q ≠ l.length - 1 := by
          rintro rfl
          exact hxl (Option.some.inj (hlastp.symm.trans e)).symm
        have hq : q < l.length := (List.getElem?_eq_some_iff.mp e).1
        simp [show q < l.length - 1 by omega, hqp, e]
      · intro e
        split at e
        · split at e
          · exact absurd (Option.some.inj e).symm hxl
          · exact e
        · cases e

end Positions

/-! ## An inverted index -/

section Index

variable {τ κ : Type} [DecidableEq τ]

/-- The keys under the tag `t`: its set, or none when it has no entry. -/
def under (idx : AList fun _ : τ => List κ) (t : τ) : List κ := (idx.lookup t).getD []

theorem under_insert (idx : AList fun _ : τ => List κ) (t t₀ : τ) (ks : List κ) :
    under (idx.insert t₀ ks) t = if t = t₀ then ks else under idx t := by
  by_cases ht : t = t₀
  · subst ht
    simp [under, AList.lookup_insert]
  · simp [under, AList.lookup_insert_ne ht, ht]

variable [DecidableEq κ]

/-- `index[t].insert(k)` for each tag `t` of `ts` (`operator[]` makes an empty
set for a tag with no entry). -/
def addUnder (k : κ) : List τ → (AList fun _ : τ => List κ) → AList fun _ : τ => List κ
  | [], idx => idx
  | t :: ts, idx => addUnder k ts (idx.insert t ((under idx t).insert k))

/-- `k` leaves the set of `t`, and the entry goes when its set is empty; a tag
with no entry is passed over. -/
def removeOne (k : κ) (t : τ) (idx : AList fun _ : τ => List κ) : AList fun _ : τ => List κ :=
  match idx.lookup t with
  | none => idx
  | some ks => if ks.erase k = [] then idx.erase t else idx.insert t (ks.erase k)

/-- `removeOne` for each tag of `ts`. -/
def removeUnder (k : κ) : List τ → (AList fun _ : τ => List κ) → AList fun _ : τ => List κ
  | [], idx => idx
  | t :: ts, idx => removeUnder k ts (removeOne k t idx)

/-- Every entry of the index is a nonempty set, a list without repeats. -/
def WellFormed (idx : AList fun _ : τ => List κ) : Prop :=
  ∀ t ks, idx.lookup t = some ks → ks ≠ [] ∧ ks.Nodup

/-- `idx` indexes the keys by their tags, `tags k` being `none` for a key that
is not in the map. -/
structure Indexes (idx : AList fun _ : τ => List κ) (tags : κ → Option (List τ)) : Prop where
  wellFormed : WellFormed idx
  mem_under : ∀ t k, k ∈ under idx t ↔ ∃ ts, tags k = some ts ∧ t ∈ ts

omit [DecidableEq κ] in
theorem WellFormed.nodup_under {idx : AList fun _ : τ => List κ} (h : WellFormed idx) (t : τ) :
    (under idx t).Nodup := by
  unfold under
  cases hks : idx.lookup t with
  | none => exact List.nodup_nil
  | some ks => exact (h t ks hks).2

theorem mem_under_addUnder (k : κ) :
    ∀ (ts : List τ) (idx : AList fun _ : τ => List κ) (t : τ) (k' : κ),
      k' ∈ under (addUnder k ts idx) t ↔ (k' = k ∧ t ∈ ts) ∨ k' ∈ under idx t
  | [], idx, t, k' => by simp [addUnder]
  | t₀ :: ts, idx, t, k' => by
    rw [addUnder, mem_under_addUnder k ts, under_insert]
    by_cases ht : t = t₀
    · subst ht
      simp only [if_true, List.mem_insert_iff, List.mem_cons, true_or, and_true]
      tauto
    · simp [ht]

theorem WellFormed.addUnder {idx : AList fun _ : τ => List κ} (k : κ) :
    ∀ ts : List τ, WellFormed idx → WellFormed (SecondaryIndex.addUnder k ts idx)
  | [], h => h
  | t₀ :: ts, h => by
    refine WellFormed.addUnder k ts ?_
    intro t ks hks
    by_cases ht : t = t₀
    · subst ht
      rw [AList.lookup_insert, Option.some.injEq] at hks
      subst hks
      exact ⟨List.ne_nil_of_mem List.mem_insert_self, (h.nodup_under t).insert⟩
    · rw [AList.lookup_insert_ne ht] at hks
      exact h t ks hks

/-- What one step of the removal does to the index. -/
theorem removeOne_cases (k : κ) (t₀ : τ) (idx : AList fun _ : τ => List κ) :
    (idx.lookup t₀ = none ∧ removeOne k t₀ idx = idx) ∨
    (∃ ks, idx.lookup t₀ = some ks ∧ ks.erase k = [] ∧ removeOne k t₀ idx = idx.erase t₀) ∨
    (∃ ks, idx.lookup t₀ = some ks ∧ ks.erase k ≠ [] ∧
      removeOne k t₀ idx = idx.insert t₀ (ks.erase k)) := by
  cases hks : idx.lookup t₀ with
  | none => exact Or.inl ⟨rfl, by simp only [removeOne, hks]⟩
  | some ks =>
    by_cases hnil : ks.erase k = []
    · exact Or.inr (Or.inl ⟨ks, rfl, hnil, by simp only [removeOne, hks, if_pos hnil]⟩)
    · exact Or.inr (Or.inr ⟨ks, rfl, hnil, by simp only [removeOne, hks, if_neg hnil]⟩)

/-- One step of the removal erases `k` from one set. -/
theorem under_removeOne (k : κ) (t₀ : τ) (idx : AList fun _ : τ => List κ) (t : τ) :
    under (removeOne k t₀ idx) t = if t = t₀ then (under idx t).erase k else under idx t := by
  rcases removeOne_cases k t₀ idx with ⟨hks, hidx⟩ | ⟨ks, hks, hnil, hidx⟩ | ⟨ks, hks, -, hidx⟩
  · rw [hidx]
    by_cases ht : t = t₀
    · subst ht
      simp [under, hks]
    · simp [ht]
  · rw [hidx]
    by_cases ht : t = t₀
    · subst ht
      simp [under, AList.lookup_erase, hks, hnil]
    · simp [under, AList.lookup_erase_ne ht, ht]
  · rw [hidx, under_insert]
    by_cases ht : t = t₀
    · subst ht
      simp [under, hks]
    · simp [ht]

theorem WellFormed.removeOne {idx : AList fun _ : τ => List κ} (h : WellFormed idx) (k : κ)
    (t₀ : τ) : WellFormed (SecondaryIndex.removeOne k t₀ idx) := by
  intro t ks hlookup
  rcases removeOne_cases k t₀ idx with ⟨-, hidx⟩ | ⟨ks₀, -, -, hidx⟩ | ⟨ks₀, hks₀, hne, hidx⟩
  · rw [hidx] at hlookup
    exact h t ks hlookup
  · rw [hidx] at hlookup
    by_cases ht : t = t₀
    · subst ht
      simp [AList.lookup_erase] at hlookup
    · rw [AList.lookup_erase_ne ht] at hlookup
      exact h t ks hlookup
  · rw [hidx] at hlookup
    by_cases ht : t = t₀
    · subst ht
      rw [AList.lookup_insert, Option.some.injEq] at hlookup
      subst hlookup
      exact ⟨hne, (h t ks₀ hks₀).2.erase k⟩
    · rw [AList.lookup_insert_ne ht] at hlookup
      exact h t ks hlookup

theorem mem_under_removeUnder (k : κ) :
    ∀ (ts : List τ) {idx : AList fun _ : τ => List κ}, WellFormed idx → ∀ (t : τ) (k' : κ),
      k' ∈ under (removeUnder k ts idx) t ↔ k' ∈ under idx t ∧ ¬(k' = k ∧ t ∈ ts)
  | [], idx, _, t, k' => by simp [removeUnder]
  | t₀ :: ts, idx, h, t, k' => by
    rw [removeUnder, mem_under_removeUnder k ts (h.removeOne k t₀), under_removeOne]
    by_cases ht : t = t₀
    · subst ht
      rw [if_pos rfl, (h.nodup_under t).mem_erase_iff]
      simp only [List.mem_cons, true_or, and_true]
      tauto
    · simp [ht]

theorem WellFormed.removeUnder {idx : AList fun _ : τ => List κ} (k : κ) :
    ∀ ts : List τ, WellFormed idx → WellFormed (SecondaryIndex.removeUnder k ts idx)
  | [], h => h
  | t₀ :: ts, h => WellFormed.removeUnder k ts (h.removeOne k t₀)

/-- A new key joins the sets of its tags. -/
theorem Indexes.add {idx : AList fun _ : τ => List κ} {tags : κ → Option (List τ)}
    (h : Indexes idx tags) {k : κ} (hk : tags k = none) (ts : List τ) :
    Indexes (addUnder k ts idx) (Function.update tags k (some ts)) := by
  refine ⟨h.wellFormed.addUnder k ts, ?_⟩
  intro t k'
  rw [mem_under_addUnder, h.mem_under]
  by_cases hk' : k' = k
  · subst hk'
    simp [hk]
  · simp [hk']

/-- A key leaves the sets of its tags. -/
theorem Indexes.remove {idx : AList fun _ : τ => List κ} {tags : κ → Option (List τ)}
    (h : Indexes idx tags) {k : κ} {ts : List τ} (hk : tags k = some ts) :
    Indexes (removeUnder k ts idx) (Function.update tags k none) := by
  refine ⟨h.wellFormed.removeUnder k ts, ?_⟩
  intro t k'
  rw [mem_under_removeUnder k ts h.wellFormed, h.mem_under]
  by_cases hk' : k' = k
  · subst hk'
    simp [hk]
  · simp [hk']

end Index

end SecondaryIndex
