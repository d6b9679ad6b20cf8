import Mathlib.Data.List.Forall2
import Mathlib.Data.List.NodupEquivFin

/-!
# Greedy order-preserving matching

Each element of a first list is to be matched with an element of a second
list it is related to, in order, no element of the second list used twice:
Mathlib's `List.SublistForall₂ R l₁ l₂`, a pointwise match of `l₁` against a
subsequence of `l₂`.

`greedyMatch` scans the second list once and gives the head of the first list
the first element it is related to.  The greedy choice is safe for every
relation: when the heads are related, taking that element loses nothing,
since any match that uses a later element for the head leaves the rest of
the first list matched further on (`sublistForall₂_cons_cons_iff_of_rel`).
Hence the scan succeeds exactly when a match exists (`greedyMatch_iff`), and
no match exists once the first list is the longer (`SublistForall₂.length_le`).
-/

namespace List

variable {α β : Type} {R : α → β → Prop}

/-- The greedy scan: the head of the first list takes the first element of the
second that `r` relates it to. -/
def greedyMatch (r : α → β → Bool) : List α → List β → Bool
  | [], _ => true
  | _ :: _, [] => false
  | a :: as, b :: bs => if r a b then greedyMatch r as bs else greedyMatch r (a :: as) bs

/-- A match of a list matches its tail. -/
theorem SublistForall₂.of_cons_left {a : α} {l₁ : List α} {l₂ : List β}
    (h : SublistForall₂ R (a :: l₁) l₂) : SublistForall₂ R l₁ l₂ := by
  induction l₂ with
  | nil => cases h
  | cons b l₂ ih =>
    cases h with
    | cons _ htail => exact .cons_right htail
    | cons_right htail => exact .cons_right (ih htail)

/-- A match takes no more elements than the second list has. -/
theorem SublistForall₂.length_le {l₁ : List α} {l₂ : List β} (h : SublistForall₂ R l₁ l₂) :
    l₁.length ≤ l₂.length := by
  induction h with
  | nil => exact Nat.zero_le _
  | cons _ _ ih => simpa using ih
  | cons_right _ ih =>
    simp only [length_cons]
    omega

/-- Related heads: the greedy choice of the head loses nothing. -/
theorem sublistForall₂_cons_cons_iff_of_rel {a : α} {b : β} {l₁ : List α} {l₂ : List β} (hab : R a b) :
    SublistForall₂ R (a :: l₁) (b :: l₂) ↔ SublistForall₂ R l₁ l₂ := by
  constructor
  · intro h
    cases h with
    | cons _ htail => exact htail
    -- the head matched further on: the rest of the list is matched there too
    | cons_right htail => exact htail.of_cons_left
  · intro h
    exact .cons hab h

/-- Unrelated heads: the head of the second list is of no use. -/
theorem sublistForall₂_cons_cons_iff_of_not_rel {a : α} {b : β} {l₁ : List α} {l₂ : List β}
    (hab : ¬R a b) : SublistForall₂ R (a :: l₁) (b :: l₂) ↔ SublistForall₂ R (a :: l₁) l₂ := by
  constructor
  · intro h
    cases h with
    | cons hr _ => exact absurd hr hab
    | cons_right htail => exact htail
  · intro h
    exact .cons_right h

/-- **The greedy scan decides order-preserving matching**, for every
relation. -/
theorem greedyMatch_iff (r : α → β → Bool) :
    ∀ (l₁ : List α) (l₂ : List β), greedyMatch r l₁ l₂ = true ↔ SublistForall₂ (fun a b => r a b = true) l₁ l₂
  | [], l₂ => by simp [greedyMatch, SublistForall₂.nil]
  | a :: l₁, [] => by
    simp only [greedyMatch, Bool.false_eq_true, false_iff]
    intro h
    cases h
  | a :: l₁, b :: l₂ => by
    unfold greedyMatch
    by_cases hab : r a b = true
    · rw [if_pos hab, sublistForall₂_cons_cons_iff_of_rel (R := fun a b => r a b = true) hab]
      exact greedyMatch_iff r l₁ l₂
    · rw [if_neg hab, sublistForall₂_cons_cons_iff_of_not_rel (R := fun a b => r a b = true) hab]
      exact greedyMatch_iff r (a :: l₁) l₂

/-- The scan fails once the first list is the longer. -/
theorem greedyMatch_of_length_lt (r : α → β → Bool) {l₁ : List α} {l₂ : List β}
    (h : l₂.length < l₁.length) : greedyMatch r l₁ l₂ = false := by
  rw [← Bool.not_eq_true, greedyMatch_iff]
  intro hm
  have := hm.length_le
  omega

instance decidableSublistForall₂ (r : α → β → Bool) (l₁ : List α) (l₂ : List β) :
    Decidable (SublistForall₂ (fun a b => r a b = true) l₁ l₂) :=
  decidable_of_iff _ (greedyMatch_iff r l₁ l₂)

/-- Matching is the same read from either end. -/
theorem sublistForall₂_reverse_iff {l₁ : List α} {l₂ : List β} :
    SublistForall₂ R l₁.reverse l₂.reverse ↔ SublistForall₂ R l₁ l₂ := by
  rw [sublistForall₂_iff, sublistForall₂_iff]
  constructor
  · rintro ⟨l, hl, hsub⟩
    refine ⟨l.reverse, ?_, ?_⟩
    · rw [← forall₂_reverse_iff, reverse_reverse]
      exact hl
    · rw [← reverse_sublist, reverse_reverse]
      exact hsub
  · rintro ⟨l, hl, hsub⟩
    exact ⟨l.reverse, forall₂_reverse_iff.mpr hl, reverse_sublist.mpr hsub⟩

/-- A match is a strictly increasing choice of positions in the second list,
each related to the element of the first list at its own position. -/
theorem sublistForall₂_iff_exists_strictMono {l₁ : List α} {l₂ : List β} :
    SublistForall₂ R l₁ l₂ ↔
      ∃ f : Fin l₁.length → Fin l₂.length, StrictMono f ∧ ∀ i, R (l₁.get i) (l₂.get (f i)) := by
  rw [sublistForall₂_iff]
  constructor
  · rintro ⟨l, hl, hsub⟩
    obtain ⟨hlen, hrel⟩ := forall₂_iff_get.mp hl
    obtain ⟨g, hg⟩ := sublist_iff_exists_fin_orderEmbedding_get_eq.mp hsub
    -- positions of the first list are positions of the matched sublist
    let f : Fin l₁.length ↪o Fin l₂.length := (Fin.castOrderIso hlen).toOrderEmbedding.trans g
    refine ⟨f, f.strictMono, fun i => ?_⟩
    have hfi : l₂.get (f i) = l.get (Fin.cast hlen i) := (hg _).symm
    rw [hfi]
    exact hrel i i.2 _
  · rintro ⟨f, hf, hrel⟩
    -- the matched sublist is the second list read at the chosen positions
    refine ⟨ofFn fun i => l₂.get (f i), forall₂_iff_get.mpr ⟨by simp, fun i h₁ _ => ?_⟩, ?_⟩
    · simpa using hrel ⟨i, h₁⟩
    · rw [sublist_iff_exists_fin_orderEmbedding_get_eq]
      refine ⟨(Fin.castOrderIso length_ofFn).toOrderEmbedding.trans (OrderEmbedding.ofStrictMono f hf),
        fun i => ?_⟩
      simp
      rfl

end List
