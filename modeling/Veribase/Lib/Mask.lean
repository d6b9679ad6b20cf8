import Mathlib

/-!
# Masks over a list

A vector of booleans as long as a list marks some of its elements: the
selection that a search builds while it decides, element by element, to take
or to leave each one.  `maskSelect m l` is what the mask takes, in order.

What a search needs of it: the selection is a sublist (`maskSelect_sublist`),
and every sublist is the selection of a mask (`exists_maskSelect_eq`); the
mask of all `true` takes everything and the mask of all `false` nothing;
setting one entry adds its element to every sum over the selection and
clearing one takes it out (`sum_maskSelect_set_true`,
`sum_maskSelect_set_false`); and a mask decided up to some place takes from
the rest of the list only what its rest says (`maskSelect_append`).

A depth-first search over masks that tries `true` before `false` is described
by `Before p m`: with `p` the entries decided so far, the mask `m` was
visited already.  Growing the prefix and backtracking move masks from "below
`p`" to "before `p`" and lose none (`before_backtrack`).  A search that skips
an element interchangeable with the one before it, when that one was left,
visits only *canonical* masks, and every mask has a canonical one with the
same sum (`exists_canonical`).
-/

namespace Mask

variable {α : Type*}

/-- The elements of `l` whose entry in `m` is `true`, in order. -/
def maskSelect : List Bool → List α → List α
  | b :: bs, a :: as => if b then a :: maskSelect bs as else maskSelect bs as
  | _, _ => []

@[simp] theorem maskSelect_nil_left (l : List α) : maskSelect [] l = [] := rfl

@[simp] theorem maskSelect_nil_right (m : List Bool) : maskSelect m ([] : List α) = [] := by
  cases m <;> rfl

@[simp] theorem maskSelect_cons_cons (b : Bool) (bs : List Bool) (a : α) (as : List α) :
    maskSelect (b :: bs) (a :: as) = if b then a :: maskSelect bs as else maskSelect bs as := rfl

theorem maskSelect_sublist : ∀ (m : List Bool) (l : List α), (maskSelect m l).Sublist l
  | [], l => List.nil_sublist l
  | _ :: _, [] => List.Sublist.slnil
  | b :: bs, a :: as => by
    cases b with
    | false => exact (maskSelect_sublist bs as).cons a
    | true => exact (maskSelect_sublist bs as).cons_cons a

theorem maskSelect_replicate_true : ∀ l : List α, maskSelect (List.replicate l.length true) l = l
  | [] => rfl
  | a :: as => by
    rw [List.length_cons, List.replicate_succ, maskSelect_cons_cons, if_pos rfl,
      maskSelect_replicate_true as]

theorem maskSelect_replicate_false : ∀ (n : Nat) (l : List α),
    maskSelect (List.replicate n false) l = []
  | 0, _ => rfl
  | _ + 1, [] => rfl
  | n + 1, _ :: as => by
    rw [List.replicate_succ, maskSelect_cons_cons, if_neg Bool.false_ne_true,
      maskSelect_replicate_false n as]

/-- What a mask decided up to some place takes: what its prefix takes, then
what its rest takes from the rest of the list. -/
theorem maskSelect_append : ∀ (p r : List Bool) (l : List α),
    maskSelect (p ++ r) l = maskSelect p l ++ maskSelect r (l.drop p.length)
  | [], _, _ => rfl
  | _ :: _, _, [] => by simp
  | b :: p, r, a :: as => by
    rw [List.cons_append, maskSelect_cons_cons, maskSelect_cons_cons, maskSelect_append p r as]
    cases b <;> simp

/-- Deciding one more entry takes the next element or nothing. -/
theorem maskSelect_snoc (p : List Bool) (b : Bool) (l : List α) (h : p.length < l.length) :
    maskSelect (p ++ [b]) l = maskSelect p l ++ if b then [l[p.length]] else [] := by
  rw [maskSelect_append, List.drop_eq_getElem_cons h, maskSelect_cons_cons, maskSelect_nil_left]

/-- Padding a mask with `false` takes nothing more. -/
@[simp] theorem maskSelect_append_replicate_false (p : List Bool) (k : Nat) (l : List α) :
    maskSelect (p ++ List.replicate k false) l = maskSelect p l := by
  rw [maskSelect_append, maskSelect_replicate_false, List.append_nil]

/-- Every sublist is what some mask takes. -/
theorem exists_maskSelect_eq {l' l : List α} (h : l'.Sublist l) :
    ∃ m : List Bool, m.length = l.length ∧ maskSelect m l = l' := by
  induction h with
  | slnil => exact ⟨[], rfl, rfl⟩
  | cons a _ ih =>
    obtain ⟨m, hlen, hm⟩ := ih
    exact ⟨false :: m, by simp [hlen], by simp [hm]⟩
  | cons_cons a _ ih =>
    obtain ⟨m, hlen, hm⟩ := ih
    exact ⟨true :: m, by simp [hlen], by simp [hm]⟩

section Sum

variable {M : Type*} [AddCommMonoid M] (f : α → M)

/-- **Setting one entry.**  An entry that was `false` and is set adds its
element to every sum over the selection. -/
theorem sum_maskSelect_set_true : ∀ (m : List Bool) (l : List α) (i : Nat) (hm : i < m.length)
    (hl : i < l.length), m[i] = false →
    ((maskSelect (m.set i true) l).map f).sum = ((maskSelect m l).map f).sum + f l[i]
  | b :: bs, a :: as, 0, _, _, hb => by
    simp only [List.getElem_cons_zero] at hb
    subst hb
    simp [add_comm]
  | b :: bs, a :: as, i + 1, hm, hl, hb => by
    have ih := sum_maskSelect_set_true bs as i (by simpa using hm) (by simpa using hl)
      (by simpa using hb)
    cases b <;> simp [ih, add_assoc]

/-- Clearing an entry that was `true` takes its element out of every sum over
the selection. -/
theorem sum_maskSelect_set_false (m : List Bool) (l : List α) (i : Nat) (hm : i < m.length)
    (hl : i < l.length) (htrue : m[i] = true) :
    ((maskSelect m l).map f).sum = ((maskSelect (m.set i false) l).map f).sum + f l[i] := by
  have hback : (m.set i false).set i true = m := by
    rw [List.set_set, ← htrue, List.set_getElem_self]
  have h := sum_maskSelect_set_true f (m.set i false) l i (by simpa using hm) hl (by simp)
  rwa [hback] at h

end Sum

/-! ## Depth-first order -/

/-- The mask `m` is left of every mask that the prefix `p` begins: at the first
entry where they differ, `p` has `false` and `m` has `true`.  A search that
tries `true` first has visited `m` before it reached `p`. -/
def Before : List Bool → List Bool → Prop
  | b :: p, c :: m => (b = false ∧ c = true) ∨ (b = c ∧ Before p m)
  | _, _ => False

theorem Before.append : ∀ {p m : List Bool}, Before p m → ∀ r, Before (p ++ r) m
  | _ :: _, _ :: _, .inl h, _ => .inl h
  | _ :: _, _ :: _, .inr ⟨hbc, h⟩, r => .inr ⟨hbc, h.append r⟩

/-- Taking the next element visits nothing new. -/
theorem before_append_true : ∀ (p m : List Bool), Before (p ++ [true]) m ↔ Before p m
  | [], [] => Iff.rfl
  | [], _ :: _ => by simp [Before]
  | _ :: _, [] => Iff.rfl
  | b :: p, c :: m => by simp only [List.cons_append, Before, before_append_true p m]

/-- Leaving the next element has visited every mask that takes it. -/
theorem before_append_false : ∀ (p m : List Bool),
    Before (p ++ [false]) m ↔ Before p m ∨ p ++ [true] <+: m
  | [], [] => by simp [Before]
  | [], c :: m => by cases c <;> simp [Before]
  | _ :: _, [] => by simp [Before]
  | b :: p, c :: m => by
    simp only [List.cons_append, Before, before_append_false p m, List.cons_prefix_cons]
    tauto

/-- Below a prefix `r` of `m`, a run of `false` is either followed by `m` or
left by `m`. -/
theorem before_or_prefix_append_replicate_false {r m : List Bool} (hr : r <+: m) :
    ∀ k, r.length + k ≤ m.length →
      Before (r ++ List.replicate k false) m ∨ r ++ List.replicate k false <+: m
  | 0, _ => .inr (by simpa using hr)
  | k + 1, hk => by
    rw [List.replicate_succ', ← List.append_assoc, before_append_false]
    rcases before_or_prefix_append_replicate_false hr k (by omega) with h | h
    · exact .inl (.inl h)
    · -- `m` goes on past the run: with `false`, or it leaves it with `true`
      obtain ⟨t, rfl⟩ := h
      cases t with
      | nil =>
        simp only [List.append_nil, List.length_append, List.length_replicate] at hk
        omega
      | cons c t =>
        cases c
        · exact .inr ⟨t, by simp⟩
        · exact .inl (.inr ⟨t, by simp⟩)

/-- **The end of the search.**  Every mask is left of a run of `false` or
below it. -/
theorem before_or_prefix_replicate_false {m : List Bool} {k : Nat} (hk : k ≤ m.length) :
    Before (List.replicate k false) m ∨ List.replicate k false <+: m := by
  simpa using before_or_prefix_append_replicate_false (List.nil_prefix (l := m)) k (by simpa using hk)

/-- **Backtracking.**  Leaving `q ++ [true] ++ replicate k false` for
`q ++ [false]`: every mask left of the new prefix was left of the old one or
below it. -/
theorem before_backtrack {q m : List Bool} {k : Nat} (hk : q.length + 1 + k ≤ m.length)
    (h : Before (q ++ [false]) m) :
    Before (q ++ [true] ++ List.replicate k false) m ∨
      q ++ [true] ++ List.replicate k false <+: m := by
  rcases (before_append_false q m).mp h with h | h
  · exact .inl (((before_append_true q m).mpr h).append _)
  · exact before_or_prefix_append_replicate_false h k (by simpa using hk)

/-! ## Interchangeable neighbours -/

section Interchange

variable (E : α → α → Prop)

/-- No element is taken right after an element `E`-interchangeable with it
that is left. -/
def Canonical (l : List α) (m : List Bool) : Prop :=
  ∀ k (hm : k + 1 < m.length) (hl : k + 1 < l.length), E l[k] l[k + 1] → m[k] = false →
    m[k + 1] = false

/-- The sum of the places a mask takes; moving a taken entry one place down
lowers it. -/
def weight (m : List Bool) : Nat := (maskSelect m (List.range m.length)).sum

theorem weight_set_true (m : List Bool) (i : Nat) (hm : i < m.length) (hfalse : m[i] = false) :
    weight (m.set i true) = weight m + i := by
  have h := sum_maskSelect_set_true id m (List.range m.length) i hm (by simpa using hm) hfalse
  simpa [weight] using h

theorem weight_set_false (m : List Bool) (i : Nat) (hm : i < m.length) (htrue : m[i] = true) :
    weight m = weight (m.set i false) + i := by
  have h := sum_maskSelect_set_false id m (List.range m.length) i hm (by simpa using hm) htrue
  simpa [weight] using h

variable {M : Type*} [AddCommMonoid M] {E} (f : α → M)

/-- **Canonical masks.**  When `f` agrees on interchangeable elements, every
mask has a canonical mask of the same length with the same sum: move each
taken element down past the interchangeable ones that are left. -/
theorem exists_canonical (hf : ∀ a b, E a b → f a = f b) (l : List α) (m : List Bool)
    (hlen : m.length = l.length) :
    ∃ m', m'.length = l.length ∧ Canonical E l m' ∧
      ((maskSelect m' l).map f).sum = ((maskSelect m l).map f).sum := by
  induction hw : weight m using Nat.strongRecOn generalizing m with
  | ind w ih =>
  by_cases hcan : Canonical E l m
  · exact ⟨m, hlen, hcan, rfl⟩
  simp only [Canonical, not_forall, Bool.not_eq_false] at hcan
  obtain ⟨k, hm, hl, hE, hk, hk1⟩ := hcan
  -- take element `k` in place of element `k + 1`
  have hm₁ : k < (m.set (k + 1) false).length := by simp; omega
  have hk₁ : (m.set (k + 1) false)[k] = false := by
    rw [List.getElem_set_ne (by omega)]; exact hk
  have hsum := sum_maskSelect_set_true f (m.set (k + 1) false) l k hm₁ (by omega) hk₁
  have hsum' := sum_maskSelect_set_false f m l (k + 1) hm hl hk1
  have hweight := weight_set_true (m.set (k + 1) false) k hm₁ hk₁
  have hweight' := weight_set_false m (k + 1) hm hk1
  obtain ⟨m', hlen', hcan', hsum''⟩ := ih (weight ((m.set (k + 1) false).set k true)) (by omega)
    ((m.set (k + 1) false).set k true) (by simpa using hlen) rfl
  refine ⟨m', hlen', hcan', ?_⟩
  rw [hsum'', hsum, hsum', hf _ _ hE]

end Interchange

end Mask
