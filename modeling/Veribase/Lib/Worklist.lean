import Mathlib.Data.Finset.Card
import Mathlib.Logic.Relation

/-!
# Worklist closure

A search for everything reachable from a start set along `next : α → Finset α`
keeps a frontier `W` of elements found and not yet visited, and a set `V` of
visited ones.  One turn (`visit`) takes an element of the frontier, marks it
visited and adds to the frontier those of its successors that are new.

`Inv` is what every turn keeps: the frontier and the visited set are
disjoint, hold only reachable elements, hold the start, and every visited
element has its successors among them.  From it:

* once the frontier is empty the visited set is the closure (`Inv.done`);
* while it is not, the elements found so far miss part of the closure only if
  some frontier element has a successor not yet found (`Inv.exists_exit`), so
  they hold the whole closure or some element still to visit has a successor
  (`Inv.card_le_or_exists_next`);
* the frontier and the visited set together are no larger than the closure
  (`Inv.card_add_card_le`), and a turn visits an element of the closure not
  visited before (`Inv.mem_sdiff_of_mem`), which bounds the number of turns.
-/

namespace Worklist

variable {α : Type} (next : α → Finset α)

/-- `a` is reached from `start` in zero or more steps along `next`. -/
def Reach (start : Finset α) (a : α) : Prop :=
  ∃ s ∈ start, Relation.ReflTransGen (fun x y => y ∈ next x) s a

variable {next}

theorem Reach.of_mem {start : Finset α} {a : α} (h : a ∈ start) : Reach next start a :=
  ⟨a, h, .refl⟩

theorem Reach.step {start : Finset α} {a b : α} (h : Reach next start a) (hb : b ∈ next a) :
    Reach next start b := by
  obtain ⟨s, hs, hr⟩ := h
  exact ⟨s, hs, hr.tail hb⟩

/-- A set that holds the start and is closed under `next` holds everything
reached. -/
theorem Reach.mem_of_closed {start U : Finset α} (hstart : start ⊆ U)
    (hclosed : ∀ x ∈ U, next x ⊆ U) {a : α} (h : Reach next start a) : a ∈ U := by
  obtain ⟨s, hs, hr⟩ := h
  induction hr with
  | refl => exact hstart hs
  | tail _ hbc ih => exact hclosed _ ih hbc

variable (next) [DecidableEq α]

/-- What every turn of the search keeps. -/
structure Inv (start W V : Finset α) : Prop where
  disjoint : Disjoint W V
  reach : ∀ a ∈ W ∪ V, Reach next start a
  start : start ⊆ W ∪ V
  closed : ∀ v ∈ V, next v ⊆ W ∪ V

/-- One turn: visit `s` of the frontier, and put its new successors on it. -/
def visit (W V : Finset α) (s : α) : Finset α × Finset α :=
  (W.erase s ∪ (next s).filter (· ∉ insert s V), insert s V)

variable {next}

@[simp] theorem visit_fst (W V : Finset α) (s : α) :
    (visit next W V s).1 = W.erase s ∪ (next s).filter (· ∉ insert s V) := rfl

@[simp] theorem visit_snd (W V : Finset α) (s : α) : (visit next W V s).2 = insert s V := rfl

/-- The search starts with the start set as its frontier. -/
theorem Inv.init (start : Finset α) : Inv next start start ∅ where
  disjoint := Finset.disjoint_empty_right _
  reach a ha := Reach.of_mem (by simpa using ha)
  start := by simp
  closed v hv := by simp at hv

/-- **A turn keeps the invariant.** -/
theorem Inv.visit {start W V : Finset α} {s : α} (h : Inv next start W V) (hs : s ∈ W) :
    Inv next start (Worklist.visit next W V s).1 (Worklist.visit next W V s).2 := by
  -- what was found before the turn is still found after it
  have hkeep : ∀ a ∈ W ∪ V, a ∈ (Worklist.visit next W V s).1 ∪ (Worklist.visit next W V s).2 := by
    intro a ha
    by_cases has : a = s
    · simp [Worklist.visit, has]
    · rcases Finset.mem_union.mp ha with haW | haV
      · simp [Worklist.visit, haW, has]
      · simp [Worklist.visit, haV]
  have hs_reach : Reach next start s := h.reach s (Finset.mem_union_left _ hs)
  refine ⟨?_, ?_, fun a ha => hkeep a (h.start ha), ?_⟩
  · rw [Finset.disjoint_left]
    intro a ha haV
    simp only [Worklist.visit, Finset.mem_union, Finset.mem_erase, Finset.mem_filter, Finset.mem_insert] at ha haV
    rcases ha with ⟨hne, haW⟩ | ⟨-, hnew⟩
    · rcases haV with rfl | haV
      · exact hne rfl
      · exact Finset.disjoint_left.mp h.disjoint haW haV
    · exact hnew haV
  · intro a ha
    simp only [Worklist.visit, Finset.mem_union, Finset.mem_erase, Finset.mem_filter, Finset.mem_insert] at ha
    rcases ha with (⟨-, haW⟩ | ⟨hnext, -⟩) | rfl | haV
    · exact h.reach a (Finset.mem_union_left _ haW)
    · exact hs_reach.step hnext
    · exact hs_reach
    · exact h.reach a (Finset.mem_union_right _ haV)
  · intro v hv b hb
    rcases Finset.mem_insert.mp hv with rfl | hvV
    · -- the successors of the visited element are found now, if they were not before
      by_cases hfound : b ∈ insert v V
      · simp only [Worklist.visit, Finset.mem_union]
        exact .inr hfound
      · have hnew : b ≠ v ∧ b ∉ V := by simpa using hfound
        simp [Worklist.visit, hb, hnew.1, hnew.2]
    · exact hkeep b (h.closed v hvV hb)

/-- **An empty frontier**: the visited set is the closure. -/
theorem Inv.done {start V : Finset α} (h : Inv next start ∅ V) (a : α) :
    a ∈ V ↔ Reach next start a := by
  constructor
  · intro ha
    exact h.reach a (by simp [ha])
  · intro ha
    have hstart : start ⊆ V := by simpa using h.start
    have hclosed : ∀ x ∈ V, next x ⊆ V := fun x hx => by simpa using h.closed x hx
    exact ha.mem_of_closed hstart hclosed

/-- What is reached and not yet found is behind a frontier element with a
successor not yet found. -/
theorem Inv.exists_exit {start W V : Finset α} (h : Inv next start W V) {a : α}
    (ha : Reach next start a) (hnot : a ∉ W ∪ V) : ∃ x ∈ W, ∃ y ∈ next x, y ∉ W ∪ V := by
  by_contra hno
  -- the found elements would then be closed under `next`
  have hclosed : ∀ x ∈ W ∪ V, next x ⊆ W ∪ V := by
    intro x hx y hy
    rcases Finset.mem_union.mp hx with hxW | hxV
    · by_contra hyout
      exact hno ⟨x, hxW, y, hy, hyout⟩
    · exact h.closed x hxV hy
  exact hnot (ha.mem_of_closed h.start hclosed)

section Closure

variable {start C : Finset α} (hC : ∀ a, a ∈ C ↔ Reach next start a)
include hC

/-- The frontier and the visited set are disjoint parts of the closure. -/
theorem Inv.card_add_card_le {W V : Finset α} (h : Inv next start W V) : W.card + V.card ≤ C.card := by
  rw [← Finset.card_union_of_disjoint h.disjoint]
  exact Finset.card_le_card fun a ha => (hC a).mpr (h.reach a ha)

/-- A frontier element is in the closure and not yet visited. -/
theorem Inv.mem_sdiff_of_mem {W V : Finset α} (h : Inv next start W V) {s : α} (hs : s ∈ W) :
    s ∈ C \ V :=
  Finset.mem_sdiff.mpr ⟨(hC s).mpr (h.reach s (Finset.mem_union_left _ hs)),
    Finset.disjoint_left.mp h.disjoint hs⟩

/-- What is left to visit shrinks by one at each turn. -/
theorem Inv.card_sdiff_visit {W V : Finset α} (h : Inv next start W V) {s : α} (hs : s ∈ W) :
    (C \ (Worklist.visit next W V s).2).card + 1 = (C \ V).card := by
  have hmem := h.mem_sdiff_of_mem hC hs
  have hsplit : C \ insert s V = (C \ V).erase s := by
    ext a
    simp only [Finset.mem_sdiff, Finset.mem_insert, Finset.mem_erase]
    tauto
  simp only [Worklist.visit]
  rw [hsplit, Finset.card_erase_add_one hmem]

/-- The frontier and the visited set hold the whole closure, or some element
of the closure still to visit has a successor. -/
theorem Inv.card_le_or_exists_next {W V : Finset α} (h : Inv next start W V) :
    C.card ≤ W.card + V.card ∨ ∃ a ∈ C \ V, (next a).Nonempty := by
  by_cases hsub : C ⊆ W ∪ V
  · left
    rw [← Finset.card_union_of_disjoint h.disjoint]
    exact Finset.card_le_card hsub
  · right
    obtain ⟨c, hcC, hc⟩ := Finset.not_subset.mp hsub
    obtain ⟨x, hxW, y, hy, -⟩ := h.exists_exit ((hC c).mp hcC) hc
    exact ⟨x, h.mem_sdiff_of_mem hC hxW, y, hy⟩

end Closure

end Worklist
