import Veribase.Script.Eval
import Veribase.Lib.Fault

/-!
# The condition stack

`EvalScript` keeps one boolean per open `OP_IF`, and `Script.Eval` models it
as the vector `vfExec`.  The source does not build that vector:
`ConditionStack` stores its size and the position of its first `false`
(`NO_FALSE` when there is none), which is all `empty()` and `all_true()` read.
`toggle_top` moves that position only when the top is, or becomes, the first
`false`; toggling a value above the first `false` cannot be observed.

`Refines c v` says that `c` stores the size of `v` and the position of its
first `false` (`firstFalsePos`).  Everything the three operations do to that
position is read off `firstFalsePos_concat`, the first `false` of a vector
with its top split off.  Each operation keeps `Refines` (`pushBack_refines`,
`popBack_refines`, `toggleTop_refines`), given room below `NO_FALSE` for a
push and a nonempty vector for the other two, so a whole run keeps it
(`run_refines`), and `empty` answers for the vector (`Refines.empty_eq`).
-/

namespace Veribase

/-- `ConditionStack`. -/
structure ConditionStack where
  /-- The size of the implied stack. -/
  m_stack_size : UInt32
  /-- The position of the first false value on the implied stack, or `NO_FALSE`. -/
  m_first_false_pos : UInt32
deriving DecidableEq, Repr

namespace ConditionStack

/-- `NO_FALSE`, `std::numeric_limits<uint32_t>::max()`. -/
def NO_FALSE : UInt32 := 0xFFFFFFFF

/-- A fresh stack, as the members' initialisers leave it. -/
def init : ConditionStack := ⟨0, NO_FALSE⟩

/-- `empty()`. -/
def empty (c : ConditionStack) : Bool := c.m_stack_size == 0

/-- `all_true()`. -/
def allTrue (c : ConditionStack) : Bool := c.m_first_false_pos == NO_FALSE

/-- `push_back(f)`. -/
def pushBack (c : ConditionStack) (f : Bool) : ConditionStack :=
  { m_stack_size := c.m_stack_size + 1
    m_first_false_pos :=
      if c.m_first_false_pos == NO_FALSE && !f then c.m_stack_size else c.m_first_false_pos }

/-- `pop_back()`. -/
def popBack (c : ConditionStack) : Faulty ConditionStack := do
  Fault.check (c.m_stack_size > 0)
  let m_stack_size := c.m_stack_size - 1
  pure { m_stack_size
         m_first_false_pos :=
           if c.m_first_false_pos == m_stack_size then NO_FALSE else c.m_first_false_pos }

/-- `toggle_top()`. -/
def toggleTop (c : ConditionStack) : Faulty ConditionStack := do
  Fault.check (c.m_stack_size > 0)
  if c.m_first_false_pos == NO_FALSE then
    pure { c with m_first_false_pos := c.m_stack_size - 1 }
  else if c.m_first_false_pos == c.m_stack_size - 1 then
    pure { c with m_first_false_pos := NO_FALSE }
  else pure c

/-- The calls `EvalScript` makes on its condition stack. -/
inductive Op
  | pushBack (f : Bool)
  | popBack
  | toggleTop
deriving DecidableEq, Repr

def Op.isPush : Op → Bool
  | .pushBack _ => true
  | _ => false

def exec (c : ConditionStack) : Op → Faulty ConditionStack
  | .pushBack f => pure (c.pushBack f)
  | .popBack => c.popBack
  | .toggleTop => c.toggleTop

def run (c : ConditionStack) : List Op → Faulty ConditionStack
  | [] => pure c
  | op :: ops => do run (← c.exec op) ops

/-! ## The vector it stands for -/

/-- The same call on `vector<bool>`, as `Script.Eval` keeps `vfExec`:
`toggle_top` negates the last element. -/
def applyOp (v : List Bool) : Op → List Bool
  | .pushBack f => v ++ [f]
  | .popBack => v.dropLast
  | .toggleTop => Veribase.toggleTop v

def applyOps (v : List Bool) (ops : List Op) : List Bool := ops.foldl applyOp v

/-- `pop_back` and `toggle_top` only on a nonempty vector, as `OP_ELSE` and
`OP_ENDIF` check before they call them. -/
def guarded : List Bool → List Op → Bool
  | _, [] => true
  | v, op :: ops => (op.isPush || !v.isEmpty) && guarded (applyOp v op) ops

/-- The position of the first `false` of `v`, `NO_FALSE` when there is none. -/
def firstFalsePos (v : List Bool) : Nat := if false ∈ v then v.idxOf false else NO_FALSE.toNat

/-- `c` is the compact form of `v`. -/
structure Refines (c : ConditionStack) (v : List Bool) : Prop where
  size : c.m_stack_size.toNat = v.length
  firstFalse : c.m_first_false_pos.toNat = firstFalsePos v

theorem toggleTop_concat (w : List Bool) (b : Bool) : Veribase.toggleTop (w ++ [b]) = w ++ [!b] := by
  simp [Veribase.toggleTop]

theorem firstFalsePos_lt {w : List Bool} (h : false ∈ w) : firstFalsePos w < w.length := by
  rw [firstFalsePos, if_pos h]
  exact List.idxOf_lt_length_of_mem h

/-- The first `false` of a vector with its top `b` split off: below the top
when there is one there, else the top when it is `false`. -/
theorem firstFalsePos_concat (w : List Bool) (b : Bool) :
    firstFalsePos (w ++ [b]) =
      if false ∈ w then firstFalsePos w else if b then NO_FALSE.toNat else w.length := by
  by_cases hw : false ∈ w
  · simp [firstFalsePos, hw, List.idxOf_append_of_mem hw]
  · cases b
    · simp [firstFalsePos, hw, List.idxOf_append_of_notMem hw]
    · simp [firstFalsePos, hw]

/-! ## Each operation keeps the refinement -/

section Steps

variable {c : ConditionStack} {v : List Bool}

@[simp] theorem toNat_NO_FALSE : NO_FALSE.toNat = 4294967295 := rfl

theorem beq_eq_decide_toNat (a b : UInt32) : (a == b) = decide (a.toNat = b.toNat) := by
  rw [Bool.eq_iff_iff, beq_iff_eq, decide_eq_true_iff, UInt32.toNat_inj]

theorem Refines.length_le (h : Refines c v) : v.length ≤ NO_FALSE.toNat := by
  have := c.m_stack_size.toNat_lt
  rw [h.size] at this
  exact Nat.le_of_lt_succ this

/-- The stored position is `NO_FALSE` exactly when the vector holds no `false`:
a `false` sits below the size, which is at most `NO_FALSE`. -/
theorem Refines.noFalse_iff (h : Refines c v) : c.m_first_false_pos = NO_FALSE ↔ false ∉ v := by
  rw [← UInt32.toNat_inj, h.firstFalse]
  by_cases hv : false ∈ v
  · have := firstFalsePos_lt hv
    have := h.length_le
    simp only [hv, not_true_eq_false, iff_false]
    omega
  · simp [firstFalsePos, hv]

theorem Refines.empty_eq (h : Refines c v) : c.empty = v.isEmpty := by
  rw [empty, beq_eq_decide_toNat, h.size]
  cases v <;> simp

theorem pushBack_refines (h : Refines c v) (hroom : v.length < NO_FALSE.toNat) (f : Bool) :
    Refines (c.pushBack f) (v ++ [f]) := by
  have hsize : (c.m_stack_size + 1).toNat = v.length + 1 := by
    rw [UInt32.toNat_add, h.size]
    simp only [UInt32.toNat_one]
    exact Nat.mod_eq_of_lt (by simp [NO_FALSE] at hroom; omega)
  refine ⟨by simpa [pushBack] using hsize, ?_⟩
  rw [firstFalsePos_concat, pushBack]
  by_cases hv : false ∈ v
  · have hpos : ¬ c.m_first_false_pos = NO_FALSE := fun hno => (h.noFalse_iff.mp hno) hv
    simp [hv, hpos, h.firstFalse]
  · have hpos : c.m_first_false_pos = NO_FALSE := h.noFalse_iff.mpr hv
    cases f
    · simp [hv, hpos, h.size]
    · simp [hv, h.firstFalse, firstFalsePos]

/-- The size of a nonempty vector leaves the assert of `pop_back` and
`toggle_top` passing, and its top at one below. -/
theorem Refines.top {w : List Bool} {b : Bool} (h : Refines c (w ++ [b])) :
    c.m_stack_size > 0 ∧ (c.m_stack_size - 1).toNat = w.length := by
  have hpos : 0 < c.m_stack_size.toNat := by
    rw [h.size]
    simp
  have hone : (1 : UInt32) ≤ c.m_stack_size := UInt32.le_iff_toNat_le.mpr hpos
  refine ⟨UInt32.lt_iff_toNat_lt.mpr hpos, ?_⟩
  rw [UInt32.toNat_sub_of_le _ _ hone, h.size]
  simp

theorem popBack_eq (hpos : c.m_stack_size > 0) :
    c.popBack = .ok ⟨c.m_stack_size - 1,
      if c.m_first_false_pos == c.m_stack_size - 1 then NO_FALSE else c.m_first_false_pos⟩ := by
  simp [popBack, hpos]

theorem toggleTop_eq (hpos : c.m_stack_size > 0) :
    c.toggleTop = .ok
      (if c.m_first_false_pos == NO_FALSE then { c with m_first_false_pos := c.m_stack_size - 1 }
      else if c.m_first_false_pos == c.m_stack_size - 1 then { c with m_first_false_pos := NO_FALSE }
      else c) := by
  simp only [toggleTop, hpos, decide_true, Fault.check_true, Fault.ok_bind]
  split_ifs <;> rfl

theorem popBack_refines (h : Refines c v) (hv : v ≠ []) :
    ∃ c', c.popBack = .ok c' ∧ Refines c' v.dropLast := by
  rcases List.eq_nil_or_concat v with rfl | ⟨w, b, rfl⟩
  · exact absurd rfl hv
  rw [List.concat_eq_append, List.dropLast_concat] at *
  have hlen := h.length_le
  obtain ⟨hpos, hsize⟩ := h.top
  refine ⟨_, popBack_eq hpos, hsize, ?_⟩
  have hff := h.firstFalse
  rw [firstFalsePos_concat] at hff
  simp only [beq_iff_eq]
  by_cases hw : false ∈ w
  · -- the first `false` stays below the new size
    have hlt := firstFalsePos_lt hw
    rw [if_pos hw] at hff
    have hne : ¬ c.m_first_false_pos = c.m_stack_size - 1 := by
      rw [← UInt32.toNat_inj, hff, hsize]
      omega
    rw [if_neg hne, hff]
  · rw [if_neg hw] at hff
    have hnone : firstFalsePos w = NO_FALSE.toNat := by simp [firstFalsePos, hw]
    cases b
    · -- the popped top was the first `false`
      have heq : c.m_first_false_pos = c.m_stack_size - 1 := by
        rw [← UInt32.toNat_inj, hff, hsize]
        rfl
      rw [if_pos heq, hnone]
    · -- all true, and the new size stays below `NO_FALSE`
      simp only [List.length_append, List.length_singleton, toNat_NO_FALSE] at hlen
      have hne : ¬ c.m_first_false_pos = c.m_stack_size - 1 := by
        rw [← UInt32.toNat_inj, hff, hsize]
        simp only [if_true, toNat_NO_FALSE]
        omega
      rw [if_neg hne, hff, hnone]
      rfl

theorem toggleTop_refines (h : Refines c v) (hv : v ≠ []) :
    ∃ c', c.toggleTop = .ok c' ∧ Refines c' (Veribase.toggleTop v) := by
  rcases List.eq_nil_or_concat v with rfl | ⟨w, b, rfl⟩
  · exact absurd rfl hv
  rw [List.concat_eq_append] at *
  rw [toggleTop_concat]
  have hlen := h.length_le
  obtain ⟨hpos, htop⟩ := h.top
  refine ⟨_, toggleTop_eq hpos, ?_⟩
  have hsize : c.m_stack_size.toNat = (w ++ [!b]).length := by simp [h.size]
  have hff := h.firstFalse
  rw [firstFalsePos_concat] at hff
  simp only [List.length_append, List.length_singleton, toNat_NO_FALSE] at hlen
  by_cases hw : false ∈ w
  · -- a `false` below the top: toggling the top is not observed
    have := firstFalsePos_lt hw
    rw [if_pos hw] at hff
    have hno : ¬ c.m_first_false_pos = NO_FALSE := by
      rw [← UInt32.toNat_inj, hff, toNat_NO_FALSE]
      omega
    have hne : ¬ c.m_first_false_pos = c.m_stack_size - 1 := by
      rw [← UInt32.toNat_inj, hff, htop]
      omega
    simp only [beq_iff_eq]
    rw [if_neg hno, if_neg hne]
    refine ⟨hsize, ?_⟩
    rw [firstFalsePos_concat, if_pos hw, hff]
  · rw [if_neg hw] at hff
    cases b
    · -- the top was the first `false`: now there is none
      have hno : ¬ c.m_first_false_pos = NO_FALSE := by
        rw [← UInt32.toNat_inj, hff, toNat_NO_FALSE]
        simp only [Bool.false_eq_true, if_false]
        omega
      have htopeq : c.m_first_false_pos = c.m_stack_size - 1 := by
        rw [← UInt32.toNat_inj, hff, htop]
        rfl
      simp only [beq_iff_eq]
      rw [if_neg hno, if_pos htopeq]
      exact ⟨hsize, by simp [firstFalsePos_concat, hw]⟩
    · -- all true: the toggled top becomes the first `false`
      have hno : c.m_first_false_pos = NO_FALSE := by
        rw [← UInt32.toNat_inj, hff]
        rfl
      simp only [beq_iff_eq]
      rw [if_pos hno]
      exact ⟨hsize, by simp [firstFalsePos_concat, hw, htop]⟩

end Steps

/-! ## Runs -/

theorem exec_refines {c : ConditionStack} {v : List Bool} (h : Refines c v) (op : Op)
    (hguard : (op.isPush || !v.isEmpty) = true) (hroom : op.isPush = true → v.length < NO_FALSE.toNat) :
    ∃ c', c.exec op = .ok c' ∧ Refines c' (applyOp v op) := by
  cases op with
  | pushBack f => exact ⟨_, rfl, pushBack_refines h (hroom rfl) f⟩
  | popBack =>
    have hv : v ≠ [] := by simpa [Op.isPush] using hguard
    exact popBack_refines h hv
  | toggleTop =>
    have hv : v ≠ [] := by simpa [Op.isPush] using hguard
    exact toggleTop_refines h hv

theorem length_applyOp_le (v : List Bool) (op : Op) :
    (applyOp v op).length ≤ v.length + (if op.isPush then 1 else 0) := by
  cases op with
  | pushBack f => simp [applyOp, Op.isPush]
  | popBack => simp [applyOp, Op.isPush]
  | toggleTop =>
    rcases List.eq_nil_or_concat v with rfl | ⟨w, b, rfl⟩
    · simp [applyOp, Veribase.toggleTop, Op.isPush]
    · simp [applyOp, toggleTop_concat, Op.isPush]

/-- **A run of guarded calls keeps the refinement**, as long as the pushes
leave room below `NO_FALSE`.  The induction is on the calls; the room left is
what the remaining pushes may use. -/
theorem run_refines : ∀ (ops : List Op) {c : ConditionStack} {v : List Bool}, Refines c v →
    guarded v ops = true → v.length + ops.countP Op.isPush ≤ NO_FALSE.toNat →
    ∃ c', c.run ops = .ok c' ∧ Refines c' (applyOps v ops)
  | [], c, v, h, _, _ => ⟨c, rfl, h⟩
  | op :: ops, c, v, h, hguard, hroom => by
    rw [guarded, Bool.and_eq_true] at hguard
    rw [List.countP_cons] at hroom
    have hlen := length_applyOp_le v op
    obtain ⟨c₁, hexec, h₁⟩ := exec_refines h op hguard.1 fun hop => by
      simp only [hop, if_true] at hroom
      omega
    obtain ⟨c', hrun, h'⟩ := run_refines ops h₁ hguard.2 (by omega)
    exact ⟨c', by simp [run, hexec, hrun], h'⟩

theorem init_refines : Refines init [] := ⟨rfl, by simp [firstFalsePos, init]⟩

theorem conditionStack_refines_vector (ops : List Op) (hguard : guarded [] ops = true)
    (hpush : ops.countP Op.isPush < 2 ^ 32 - 1) :
    ∃ c, init.run ops = .ok c ∧ (c.empty = true ↔ applyOps [] ops = []) ∧
      (c.allTrue = true ↔ false ∉ applyOps [] ops) := by
  have hroom : ([] : List Bool).length + ops.countP Op.isPush ≤ NO_FALSE.toNat := by
    rw [List.length_nil, Nat.zero_add, toNat_NO_FALSE]
    omega
  obtain ⟨c, hrun, h⟩ := run_refines ops init_refines hguard hroom
  refine ⟨c, hrun, ?_, ?_⟩
  · rw [h.empty_eq, List.isEmpty_iff]
  · rw [allTrue, beq_iff_eq, h.noFalse_iff]

/-- `OP_IF` taken, `OP_NOTIF` not taken, its `OP_ELSE`, its `OP_ENDIF`. -/
def nestedIfOps : List Op := [.pushBack true, .pushBack false, .toggleTop, .popBack]

theorem conditionStack_refines_nestedIf :
    guarded [] nestedIfOps = true ∧ nestedIfOps.countP Op.isPush < 2 ^ 32 - 1 ∧
      ∃ c, init.run nestedIfOps = .ok c ∧ (c.empty = true ↔ applyOps [] nestedIfOps = []) ∧
        (c.allTrue = true ↔ false ∉ applyOps [] nestedIfOps) :=
  ⟨by decide, by decide, conditionStack_refines_vector nestedIfOps (by decide) (by decide)⟩

end ConditionStack

end Veribase
