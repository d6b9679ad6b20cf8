import Veribase.Lib.Fault
import Veribase.Lib.Checks

/-!
# Computations that do not fault

An instrumented model of a C++ function faults wherever the source would read
or erase outside a vector; a total model of it reads a default there
instead.  The two agree, and the source makes no such access, when the
faulting computation `c : ExceptT ε Faulty α` runs without a fault and ends
as the total one `u : Except ε α` does: `Computes c u`.

The relation follows the program.  It composes with `bind`
(`Computes.bind`), with branches on one condition (`Computes.ite`) and with
folds (`Computes.foldlM`).  A check that both sides make lets the rest assume
that it passed (`Computes.guard`): that is where the bounds of a later access
come from, and an access within its bounds is a `pure` step of the faulting
side.
-/

namespace FaultFree

open Checks

variable {ε α β : Type}

/-- `c` runs without a fault and ends as `u`: with its value or its error. -/
def Computes (c : ExceptT ε Faulty α) (u : Except ε α) : Prop := c.run = .ok u

/-- A total computation, lifted, computes itself. -/
theorem computes_mk (u : Except ε α) : Computes (ExceptT.mk (.ok u)) u := rfl

theorem computes_pure (a : α) : Computes (pure a : ExceptT ε Faulty α) (pure a) := rfl

theorem computes_throw (e : ε) : Computes (throw e : ExceptT ε Faulty α) (throw e) := rfl

theorem Computes.bind {c : ExceptT ε Faulty α} {u : Except ε α} {k : α → ExceptT ε Faulty β}
    {f : α → Except ε β} (hc : Computes c u) (hk : ∀ a, Computes (k a) (f a)) :
    Computes (c >>= k) (u >>= f) := by
  unfold Computes at hc ⊢
  rw [ExceptT.run_bind, hc]
  cases u with
  | error e => rfl
  | ok a => exact hk a

theorem Computes.ite {p : Prop} [Decidable p] {c c' : ExceptT ε Faulty α} {u u' : Except ε α}
    (ht : p → Computes c u) (hf : ¬p → Computes c' u') :
    Computes (if p then c else c') (if p then u else u') := by
  by_cases hp : p
  · rw [if_pos hp, if_pos hp]
    exact ht hp
  · rw [if_neg hp, if_neg hp]
    exact hf hp

/-- The same check on both sides. -/
theorem computes_check (c : Bool) (e : ε) :
    Computes (if c then throw e else pure ()) (rejectIf c e) := by
  cases c <;> rfl

/-- A check both sides make: what follows it may assume that it passed. -/
theorem Computes.guard {c : Bool} {e : ε} {k : Unit → ExceptT ε Faulty β}
    {f : Unit → Except ε β} (hk : c = false → Computes (k ()) (f ())) :
    Computes ((if c then throw e else pure ()) >>= k) (rejectIf c e >>= f) := by
  cases c with
  | true => rfl
  | false => exact hk rfl

/-- Two folds whose steps agree on the elements folded over. -/
theorem Computes.foldlM {f : β → α → ExceptT ε Faulty β} {g : β → α → Except ε β} :
    ∀ l : List α, (∀ b, ∀ a ∈ l, Computes (f b a) (g b a)) →
      ∀ init, Computes (l.foldlM f init) (l.foldlM g init)
  | [], _, init => computes_pure init
  | a :: l, hfg, init => by
    simp only [List.foldlM_cons]
    exact (hfg init a List.mem_cons_self).bind fun b =>
      Computes.foldlM l (fun b' a' ha' => hfg b' a' (List.mem_cons_of_mem a ha')) b

end FaultFree
