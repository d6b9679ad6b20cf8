import Mathlib

/-!
# Sequences of checks

A validation function that runs its checks in order and stops at the first
that fails is a chain of `Except ε Unit` computations.  `rejectIf c e` fails
with `e` when `c` holds.  The lemmas turn the success of a chain into the
success of each link (`bind_unit_eq_ok`, `forM_eq_ok`), so that a caller can
read off every fact a passed validation guarantees without unfolding it.

A check that runs inside another monad (one that may also stop in its own
way, or that carries state) is `rejectIfT`, in `ExceptT ε m`.

What every successful run of a chain guarantees is `Ensures u Q`.  It
follows the chain: `Ensures.bind` passes a fact from one link to the next, a
check lets the rest assume that it passed (`ensures_rejectIf_bind`), and an
invariant of a state machine step is proved link by link, without inverting
the step.
-/

namespace Checks

variable {ε : Type}

/-- Fail with `e` when `c` holds. -/
def rejectIf (c : Bool) (e : ε) : Except ε Unit := if c then .error e else .ok ()

@[simp] theorem rejectIf_eq_ok {c : Bool} {e : ε} : rejectIf c e = .ok () ↔ c = false := by
  cases c <;> simp [rejectIf]

@[simp] theorem rejectIf_false (e : ε) : rejectIf false e = .ok () := rfl

/-- A chain of two checks passes when both do. -/
@[simp] theorem bind_unit_eq_ok {x : Except ε Unit} {y : Unit → Except ε Unit} :
    (x >>= y) = .ok () ↔ x = .ok () ∧ y () = .ok () := by
  cases x with
  | error e => simp [bind, Except.bind]
  | ok u => simp [bind, Except.bind]

/-- A check run on every element passes when it passes on each. -/
theorem forM_eq_ok {α : Type} (f : α → Except ε Unit) :
    ∀ l : List α, l.forM f = .ok () ↔ ∀ a ∈ l, f a = .ok ()
  | [] => by simp [List.forM_nil, pure, Except.pure]
  | a :: l => by
      have hcons : (a :: l).forM f = (f a >>= fun _ => l.forM f) := rfl
      rw [hcons, bind_unit_eq_ok, forM_eq_ok f l, List.forall_mem_cons]

theorem rejectIf_error {c : Bool} {e e' : ε} (h : rejectIf c e = .error e') : e' = e := by
  cases c with
  | false => cases h
  | true => cases h; rfl

/-- Every error of a chain is an error of one of its links. -/
theorem bind_error_all {β : Type} {P : ε → Prop} {x : Except ε Unit} {k : Unit → Except ε β}
    (hx : ∀ e, x = .error e → P e) (hk : ∀ e, k () = .error e → P e) :
    ∀ e, (x >>= k) = .error e → P e := by
  intro e h
  cases x with
  | error e' =>
    cases h
    exact hx e rfl
  | ok u => exact hk e h

/-- A chain rejects when its first link rejects, or passes and the rest
rejects; with `P` of the error in both cases. -/
theorem bind_error_of {β : Type} {P : ε → Prop} {x : Except ε Unit} {k : Unit → Except ε β}
    (hx : ∀ e, x = .error e → P e) (hk : x = .ok () → ∃ e, k () = .error e ∧ P e) :
    ∃ e, (x >>= k) = .error e ∧ P e := by
  cases x with
  | error e => exact ⟨e, rfl, hx e rfl⟩
  | ok u => exact hk rfl

/-- `bind_error_of` for a chain that starts with a check. -/
theorem rejectIf_bind_error {β : Type} {P : ε → Prop} {c : Bool} {e : ε} {k : Unit → Except ε β}
    (he : P e) (hk : c = false → ∃ e', k () = .error e' ∧ P e') :
    ∃ e', (rejectIf c e >>= k) = .error e' ∧ P e' :=
  bind_error_of (fun _ h => rejectIf_error h ▸ he) (fun h => hk (rejectIf_eq_ok.mp h))

/-- Fail with `e` when `c` holds, above a monad `m`. -/
def rejectIfT {m : Type → Type} [Monad m] (c : Bool) (e : ε) : ExceptT ε m Unit :=
  if c then throw e else pure ()

@[simp] theorem rejectIfT_false {m : Type → Type} [Monad m] (e : ε) :
    (rejectIfT false e : ExceptT ε m Unit) = pure () := rfl

@[simp] theorem rejectIfT_true {m : Type → Type} [Monad m] (e : ε) :
    (rejectIfT true e : ExceptT ε m Unit) = throw e := rfl

/-- A check at the head of a chain: it rejects, or the rest runs. -/
@[simp] theorem run_rejectIfT_bind {m : Type → Type} [Monad m] [LawfulMonad m] {β : Type} (c : Bool)
    (e : ε) (k : Unit → ExceptT ε m β) :
    (rejectIfT c e >>= k).run = if c then pure (.error e) else (k ()).run := by
  cases c <;> simp [rejectIfT]

@[simp] theorem run_rejectIfT {m : Type → Type} [Monad m] [LawfulMonad m] (c : Bool) (e : ε) :
    (rejectIfT c e : ExceptT ε m Unit).run = if c then pure (.error e) else pure (.ok ()) := by
  cases c <;> simp [rejectIfT]

/-! ## What a successful chain ensures -/

section Ensures

variable {α β : Type}

/-- Every value `u` succeeds with satisfies `Q`. -/
def Ensures (u : Except ε α) (Q : α → Prop) : Prop := ∀ a, u = .ok a → Q a

theorem ensures_pure {Q : α → Prop} {a : α} (h : Q a) : Ensures (pure a : Except ε α) Q := by
  intro b hb
  cases hb
  exact h

theorem ensures_throw (e : ε) (Q : α → Prop) : Ensures (throw e : Except ε α) Q := by
  intro b hb
  cases hb

theorem Ensures.mono {u : Except ε α} {P Q : α → Prop} (h : Ensures u P) (hPQ : ∀ a, P a → Q a) :
    Ensures u Q :=
  fun a ha => hPQ a (h a ha)

/-- A computation ensures that it succeeded with its value. -/
theorem ensures_eq (u : Except ε α) : Ensures u (u = .ok ·) := fun _ h => h

theorem Ensures.bind {u : Except ε α} {P : α → Prop} {k : α → Except ε β} {Q : β → Prop}
    (hu : Ensures u P) (hk : ∀ a, P a → Ensures (k a) Q) : Ensures (u >>= k) Q := by
  intro b hb
  cases u with
  | error e => cases hb
  | ok a => exact hk a (hu a rfl) b hb

/-- `bind` after a link the rest needs nothing of. -/
theorem ensures_bind {u : Except ε α} {k : α → Except ε β} {Q : β → Prop}
    (hk : ∀ a, Ensures (k a) Q) : Ensures (u >>= k) Q :=
  (ensures_eq u).bind fun a _ => hk a

/-- A check at the head of a chain: what follows may assume it passed. -/
theorem ensures_rejectIf_bind {c : Bool} {e : ε} {k : Unit → Except ε β} {Q : β → Prop}
    (hk : c = false → Ensures (k ()) Q) : Ensures (rejectIf c e >>= k) Q := by
  cases c with
  | true => exact ensures_throw e Q
  | false => exact hk rfl

theorem Ensures.ite {p : Prop} [Decidable p] {u u' : Except ε α} {Q : α → Prop}
    (ht : p → Ensures u Q) (hf : ¬p → Ensures u' Q) : Ensures (if p then u else u') Q := by
  by_cases hp : p
  · rw [if_pos hp]
    exact ht hp
  · rw [if_neg hp]
    exact hf hp

end Ensures

end Checks
