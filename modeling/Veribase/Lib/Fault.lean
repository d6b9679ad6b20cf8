import Mathlib

/-!
# Faults

A C++ function can stop without returning: a failed `assert` aborts the
process, a read through a null pointer or past the end of a vector is
undefined behaviour, and a library call can throw.  A model that says what such code does on every input
ends those paths in a `Fault`, so that "this code never faults" is a
statement about the model and "this input makes it fault" a computation.

`Faulty` is the monad of such code; a function that also has its own error
channel (a `bool` return with a reason) lives in `ExceptT ε Faulty`, where a
`Fault` passes through untouched.  The three primitives are `check` (an
`assert`), `deref` (following a pointer that may be null) and `index` (vector
indexing).  Their lemmas say when they succeed, and `bind_eq_ok` peels a
successful chain (`stateful_bind_eq_ok` when an error channel and a state sit
above the faults).  The simp lemmas on
`pure`, `bind` and `ExceptT.lift` run a computation of `ExceptT ε Faulty`
forward: a fault ends it, a value goes on.
-/

/-- How a C++ computation can stop without returning. -/
inductive Fault
  | assertion
  | nullDeref
  | outOfBounds
  | exception (what : String)
deriving DecidableEq, Repr

/-- A computation that may fault. -/
abbrev Faulty := Except Fault

namespace Fault

variable {α β : Type}

/-- `assert(c)`. -/
def check (c : Bool) : Faulty Unit := if c then .ok () else .error .assertion

/-- `*p` for a pointer `p` that may be null. -/
def deref : Option α → Faulty α
  | some a => .ok a
  | none => .error .nullDeref

/-- `v[i]`: a read that is only defined below `v.size()`. -/
def index (v : List α) (i : Nat) : Faulty α :=
  match v[i]? with
  | some a => .ok a
  | none => .error .outOfBounds

@[simp] theorem check_true : check true = .ok () := rfl

@[simp] theorem check_false : check false = .error .assertion := rfl

@[simp] theorem deref_some (a : α) : deref (some a) = .ok a := rfl

@[simp] theorem deref_none : deref (none : Option α) = .error .nullDeref := rfl

theorem index_of_lt {v : List α} {i : Nat} (h : i < v.length) : index v i = .ok v[i] := by
  simp [index, List.getElem?_eq_getElem h]

theorem index_of_le {v : List α} {i : Nat} (h : v.length ≤ i) : index v i = .error .outOfBounds := by
  simp [index, List.getElem?_eq_none h]

theorem index_of_getElem? {v : List α} {i : Nat} {a : α} (h : v[i]? = some a) : index v i = .ok a := by
  simp [index, h]

@[simp] theorem pure_eq (a : α) : (pure a : Faulty α) = .ok a := rfl

@[simp] theorem error_bind (f : Fault) (k : α → Faulty β) : (Except.error f >>= k : Faulty β) = .error f :=
  rfl

@[simp] theorem ok_bind (a : α) (k : α → Faulty β) : (Except.ok a >>= k : Faulty β) = k a := rfl

@[simp] theorem lift_ok {ε : Type} (a : α) :
    (ExceptT.lift (.ok a : Faulty α) : ExceptT ε Faulty α) = pure a := rfl

@[simp] theorem run_lift_error {ε : Type} (f : Fault) :
    (ExceptT.lift (.error f : Faulty α) : ExceptT ε Faulty α).run = .error f := rfl

@[simp] theorem map_eq_error {f : α → β} {x : Faulty α} {e : Fault} :
    f <$> x = .error e ↔ x = .error e := by
  cases x <;> simp [Functor.map, Except.map]

theorem bind_eq_ok {x : Faulty α} {f : α → Faulty β} {b : β} :
    (x >>= f) = .ok b ↔ ∃ a, x = .ok a ∧ f a = .ok b := by
  cases x <;> simp [bind, Except.bind]

/-- A successful run of a bind in `ExceptT ε (StateT σ Faulty)`: both halves
succeed, the second from the state the first leaves. -/
theorem stateful_bind_eq_ok {ε σ : Type} {x : ExceptT ε (StateT σ Faulty) α}
    {k : α → ExceptT ε (StateT σ Faulty) β} {s s' : σ} {b : β}
    (h : (x >>= k).run.run s = .ok (.ok b, s')) :
    ∃ a s₁, x.run.run s = .ok (.ok a, s₁) ∧ (k a).run.run s₁ = .ok (.ok b, s') := by
  simp only [ExceptT.run_bind, StateT.run_bind] at h
  rcases hx : x.run.run s with f | ⟨r, s₁⟩
  · simp [hx] at h
  · cases r with
    | error e => simp [hx] at h
    | ok a => exact ⟨a, s₁, rfl, by simpa [hx] using h⟩

end Fault
