import Veribase.Lib.Checks

/-!
# Relaxation of fallible computations

One computation relaxes another when it succeeds, with the same value,
wherever the other does: it may fail more rarely, never differently when it
succeeds.  A rule set that only adds checks to another, such as a stricter
verifier, is relaxed by the looser one.

`Relaxes a b` is that relation on `Except ε α`.  It composes with `bind`
(`Relaxes.bind`) and with branches on the same condition (`Relaxes.ite`), so a
proof that one program relaxes another follows the program, one lemma per
step: a check may be made on a weaker condition (`relaxes_rejectIf`) or
skipped (`relaxes_pure_unit`), and a failure is relaxed by anything.

`RelaxesT R a b` is the relation on `ExceptT ε (Except ε') α`, where a value
has to get through both layers, with the two values related by `R` rather
than equal: two programs whose paths part can still be compared, as long as
what one returns is related to what the other does (`RelaxesT.bind`).
-/

namespace Relax

open Checks

variable {ε ε' α β : Type}

/-- `a` succeeds, with the same value, wherever `b` does. -/
def Relaxes (a b : Except ε α) : Prop := ∀ r, b = .ok r → a = .ok r

@[refl] theorem Relaxes.refl (a : Except ε α) : Relaxes a a := fun _ h => h

/-- A failure is relaxed by anything. -/
theorem relaxes_error (a : Except ε α) (e : ε) : Relaxes a (.error e) := by
  intro r h
  cases h

theorem Relaxes.bind {a b : Except ε α} {f g : α → Except ε β} (hab : Relaxes a b)
    (hfg : ∀ x, Relaxes (f x) (g x)) : Relaxes (a >>= f) (b >>= g) := by
  intro r h
  cases hb : b with
  | error e => rw [hb] at h; cases h
  | ok x =>
    rw [hb] at h
    have ha : a = .ok x := hab x hb
    rw [ha]
    exact hfg x r h

/-- A condition that implies a false one is false. -/
theorem eq_false_of_imp {c d : Bool} (hcd : c = true → d = true) (hd : d = false) : c = false := by
  cases c with
  | false => rfl
  | true => exact absurd (hcd rfl) (by rw [hd]; decide)

/-- A failure on a weaker condition, before the same continuation. -/
theorem relaxes_ite_error {c d : Bool} {a b : Except ε α} (e e' : ε) (hcd : c = true → d = true)
    (hab : Relaxes a b) : Relaxes (if c then .error e else a) (if d then .error e' else b) := by
  cases d with
  | true => exact relaxes_error _ _
  | false =>
    rw [eq_false_of_imp hcd rfl]
    exact hab

/-- A check the stricter program makes on a weaker condition. -/
theorem relaxes_rejectIf {c d : Bool} (e e' : ε) (hcd : c = true → d = true) :
    Relaxes (rejectIf c e) (rejectIf d e') :=
  relaxes_ite_error e e' hcd (Relaxes.refl _)

/-- Two programs that branch the same way relax branch by branch. -/
theorem Relaxes.ite {c : Prop} [Decidable c] {a a' b b' : Except ε α} (ht : c → Relaxes a a')
    (hf : ¬c → Relaxes b b') :
    Relaxes (if c then a else b) (if c then a' else b') := by
  by_cases hc : c
  · rw [if_pos hc, if_pos hc]
    exact ht hc
  · rw [if_neg hc, if_neg hc]
    exact hf hc

/-- A program that skips a check relaxes the one that makes it. -/
theorem relaxes_pure_unit (a : Except ε Unit) : Relaxes (pure ()) a := by
  intro r _
  cases r
  rfl

/-- Two folds relax when their steps do. -/
theorem Relaxes.foldlM {f g : β → α → Except ε β} (hfg : ∀ b a, Relaxes (f b a) (g b a)) :
    ∀ (l : List α) (init : β), Relaxes (l.foldlM f init) (l.foldlM g init)
  | [], init => Relaxes.refl _
  | a :: l, init => by
    simp only [List.foldlM_cons]
    exact (hfg init a).bind fun b => Relaxes.foldlM hfg l b

/-! ## Across a second error layer -/

/-- `a` gets through both layers wherever `b` does, with a value related by
`R` to the value of `b`. -/
def RelaxesT {γ : Type} (R : α → γ → Prop) (a : ExceptT ε (Except ε') α)
    (b : ExceptT ε (Except ε') γ) : Prop :=
  ∀ r, b.run = .ok (.ok r) → ∃ r', a.run = .ok (.ok r') ∧ R r' r

variable {γ δ : Type}

theorem RelaxesT.refl (a : ExceptT ε (Except ε') α) : RelaxesT Eq a a :=
  fun r h => ⟨r, h, rfl⟩

theorem RelaxesT.bind {R : α → γ → Prop} {S : β → δ → Prop} {a : ExceptT ε (Except ε') α}
    {b : ExceptT ε (Except ε') γ} {f : α → ExceptT ε (Except ε') β}
    {g : γ → ExceptT ε (Except ε') δ} (hab : RelaxesT R a b)
    (hfg : ∀ x y, R x y → RelaxesT S (f x) (g y)) : RelaxesT S (a >>= f) (b >>= g) := by
  intro r h
  simp only [ExceptT.run_bind] at h ⊢
  rcases hb : b.run with e' | (e | y)
  · rw [hb] at h; cases h
  · rw [hb] at h; cases h
  · rw [hb] at h
    obtain ⟨x, ha, hxy⟩ := hab y hb
    rw [ha]
    exact hfg x y hxy r h

/-- `bind` after two steps with the same value. -/
theorem RelaxesT.bind_eq {S : β → δ → Prop} {a b : ExceptT ε (Except ε') α}
    {f : α → ExceptT ε (Except ε') β} {g : α → ExceptT ε (Except ε') δ} (hab : RelaxesT Eq a b)
    (hfg : ∀ x, RelaxesT S (f x) (g x)) : RelaxesT S (a >>= f) (b >>= g) :=
  hab.bind fun x _ hxy => hxy ▸ hfg x

/-- A value related to every outcome of `b` relaxes it. -/
theorem relaxesT_pure {R : α → γ → Prop} {x : α} (b : ExceptT ε (Except ε') γ)
    (hx : ∀ y, R x y) : RelaxesT R (pure x) b :=
  fun r _ => ⟨x, rfl, hx r⟩

/-- A program that skips a step of the stricter one, a step that only checks. -/
theorem relaxesT_skip (x : ExceptT ε (Except ε') Unit) (k : ExceptT ε (Except ε') α) :
    RelaxesT Eq k (x >>= fun _ => k) := by
  intro r h
  simp only [ExceptT.run_bind] at h
  rcases hx : x.run with e' | (e | u)
  · rw [hx] at h; cases h
  · rw [hx] at h; cases h
  · rw [hx] at h
    exact ⟨r, h, rfl⟩

/-- A failure of the first layer on a weaker condition. -/
theorem relaxesT_throwIf {c d : Bool} (e e' : ε) (hcd : c = true → d = true) :
    RelaxesT Eq (if c then throw e else pure () : ExceptT ε (Except ε') Unit)
      (if d then throw e' else pure ()) := by
  cases d with
  | true => intro r h; cases h
  | false =>
    rw [eq_false_of_imp hcd rfl]
    exact RelaxesT.refl _

theorem RelaxesT.ite {R : α → γ → Prop} {c : Prop} [Decidable c] {a b : ExceptT ε (Except ε') α}
    {a' b' : ExceptT ε (Except ε') γ} (ht : c → RelaxesT R a a') (hf : ¬c → RelaxesT R b b') :
    RelaxesT R (if c then a else b) (if c then a' else b') := by
  by_cases hc : c
  · rw [if_pos hc, if_pos hc]
    exact ht hc
  · rw [if_neg hc, if_neg hc]
    exact hf hc

/-- An inner computation that relaxes another, lifted into the second layer. -/
theorem relaxesT_mk {a b : Except ε α} (hab : Relaxes a b) :
    RelaxesT Eq (ExceptT.mk (.ok a) : ExceptT ε (Except ε') α) (ExceptT.mk (.ok b)) := by
  intro r h
  simp only [ExceptT.run_mk, Except.ok.injEq] at h ⊢
  exact ⟨r, hab r h, rfl⟩

end Relax
