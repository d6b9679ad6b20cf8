import Mathlib

/-!
# The parallel check queue

`CCheckQueue<T>` (`checkqueue.h`) runs the script checks of a block on
several threads.  The master `Add`s batches of checks to a shared LIFO
`queue`, then calls `Wait`, which joins the workers in `Loop` until no check
is left.  All shared fields sit under one mutex.  `nTodo` counts the checks
not yet accounted for, those queued and those in the threads' batches, and a
thread subtracts its batch only at the top of its next turn, where it also
folds its `fOk` into `fAllOk`.

A thread is modelled by its locals in `Loop` and where it is (`Pc`): outside
`Loop`, blocked in `cond.wait`, or running its batch outside the lock.  Each
critical section is one step (`step`): the master's `Add`, a thread's entry
into `Loop`, a wake-up in the wait loop, the top of the next turn, and the
execution of one check of a batch.  A waiting thread may wake at any step, as
a condition variable allows spurious wake-ups, so every schedule of the code
is a run of this system and more.

Beside the queue the model keeps a ghost record of the current round, the
checks the master added since `Wait` last returned (`Round`).  The invariant (`Inv`)
ties `nTodo` to the queue and the running batches, splits the round into the
queued checks, the batches and those done, and tracks where a `false` went:
to a thread's `fOk` and then to `fAllOk`.  When `Wait` returns nothing is
queued or running, so `fAllOk` is the conjunction of all checks of the round
(`wait_conjunction`).
-/

namespace Veribase

/-- Where a thread is in `Loop`. -/
inductive Pc
  /-- Not in `Loop`: a worker not started yet, the master outside `Wait`. -/
  | outside
  /-- Blocked in `cond.wait(lock)`, counted in `nIdle`. -/
  | waiting
  /-- Outside the lock, executing its batch. -/
  | running
deriving DecidableEq, Repr

/-- A thread's locals in `Loop`: its batch, as the checks not executed yet,
its size `nNow` and the running result `fOk`. -/
structure Locals (T : Type) where
  pc : Pc
  vChecks : List T
  nNow : ℕ
  fOk : Bool

/-- The locals at the start of `Loop`. -/
def Locals.fresh {T : Type} : Locals T := ⟨.outside, [], 0, true⟩

/-- `CCheckQueue<T>` with the locals of its threads: the master is `none`,
worker `w` is `some w`. -/
structure CCheckQueue (T W : Type) where
  queue : List T
  nIdle : ℕ
  nTotal : ℕ
  fAllOk : Bool
  nTodo : ℕ
  nBatchSize : ℕ
  th : Option W → Locals T

/-- What a thread does next, in one critical section or one check. -/
inductive Action (T W : Type)
  /-- The master's `Add(vChecks)`. -/
  | add (vChecks : List T)
  /-- The first turn of `Loop`: the master's `Wait()`, a worker's `Thread()`. -/
  | enter (t : Option W)
  /-- The return from `cond.wait`. -/
  | wake (t : Option W)
  /-- One check of the batch: `if (fOk) fOk = check();`. -/
  | exec (t : Option W)
  /-- The top of the next turn, once the batch is done. -/
  | next (t : Option W)

namespace CCheckQueue

variable {T W : Type} [DecidableEq W]

/-- `CCheckQueue(nBatchSizeIn)`, before any thread runs. -/
def init (nBatchSize : ℕ) : CCheckQueue T W :=
  ⟨[], 0, 0, true, 0, nBatchSize, fun _ => Locals.fresh⟩

variable (q : CCheckQueue T W)

/-- `Add(vChecks)`: the checks are pushed onto the queue and counted in
`nTodo`. -/
def add (vChecks : List T) : CCheckQueue T W :=
  { q with queue := q.queue ++ vChecks, nTodo := q.nTodo + vChecks.length }

/-- The size of the next batch: `max(1, min(nBatchSize, queue.size() / (nTotal + nIdle + 1)))`. -/
def batchSize : ℕ := max 1 (min q.nBatchSize (q.queue.length / (q.nTotal + q.nIdle + 1)))

/-- The `while (queue.empty())` loop of `Loop` under the lock, for thread `t`
with locals `l`.  With an empty queue the master returns `fAllOk` (and
resets it) once `nTodo` is zero, and any other thread waits; otherwise the
thread swaps `nNow` checks off the back of the queue into its batch and
starts it with `fOk = fAllOk`.  The second component is what `Wait`
returns. -/
def loopHead (t : Option W) (l : Locals T) : CCheckQueue T W × Option Bool :=
  match q.queue with
  | [] =>
    if t = none ∧ q.nTodo = 0 then
      let l' : Locals T := { l with pc := .outside }
      ({ q with nTotal := q.nTotal - 1, fAllOk := true, th := Function.update q.th t l' }, some q.fAllOk)
    else
      let l' : Locals T := { l with pc := .waiting }
      ({ q with nIdle := q.nIdle + 1, th := Function.update q.th t l' }, none)
  | _ :: _ =>
    let nNow := q.batchSize
    let l' : Locals T := ⟨.running, (q.queue.drop (q.queue.length - nNow)).reverse, nNow, q.fAllOk⟩
    ({ q with queue := q.queue.take (q.queue.length - nNow), th := Function.update q.th t l' }, none)

/-- The first turn of `Loop` for thread `t`: `nTotal++`, then the wait loop. -/
def enter (t : Option W) : CCheckQueue T W × Option Bool :=
  loopHead { q with nTotal := q.nTotal + 1 } t Locals.fresh

/-- The return from `cond.wait` of thread `t`: `nIdle--`, then the wait loop
again. -/
def wake (t : Option W) : CCheckQueue T W × Option Bool :=
  loopHead { q with nIdle := q.nIdle - 1 } t (q.th t)

/-- One check of the batch of thread `t`: executed while `fOk` holds, skipped
after it failed. -/
def exec (eval : T → Bool) (t : Option W) : CCheckQueue T W :=
  match (q.th t).vChecks with
  | c :: rest =>
    let l' : Locals T := { q.th t with vChecks := rest, fOk := if (q.th t).fOk then eval c else false }
    { q with th := Function.update q.th t l' }
  | [] => q

/-- The top of the next turn of thread `t`, its batch done: `fAllOk &= fOk`
and `nTodo -= nNow` (the first turn does `nTotal++` instead), then the wait
loop. -/
def next (t : Option W) : CCheckQueue T W × Option Bool :=
  let l := q.th t
  if l.nNow ≠ 0 then
    loopHead { q with fAllOk := q.fAllOk && l.fOk, nTodo := q.nTodo - l.nNow } t l
  else loopHead { q with nTotal := q.nTotal + 1 } t l

/-- One step of the system: the action of one thread, if that thread can take
it where it is. -/
def step (eval : T → Bool) : Action T W → Option (CCheckQueue T W × Option Bool)
  | .add vChecks => if (q.th none).pc = .outside then some (q.add vChecks, none) else none
  | .enter t => if (q.th t).pc = .outside then some (q.enter t) else none
  | .wake t => if (q.th t).pc = .waiting then some (q.wake t) else none
  | .exec t =>
    if (q.th t).pc = .running ∧ (q.th t).vChecks ≠ [] then some (q.exec eval t, none) else none
  | .next t => if (q.th t).pc = .running ∧ (q.th t).vChecks = [] then some (q.next t) else none

end CCheckQueue

/-- The current round, a ghost record beside the queue: the checks the master
added since `Wait` last returned, those a thread has executed or skipped, and
whether an executed one returned `false`. -/
structure Round (T : Type) where
  added : Multiset T
  done : Multiset T
  failed : Bool

/-- The round after an action of the queue `q`: a return of `Wait` starts a
new one. -/
def Round.after {T W : Type} (eval : T → Bool) (r : Round T) (q : CCheckQueue T W) :
    Action T W → Option Bool → Round T
  | _, some _ => ⟨0, 0, false⟩
  | .add vChecks, none => { r with added := r.added + ↑vChecks }
  | .exec t, none =>
    match (q.th t).vChecks with
    | c :: _ => { r with done := c ::ₘ r.done, failed := r.failed || ((q.th t).fOk && !eval c) }
    | [] => r
  | _, none => r

/-- The queue with its current round. -/
structure CheckSys (T W : Type) where
  q : CCheckQueue T W
  round : Round T

namespace CheckSys

variable {T W : Type} [DecidableEq W] (eval : T → Bool)

/-- A step of the queue, with the round kept beside it. -/
def step (s : CheckSys T W) (a : Action T W) : Option (CheckSys T W × Option Bool) :=
  (s.q.step eval a).map fun qr => (⟨qr.1, s.round.after eval s.q a qr.2⟩, qr.2)

/-- The states that any schedule of any rounds reaches from a new queue. -/
inductive Reachable (nBatchSize : ℕ) : CheckSys T W → Prop
  | init : Reachable nBatchSize ⟨CCheckQueue.init nBatchSize, ⟨0, 0, false⟩⟩
  | step {s s' : CheckSys T W} {a : Action T W} {r : Option Bool} :
      Reachable nBatchSize s → s.step eval a = some (s', r) → Reachable nBatchSize s'

/-- A schedule: the actions run in order, while each can be taken. -/
def run (s : CheckSys T W) : List (Action T W) → Option (CheckSys T W)
  | [] => some s
  | a :: as => (s.step eval a).bind fun sr => run sr.1 as

variable {eval} in
theorem Reachable.run {nBatchSize : ℕ} {s s' : CheckSys T W} {as : List (Action T W)}
    (hs : Reachable eval nBatchSize s) (h : s.run eval as = some s') : Reachable eval nBatchSize s' := by
  induction as generalizing s with
  | nil =>
    cases h
    exact hs
  | cons a as ih =>
    obtain ⟨⟨s₁, r⟩, hstep, hrest⟩ := Option.bind_eq_some_iff.mp h
    exact ih (hs.step hstep) hrest

end CheckSys

/-! ## The invariant -/

/-- What a thread owes to `nTodo`: its whole batch while it runs. -/
def Locals.owed {T : Type} (l : Locals T) : ℕ := if l.pc = .running then l.nNow else 0

theorem sum_apply_update {ι α M : Type} [Fintype ι] [DecidableEq ι] [AddCommMonoid M] (g : α → M)
    (f : ι → α) (i : ι) (a : α) :
    ∑ x, g (Function.update f i a x) + g (f i) = ∑ x, g (f x) + g a := by
  have hg : (fun x => g (Function.update f i a x)) = Function.update (fun x => g (f x)) i (g a) := by
    funext x
    exact Function.apply_update (fun _ => g) f i a x
  rw [hg, Finset.sum_update_of_mem (Finset.mem_univ i), ← Finset.add_sum_erase _ _ (Finset.mem_univ i),
    Finset.sdiff_singleton_eq_erase]
  abel

theorem Locals.owed_of_not_running {T : Type} {l : Locals T} (h : l.pc ≠ .running) : l.owed = 0 :=
  if_neg h

theorem Locals.owed_of_running {T : Type} {l : Locals T} (h : l.pc = .running) : l.owed = l.nNow :=
  if_pos h

namespace CCheckQueue

variable {T W : Type} (q : CCheckQueue T W)

theorem batchSize_pos : 0 < q.batchSize := lt_of_lt_of_le Nat.one_pos (le_max_left _ _)

/-- A batch is never larger than the queue it is taken from. -/
theorem batchSize_le {c : T} {cs : List T} (h : q.queue = c :: cs) : q.batchSize ≤ q.queue.length :=
  max_le (by simp [h]) (le_trans (min_le_right _ _) (Nat.div_le_self _ _))

/-- The wait loop overwrites the locals of its thread, so it does not read
them. -/
theorem loopHead_update_self [DecidableEq W] (t : Option W) (l₀ l : Locals T) :
    loopHead { q with th := Function.update q.th t l₀ } t l = q.loopHead t l := by
  unfold loopHead
  dsimp only
  split <;> simp [Function.update_idem, batchSize]

end CCheckQueue

namespace CheckSys

variable {T W : Type} [Fintype W] (eval : T → Bool)

/-- The invariant of every reachable state. -/
structure Inv (s : CheckSys T W) : Prop where
  /-- `nTodo` counts the queue and the batches of the running threads. -/
  nTodo : s.q.nTodo = s.q.queue.length + ∑ t, (s.q.th t).owed
  nNow_pos : ∀ t, (s.q.th t).pc = .running → 0 < (s.q.th t).nNow
  /-- Only a running thread holds checks. -/
  vChecks_nil : ∀ t, (s.q.th t).pc ≠ .running → (s.q.th t).vChecks = []
  /-- Each check of the round is queued, in a batch, or done. -/
  added : s.round.added = ↑s.q.queue + ∑ t, ((s.q.th t).vChecks : Multiset T) + s.round.done
  /-- `fAllOk` and a running thread's `fOk` turn false only after a check did. -/
  fAllOk : s.q.fAllOk = false → s.round.failed = true
  fOk : ∀ t, (s.q.th t).pc = .running → (s.q.th t).fOk = false → s.round.failed = true
  /-- A false result sits in `fAllOk` or in a running thread's `fOk`. -/
  failed : s.round.failed = true →
    s.q.fAllOk = false ∨ ∃ t, (s.q.th t).pc = .running ∧ (s.q.th t).fOk = false
  /-- The checks done returned true, or one of them returned false. -/
  done_true : s.round.failed = false → ∀ c ∈ s.round.done, eval c = true
  done_false : s.round.failed = true → ∃ c ∈ s.round.done, eval c = false

variable {eval}

theorem Inv.init (nBatchSize : ℕ) :
    Inv eval (⟨CCheckQueue.init nBatchSize, ⟨0, 0, false⟩⟩ : CheckSys T W) := by
  refine ⟨?_, ?_, ?_, ?_, ?_, ?_, ?_, ?_, ?_⟩ <;>
    simp [CCheckQueue.init, Locals.fresh, Locals.owed]

/-- With nothing owed, no thread is running: a running one owes its batch. -/
theorem Inv.not_running {s : CheckSys T W} (hs : Inv eval s) (h0 : s.q.nTodo = 0) (t : Option W) :
    (s.q.th t).pc ≠ .running := by
  intro hrun
  have hle : (s.q.th t).owed ≤ ∑ t', (s.q.th t').owed :=
    Finset.single_le_sum (f := fun t' => (s.q.th t').owed) (fun _ _ => Nat.zero_le _) (Finset.mem_univ t)
  have hpos := hs.nNow_pos t hrun
  rw [Locals.owed, if_pos hrun] at hle
  have := hs.nTodo
  omega

/-- **With nothing queued or owed, `fAllOk` is the conjunction of the
round.**  Every check of the round is done; without a false result all
returned true, and a false result is in `fAllOk` once no thread runs. -/
theorem Inv.fAllOk_iff {s : CheckSys T W} (hs : Inv eval s) (hq : s.q.queue = []) (h0 : s.q.nTodo = 0) :
    s.q.fAllOk = true ↔ ∀ c ∈ s.round.added, eval c = true := by
  have hnr := hs.not_running h0
  have hdone : s.round.added = s.round.done := by
    have hnil : ∀ t, ((s.q.th t).vChecks : Multiset T) = 0 := fun t => by
      rw [hs.vChecks_nil t (hnr t)]
      rfl
    rw [hs.added, hq]
    simp [hnil]
  rw [hdone]
  constructor
  · intro hok
    cases hf : s.round.failed
    · exact hs.done_true hf
    · rcases hs.failed hf with hall | ⟨t, hrun, _⟩
      · rw [hok] at hall
        cases hall
      · exact absurd hrun (hnr t)
  · intro hall
    by_contra hok
    obtain ⟨c, hc, hfalse⟩ := hs.done_false (hs.fAllOk (by simpa using hok))
    rw [hall c hc] at hfalse
    cases hfalse

variable [DecidableEq W]

/-- A thread that is not running may be replaced by one that is not running
either and holds no check, with the queue, `nTodo` and `fAllOk` unchanged. -/
theorem Inv.set_idle {s : CheckSys T W} (hs : Inv eval s) {q' : CCheckQueue T W} {t : Option W}
    {l' : Locals T} (hqueue : q'.queue = s.q.queue) (hnTodo : q'.nTodo = s.q.nTodo)
    (hall : q'.fAllOk = s.q.fAllOk) (hth : q'.th = Function.update s.q.th t l')
    (ht : (s.q.th t).pc ≠ .running) (hl : l'.pc ≠ .running) (hv : l'.vChecks = []) :
    Inv eval ⟨q', s.round⟩ := by
  have howed := sum_apply_update Locals.owed s.q.th t l'
  have hsum := sum_apply_update (fun l : Locals T => (l.vChecks : Multiset T)) s.q.th t l'
  rw [Locals.owed_of_not_running ht, Locals.owed_of_not_running hl] at howed
  simp only [hs.vChecks_nil t ht, hv, Multiset.coe_nil, add_zero] at howed hsum
  have hat : q'.th t = l' := by rw [hth, Function.update_self]
  have hother : ∀ x, x ≠ t → q'.th x = s.q.th x := fun x hx => by rw [hth, Function.update_of_ne hx]
  refine ⟨?_, fun x hx => ?_, fun x hx => ?_, ?_, fun hf => hs.fAllOk (hall ▸ hf), fun x hx hf => ?_,
    fun hf => ?_, hs.done_true, hs.done_false⟩
  · show q'.nTodo = q'.queue.length + ∑ x, (q'.th x).owed
    rw [hnTodo, hqueue, hth, howed]
    exact hs.nTodo
  · by_cases hxt : x = t
    · subst hxt
      exact absurd (hat ▸ hx) hl
    · rw [hother x hxt] at hx ⊢
      exact hs.nNow_pos x hx
  · by_cases hxt : x = t
    · subst hxt
      rw [hat]
      exact hv
    · rw [hother x hxt] at hx ⊢
      exact hs.vChecks_nil x hx
  · show s.round.added = ↑q'.queue + ∑ x, ((q'.th x).vChecks : Multiset T) + s.round.done
    rw [hqueue, hth, hsum]
    exact hs.added
  · by_cases hxt : x = t
    · subst hxt
      exact absurd (hat ▸ hx) hl
    · rw [hother x hxt] at hx hf
      exact hs.fOk x hx hf
  · rcases hs.failed hf with hfalse | ⟨x, hx, hfx⟩
    · exact .inl (hall ▸ hfalse)
    · have hxt : x ≠ t := fun hxt => ht (hxt ▸ hx)
      exact .inr ⟨x, (hother x hxt).symm ▸ hx, (hother x hxt).symm ▸ hfx⟩

/-- Taking a batch of `n` checks off the back of the queue moves them, and
their count, from the queue to the thread, which starts with `fOk = fAllOk`. -/
theorem Inv.take_batch {s : CheckSys T W} (hs : Inv eval s) {q' : CCheckQueue T W} {t : Option W} {n : ℕ}
    (hn : 0 < n) (hle : n ≤ s.q.queue.length) (ht : (s.q.th t).pc ≠ .running)
    (hqueue : q'.queue = s.q.queue.take (s.q.queue.length - n)) (hnTodo : q'.nTodo = s.q.nTodo)
    (hall : q'.fAllOk = s.q.fAllOk)
    (hth : q'.th = Function.update s.q.th t
      ⟨.running, (s.q.queue.drop (s.q.queue.length - n)).reverse, n, s.q.fAllOk⟩) :
    Inv eval ⟨q', s.round⟩ := by
  have howed := sum_apply_update Locals.owed s.q.th t
    ⟨.running, (s.q.queue.drop (s.q.queue.length - n)).reverse, n, s.q.fAllOk⟩
  have hsum := sum_apply_update (fun l : Locals T => (l.vChecks : Multiset T)) s.q.th t
    ⟨.running, (s.q.queue.drop (s.q.queue.length - n)).reverse, n, s.q.fAllOk⟩
  rw [Locals.owed_of_not_running ht, Locals.owed_of_running rfl] at howed
  simp only [hs.vChecks_nil t ht, Multiset.coe_nil, add_zero, Multiset.coe_reverse] at howed hsum
  have hat : (q'.th t).pc = .running := by rw [hth, Function.update_self]
  have hother : ∀ x, x ≠ t → q'.th x = s.q.th x := fun x hx => by rw [hth, Function.update_of_ne hx]
  -- the queue is what stays in it and the batch
  have hsplit : (↑(s.q.queue.take (s.q.queue.length - n)) : Multiset T) +
      ↑(s.q.queue.drop (s.q.queue.length - n)) = ↑s.q.queue := by
    rw [Multiset.coe_add, List.take_append_drop]
  refine ⟨?_, fun x hx => ?_, fun x hx => ?_, ?_, fun hf => hs.fAllOk (hall ▸ hf), fun x hx hf => ?_,
    fun hf => ?_, hs.done_true, hs.done_false⟩
  · show q'.nTodo = q'.queue.length + ∑ x, (q'.th x).owed
    rw [hnTodo, hqueue, hth, List.length_take, hs.nTodo]
    omega
  · by_cases hxt : x = t
    · subst hxt
      rw [hth, Function.update_self]
      exact hn
    · rw [hother x hxt] at hx ⊢
      exact hs.nNow_pos x hx
  · by_cases hxt : x = t
    · subst hxt
      exact absurd hat hx
    · rw [hother x hxt] at hx ⊢
      exact hs.vChecks_nil x hx
  · show s.round.added = ↑q'.queue + ∑ x, ((q'.th x).vChecks : Multiset T) + s.round.done
    rw [hqueue, hth, hsum, hs.added, ← hsplit]
    abel
  · by_cases hxt : x = t
    · subst hxt
      rw [hth, Function.update_self] at hf
      exact hs.fAllOk hf
    · rw [hother x hxt] at hx hf
      exact hs.fOk x hx hf
  · rcases hs.failed hf with hfalse | ⟨x, hx, hfx⟩
    · exact .inl (hall ▸ hfalse)
    · have hxt : x ≠ t := fun hxt => ht (hxt ▸ hx)
      exact .inr ⟨x, (hother x hxt).symm ▸ hx, (hother x hxt).symm ▸ hfx⟩

/-- When the master returns nothing is queued or running, so with `fAllOk`
reset the invariant holds of a new, empty round. -/
theorem Inv.reset {s : CheckSys T W} (hs : Inv eval s) {t : Option W} {l' : Locals T}
    (hq : s.q.queue = []) (h0 : s.q.nTodo = 0) (hl : l'.pc ≠ .running) (hv : l'.vChecks = []) :
    Inv eval ⟨{ s.q with nTotal := s.q.nTotal - 1, fAllOk := true, th := Function.update s.q.th t l' },
      ⟨0, 0, false⟩⟩ := by
  set q' : CCheckQueue T W :=
    { s.q with nTotal := s.q.nTotal - 1, fAllOk := true, th := Function.update s.q.th t l' } with hq'
  have hth : q'.th = Function.update s.q.th t l' := rfl
  have hidle : ∀ x, (q'.th x).pc ≠ .running ∧ (q'.th x).vChecks = [] := by
    intro x
    by_cases hxt : x = t
    · subst hxt
      rw [hth, Function.update_self]
      exact ⟨hl, hv⟩
    · rw [hth, Function.update_of_ne hxt]
      exact ⟨hs.not_running h0 x, hs.vChecks_nil x (hs.not_running h0 x)⟩
  refine ⟨?_, fun x hx => absurd hx (hidle x).1, fun x _ => (hidle x).2, ?_, fun hf => ?_,
    fun x hx => absurd hx (hidle x).1, fun hf => ?_, fun _ => ?_, fun hf => ?_⟩
  · show s.q.nTodo = s.q.queue.length + ∑ x, (q'.th x).owed
    rw [h0, hq, Finset.sum_eq_zero (fun x _ => Locals.owed_of_not_running (hidle x).1)]
    rfl
  · show (0 : Multiset T) = ↑s.q.queue + ∑ x, ((q'.th x).vChecks : Multiset T) + 0
    rw [hq, Finset.sum_eq_zero (fun x _ => by rw [(hidle x).2]; rfl)]
    rfl
  · cases hf
  · cases hf
  · simp
  · cases hf

omit [DecidableEq W] in
/-- `Add` puts the batch in the queue, in `nTodo` and in the round. -/
theorem Inv.add {s : CheckSys T W} (hs : Inv eval s) (vChecks : List T) :
    Inv eval ⟨s.q.add vChecks, s.round.after eval s.q (.add vChecks) none⟩ := by
  refine ⟨?_, hs.nNow_pos, hs.vChecks_nil, ?_, hs.fAllOk, hs.fOk, hs.failed, hs.done_true, hs.done_false⟩
  · show s.q.nTodo + vChecks.length = (s.q.queue ++ vChecks).length + ∑ x, (s.q.th x).owed
    rw [List.length_append, hs.nTodo]
    omega
  · show s.round.added + ↑vChecks = ↑(s.q.queue ++ vChecks) + ∑ x, ((s.q.th x).vChecks : Multiset T) +
      s.round.done
    rw [hs.added, ← Multiset.coe_add]
    abel

/-- One check of a batch moves from the batch to the done checks; a false
result, or a skip after one, leaves the thread's `fOk` false. -/
theorem Inv.exec {s : CheckSys T W} (hs : Inv eval s) {t : Option W} {c : T} {rest : List T}
    (hrun : (s.q.th t).pc = .running) (hc : (s.q.th t).vChecks = c :: rest) :
    Inv eval ⟨s.q.exec eval t, s.round.after eval s.q (.exec t) none⟩ := by
  rcases hl : s.q.th t with ⟨pc, vChecks, nNow, fOk⟩
  rw [hl] at hrun hc
  subst hrun hc
  let l' : Locals T := ⟨.running, rest, nNow, if fOk then eval c else false⟩
  have hq : s.q.exec eval t = { s.q with th := Function.update s.q.th t l' } := by
    simp only [CCheckQueue.exec, hl]
    rfl
  have hround : s.round.after eval s.q (.exec t) none =
      { s.round with done := c ::ₘ s.round.done, failed := s.round.failed || (fOk && !eval c) } := by
    simp only [Round.after, hl]
  rw [hq, hround]
  have howed := sum_apply_update Locals.owed s.q.th t l'
  have hsum := sum_apply_update (fun l : Locals T => (l.vChecks : Multiset T)) s.q.th t l'
  rw [hl, show l'.owed = Locals.owed ⟨.running, c :: rest, nNow, fOk⟩ from rfl, add_right_cancel_iff] at howed
  rw [hl] at hsum
  have hother : ∀ x, x ≠ t → Function.update s.q.th t l' x = s.q.th x :=
    fun x hx => Function.update_of_ne hx _ _
  have hfOkt : fOk = false → s.round.failed = true := hs.fOk t (by rw [hl]) ∘ (by rw [hl]; exact id)
  refine ⟨?_, fun x hx => ?_, fun x hx => ?_, ?_, fun hf => ?_, fun x hx hf => ?_, fun hf => ?_,
    fun hf => ?_, fun hf => ?_⟩
  · show s.q.nTodo = s.q.queue.length + ∑ x, (Function.update s.q.th t l' x).owed
    rw [howed]
    exact hs.nTodo
  · dsimp only at hx ⊢
    by_cases hxt : x = t
    · subst hxt
      rw [Function.update_self]
      have := hs.nNow_pos x (by rw [hl])
      rwa [hl] at this
    · rw [hother x hxt] at hx ⊢
      exact hs.nNow_pos x hx
  · dsimp only at hx ⊢
    by_cases hxt : x = t
    · subst hxt
      rw [Function.update_self] at hx
      exact absurd rfl hx
    · rw [hother x hxt] at hx ⊢
      exact hs.vChecks_nil x hx
  · show s.round.added = ↑s.q.queue + ∑ x, ((Function.update s.q.th t l' x).vChecks : Multiset T) +
      c ::ₘ s.round.done
    apply add_right_cancel (b := (rest : Multiset T))
    rw [hs.added]
    calc ↑s.q.queue + ∑ x, ((s.q.th x).vChecks : Multiset T) + s.round.done + ↑rest
        = ↑s.q.queue + s.round.done + (∑ x, ((s.q.th x).vChecks : Multiset T) + ↑rest) := by abel
      _ = ↑s.q.queue + s.round.done +
          (∑ x, ((Function.update s.q.th t l' x).vChecks : Multiset T) + ↑(c :: rest)) := by rw [hsum]
      _ = _ := by rw [← Multiset.cons_coe, ← Multiset.singleton_add, ← Multiset.singleton_add]; abel
  · dsimp only at hf ⊢
    simp [hs.fAllOk hf]
  · dsimp only at hx hf ⊢
    by_cases hxt : x = t
    · subst hxt
      rw [Function.update_self] at hf
      cases hfx : fOk
      · simp [hfOkt hfx]
      · have hev : eval c = false := by simpa [l', hfx] using hf
        simp [hev]
    · rw [hother x hxt] at hx hf
      simp [hs.fOk x hx hf]
  · dsimp only at hf ⊢
    simp only [Bool.or_eq_true] at hf
    rcases hf with hold | hnew
    · rcases hs.failed hold with hall | ⟨x, hx, hfx⟩
      · exact .inl hall
      · by_cases hxt : x = t
        · subst hxt
          rw [hl] at hfx
          have hfx' : fOk = false := hfx
          exact .inr ⟨x, by rw [Function.update_self], by simp [l', hfx']⟩
        · exact .inr ⟨x, by rw [hother x hxt]; exact hx, by rw [hother x hxt]; exact hfx⟩
    · -- the check just executed returned false
      have hfalse : fOk = true ∧ eval c = false := by simpa using hnew
      exact .inr ⟨t, by rw [Function.update_self], by simp [l', hfalse.1, hfalse.2]⟩
  · dsimp only at hf ⊢
    have hfalse : s.round.failed = false ∧ (fOk && !eval c) = false := by simpa using hf
    -- without an earlier false result the thread's `fOk` is still true
    have hfx : fOk = true := by
      cases hfx : fOk
      · rw [hfOkt hfx] at hfalse
        cases hfalse.1
      · rfl
    intro c' hc'
    rcases Multiset.mem_cons.mp hc' with rfl | hc'
    · simpa [hfx] using hfalse.2
    · exact hs.done_true hfalse.1 c' hc'
  · dsimp only at hf ⊢
    simp only [Bool.or_eq_true] at hf
    rcases hf with hold | hnew
    · obtain ⟨c', hc', hev⟩ := hs.done_false hold
      exact ⟨c', Multiset.mem_cons_of_mem hc', hev⟩
    · have hfalse : fOk = true ∧ eval c = false := by simpa using hnew
      exact ⟨c, Multiset.mem_cons_self c _, hfalse.2⟩

/-- At the top of its next turn a thread folds its `fOk` into `fAllOk` and
its batch out of `nTodo`; set aside as waiting, it owes nothing. -/
theorem Inv.merge {s : CheckSys T W} (hs : Inv eval s) {t : Option W}
    (hrun : (s.q.th t).pc = .running) (hnil : (s.q.th t).vChecks = []) :
    Inv eval ⟨{ s.q with
      fAllOk := s.q.fAllOk && (s.q.th t).fOk
      nTodo := s.q.nTodo - (s.q.th t).nNow
      th := Function.update s.q.th t { s.q.th t with pc := .waiting } }, s.round⟩ := by
  have hpc : ({ s.q.th t with pc := .waiting } : Locals T).pc ≠ .running := by simp
  have hv : ({ s.q.th t with pc := .waiting } : Locals T).vChecks = [] := hnil
  generalize { s.q.th t with pc := .waiting } = l' at hpc hv ⊢
  have howed := sum_apply_update Locals.owed s.q.th t l'
  have hsum := sum_apply_update (fun l : Locals T => (l.vChecks : Multiset T)) s.q.th t l'
  rw [Locals.owed_of_running hrun, Locals.owed_of_not_running hpc, add_zero] at howed
  rw [hnil, hv, Multiset.coe_nil, add_zero, add_zero] at hsum
  have hother : ∀ x, x ≠ t → Function.update s.q.th t l' x = s.q.th x :=
    fun x hx => Function.update_of_ne hx _ _
  refine ⟨?_, fun x hx => ?_, fun x hx => ?_, ?_, fun hf => ?_, fun x hx hf => ?_, fun hf => ?_,
    hs.done_true, hs.done_false⟩
  · show s.q.nTodo - (s.q.th t).nNow = s.q.queue.length + ∑ x, (Function.update s.q.th t l' x).owed
    have := hs.nTodo
    omega
  · dsimp only at hx ⊢
    by_cases hxt : x = t
    · subst hxt
      rw [Function.update_self] at hx
      exact absurd hx hpc
    · rw [hother x hxt] at hx ⊢
      exact hs.nNow_pos x hx
  · dsimp only at hx ⊢
    by_cases hxt : x = t
    · subst hxt
      rw [Function.update_self]
      exact hv
    · rw [hother x hxt] at hx ⊢
      exact hs.vChecks_nil x hx
  · show s.round.added = ↑s.q.queue + ∑ x, ((Function.update s.q.th t l' x).vChecks : Multiset T) +
      s.round.done
    rw [hsum]
    exact hs.added
  · -- a false result folded in came from `fAllOk` or from the thread's `fOk`
    dsimp only at hf
    rcases Bool.and_eq_false_iff.mp hf with hall | hfOk
    · exact hs.fAllOk hall
    · exact hs.fOk t hrun hfOk
  · dsimp only at hx hf
    by_cases hxt : x = t
    · subst hxt
      rw [Function.update_self] at hx
      exact absurd hx hpc
    · rw [hother x hxt] at hx hf
      exact hs.fOk x hx hf
  · dsimp only
    rcases hs.failed hf with hall | ⟨x, hx, hfx⟩
    · exact .inl (by rw [hall, Bool.false_and])
    · by_cases hxt : x = t
      · subst hxt
        exact .inl (by rw [hfx, Bool.and_false])
      · exact .inr ⟨x, by rw [hother x hxt]; exact hx, by rw [hother x hxt]; exact hfx⟩

/-- The wait loop keeps the invariant when it does not return, from a state
where its thread is not running and comes with no checks. -/
theorem Inv.loopHead_none {s : CheckSys T W} (hs : Inv eval s) {t : Option W} {l : Locals T}
    {q' : CCheckQueue T W} (ht : (s.q.th t).pc ≠ .running) (hl : l.vChecks = [])
    (h : s.q.loopHead t l = (q', none)) : Inv eval ⟨q', s.round⟩ := by
  unfold CCheckQueue.loopHead at h
  split at h
  · split_ifs at h
    · cases h
    · -- an empty queue: the thread waits
      cases h
      exact hs.set_idle rfl rfl rfl rfl ht (by simp) hl
  · -- a batch is taken off the back of the queue
    rename_i c cs hq
    cases h
    exact hs.take_batch s.q.batchSize_pos (s.q.batchSize_le hq) ht rfl rfl rfl rfl

/-- **When `Wait` returns,** nothing of the round is queued or running,
`fAllOk` is reset, `nTodo` is zero, the value returned is the conjunction of
the round, and the invariant holds of the new round. -/
theorem Inv.loopHead_some {s : CheckSys T W} (hs : Inv eval s) {t : Option W} {l : Locals T}
    {q' : CCheckQueue T W} {b : Bool} (hl : l.vChecks = []) (h : s.q.loopHead t l = (q', some b)) :
    Inv eval ⟨q', ⟨0, 0, false⟩⟩ ∧ (b = true ↔ ∀ c ∈ s.round.added, eval c = true) ∧
      q'.queue = [] ∧ (∀ x, (q'.th x).pc ≠ .running) ∧ q'.fAllOk = true ∧ q'.nTodo = 0 := by
  unfold CCheckQueue.loopHead at h
  split at h
  · rename_i hq
    split_ifs at h with hret
    · cases h
      have hinv := hs.reset (t := t) hq hret.2 (by simp)
        (show ({ l with pc := .outside } : Locals T).vChecks = [] from hl)
      exact ⟨hinv, hs.fAllOk_iff hq hret.2, hq, hinv.not_running hret.2, rfl, hret.2⟩
    · cases h
  · cases h

omit [DecidableEq W] in
/-- The invariant does not read the counts `nIdle` and `nTotal`. -/
theorem Inv.of_counts {s : CheckSys T W} (hs : Inv eval s) (nIdle nTotal : ℕ) :
    Inv eval ⟨{ s.q with nIdle := nIdle, nTotal := nTotal }, s.round⟩ :=
  ⟨hs.nTodo, hs.nNow_pos, hs.vChecks_nil, hs.added, hs.fAllOk, hs.fOk, hs.failed, hs.done_true,
    hs.done_false⟩

/-- The wait loop of any step, from a state where its thread is not
running: the invariant, of a new round after a return, and the facts of a
return. -/
theorem Inv.of_loopHead {round : Round T} {q₀ q' : CCheckQueue T W} {t : Option W} {l : Locals T}
    {r : Option Bool} (hs : Inv eval ⟨q₀, round⟩) (ht : (q₀.th t).pc ≠ .running) (hl : l.vChecks = [])
    (h : q₀.loopHead t l = (q', r)) :
    Inv eval ⟨q', match r with | some _ => ⟨0, 0, false⟩ | none => round⟩ ∧
      ∀ b, r = some b → (b = true ↔ ∀ c ∈ round.added, eval c = true) ∧
        q'.queue = [] ∧ (∀ x, (q'.th x).pc ≠ .running) ∧ q'.fAllOk = true ∧ q'.nTodo = 0 := by
  cases r with
  | none => exact ⟨hs.loopHead_none ht hl h, fun b hb => nomatch hb⟩
  | some b =>
    obtain ⟨hinv, hret⟩ := hs.loopHead_some hl h
    exact ⟨hinv, fun b' hb' => by cases hb'; exact hret⟩

/-- **Every step keeps the invariant**, and a step in which `Wait` returns
leaves nothing of the round queued or running, with `fAllOk` reset and
`nTodo` zero, and returns the conjunction of the round. -/
theorem Inv.step {s s' : CheckSys T W} {a : Action T W} {r : Option Bool} (hs : Inv eval s)
    (h : s.step eval a = some (s', r)) :
    Inv eval s' ∧ ∀ b, r = some b → (b = true ↔ ∀ c ∈ s.round.added, eval c = true) ∧
      s'.q.queue = [] ∧ (∀ x, (s'.q.th x).pc ≠ .running) ∧ s'.q.fAllOk = true ∧ s'.q.nTodo = 0 := by
  obtain ⟨⟨q', r'⟩, hq, heq⟩ := Option.map_eq_some_iff.mp h
  obtain ⟨rfl, rfl⟩ := Prod.mk.inj heq
  cases a with
  | add vChecks =>
    simp only [CCheckQueue.step] at hq
    split_ifs at hq
    cases hq
    exact ⟨hs.add vChecks, fun b hb => nomatch hb⟩
  | enter t =>
    simp only [CCheckQueue.step] at hq
    split_ifs at hq with hout
    have := (hs.of_counts s.q.nIdle (s.q.nTotal + 1)).of_loopHead (by simp [hout]) rfl (Option.some.inj hq)
    cases r' <;> exact this
  | wake t =>
    simp only [CCheckQueue.step] at hq
    split_ifs at hq with hwait
    have hidle : (s.q.th t).pc ≠ .running := by simp [hwait]
    have := (hs.of_counts (s.q.nIdle - 1) s.q.nTotal).of_loopHead hidle (hs.vChecks_nil t hidle) (Option.some.inj hq)
    cases r' <;> exact this
  | exec t =>
    simp only [CCheckQueue.step] at hq
    split_ifs at hq with hrun
    cases hq
    obtain ⟨c, rest, hc⟩ := List.exists_cons_of_ne_nil hrun.2
    exact ⟨hs.exec hrun.1 hc, fun b hb => nomatch hb⟩
  | next t =>
    simp only [CCheckQueue.step] at hq
    split_ifs at hq with hrun
    have hloop := Option.some.inj hq
    -- a running thread took at least one check, so the turn folds its batch in
    rw [CCheckQueue.next, if_pos (Nat.pos_iff_ne_zero.mp (hs.nNow_pos t hrun.1)),
      ← CCheckQueue.loopHead_update_self _ t { s.q.th t with pc := .waiting }] at hloop
    have := (hs.merge hrun.1 hrun.2).of_loopHead (by simp) hrun.2 hloop
    cases r' <;> exact this

/-- Every reachable state satisfies the invariant. -/
theorem Inv.of_reachable {nBatchSize : ℕ} {s : CheckSys T W} (h : Reachable eval nBatchSize s) :
    Inv eval s := by
  induction h with
  | init => exact Inv.init nBatchSize
  | step _ hstep ih => exact (ih.step hstep).1

end CheckSys

/-- **The check queue computes the conjunction of its checks.**  For any
finite set of workers, any check function and batch size, and any schedule
of any rounds: when `Wait` returns, it returns `true` exactly when every
check the master added in the round returns `true`, nothing of the round is
queued or running, and the next round starts with `fAllOk` true and `nTodo`
zero.  A thread is about to skip a check only after a check of the round
returned `false`. -/
theorem wait_conjunction {T W : Type} [DecidableEq W] [Fintype W] (eval : T → Bool) (nBatchSize : ℕ)
    {s : CheckSys T W} (hs : CheckSys.Reachable eval nBatchSize s) :
    (∀ a s' b, s.step eval a = some (s', some b) →
      (b = true ↔ ∀ c ∈ s.round.added, eval c = true) ∧ s'.q.queue = [] ∧
        (∀ t, (s'.q.th t).pc ≠ .running) ∧ s'.q.fAllOk = true ∧ s'.q.nTodo = 0) ∧
    (∀ t c rest, (s.q.th t).pc = .running → (s.q.th t).vChecks = c :: rest → (s.q.th t).fOk = false →
      s.round.failed = true) := by
  have hinv := CheckSys.Inv.of_reachable hs
  exact ⟨fun a s' b h => (hinv.step h).2 b rfl, fun t _ _ hrun _ hf => hinv.fOk t hrun hf⟩

/-- One worker and a batch size of `128`: the master adds a passing and a
failing check and enters `Wait`.  It takes the failing one first (the queue
is a stack), then the passing one, which it skips. -/
def twoChecks : List (Action Bool (Fin 1)) :=
  [.add [true, false], .enter none, .exec none, .next none, .exec none]

/-- After the schedule `twoChecks`, the master's next turn returns `false`. -/
theorem wait_conjunction_twoChecks :
    ∃ s s', (⟨CCheckQueue.init 128, ⟨0, 0, false⟩⟩ : CheckSys Bool (Fin 1)).run id twoChecks = some s ∧
      s.step id (.next none) = some (s', some false) ∧ ¬∀ c ∈ s.round.added, id c = true := by
  have hval : (((⟨CCheckQueue.init 128, ⟨0, 0, false⟩⟩ : CheckSys Bool (Fin 1)).run id twoChecks).bind
      fun s => s.step id (.next none)).map Prod.snd = some (some false) := by decide
  obtain ⟨s, hrun⟩ : ∃ s,
      (⟨CCheckQueue.init 128, ⟨0, 0, false⟩⟩ : CheckSys Bool (Fin 1)).run id twoChecks = some s :=
    ⟨_, rfl⟩
  rw [hrun, Option.bind_some, Option.map_eq_some_iff] at hval
  obtain ⟨⟨s', r⟩, hstep, hr⟩ := hval
  cases hr
  have h0 : CheckSys.Reachable id 128 (⟨CCheckQueue.init 128, ⟨0, 0, false⟩⟩ : CheckSys Bool (Fin 1)) :=
    .init
  exact ⟨s, s', hrun, hstep, fun hall =>
    Bool.false_ne_true (((wait_conjunction id 128 (h0.run hrun)).1 _ _ _ hstep).1.mpr hall)⟩

end Veribase
