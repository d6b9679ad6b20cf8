import Veribase.Script.Checked

/-!
# The limits of `EvalScript`

`EvalScript` bounds what a script may do.  Its loop reads one instruction a
turn, and every instruction takes a byte, so the script's length bounds the
turns (`evalLoop_fuel_eq`).  Every turn that completes leaves at most
`MAX_OPS_PER_SCRIPT` counted opcodes, `OP_CHECKMULTISIG` counting its keys,
and at most `MAX_STACK_SIZE` elements on the stack and the altstack together;
and no element on them is larger than `MAX_SCRIPT_ELEMENT_SIZE` bytes unless
it is one of the stack the script started from (`Bounded`, kept by every turn
in `evalStep_bounded`).  A turn is `EvalTurn`, one pass of the loop's body.

The elements a turn creates are a push (refused above the limit), a script
number (at most nine bytes), a truth value, or a digest, whose size the
source fixes; every other element is a copy of one already there.
`evalScript_within_bounds` gathers these with `evalScript_computes`, which
says that no access of the interpreter falls outside its stacks.
-/

namespace Veribase

open Checks FaultFree

/-- The digests have the sizes the source allocates for them: `vchHash`
holds 20 bytes for `OP_RIPEMD160`, `OP_SHA1` and `OP_HASH160`, 32 for
`OP_SHA256` and `OP_HASH256`. -/
structure ScriptHashes.DigestSizes (H : ScriptHashes) : Prop where
  ripemd160 : ∀ v, (H.ripemd160 v).length = 20
  sha1 : ∀ v, (H.sha1 v).length = 20
  sha256 : ∀ v, (H.sha256 v).length = 32
  hash160 : ∀ v, (H.hash160 v).length = 20
  hash256 : ∀ v, (H.hash256 v).length = 32

/-! ## The elements a turn creates -/

theorem length_minimalLEBytes_le : ∀ fuel n, (minimalLEBytes fuel n).length ≤ fuel
  | 0, _ => Nat.le_refl 0
  | fuel + 1, n => by
    unfold minimalLEBytes
    split
    · simp
    · simpa using length_minimalLEBytes_le fuel (n / 256)

/-- A script number takes at most nine bytes: eight of magnitude and one for
the sign. -/
theorem length_scriptNumSerialize_le (value : Int) : (scriptNumSerialize value).length ≤ 9 := by
  have h := length_minimalLEBytes_le 8 value.natAbs
  unfold scriptNumSerialize
  dsimp only
  generalize minimalLEBytes 8 value.natAbs = result at h ⊢
  cases result.getLast? with
  | none => simp
  | some last =>
    dsimp only
    split_ifs <;> simp <;> omega

/-- Every element of `s` is one of `I`, or has at most
`MAX_SCRIPT_ELEMENT_SIZE` bytes. -/
def Within (I s : Stack) : Prop := ∀ v ∈ s, v ∈ I ∨ v.length ≤ MAX_SCRIPT_ELEMENT_SIZE

section Within

variable {I s t : Stack} {v : List UInt8}

@[simp] theorem within_nil (I : Stack) : Within I [] := by
  simp [Within]

@[simp] theorem within_append : Within I (s ++ t) ↔ Within I s ∧ Within I t := by
  simp only [Within, List.mem_append]
  constructor
  · intro h
    exact ⟨fun v hv => h v (.inl hv), fun v hv => h v (.inr hv)⟩
  · rintro ⟨hs, ht⟩ v (hv | hv)
    · exact hs v hv
    · exact ht v hv

@[simp] theorem within_cons :
    Within I (v :: s) ↔ (v ∈ I ∨ v.length ≤ MAX_SCRIPT_ELEMENT_SIZE) ∧ Within I s := by
  simp [Within]

theorem Within.sublist (h : Within I s) (hts : t.Sublist s) : Within I t :=
  fun v hv => h v (hts.subset hv)

theorem Within.dropLast (h : Within I s) : Within I s.dropLast :=
  h.sublist (List.dropLast_sublist s)

theorem Within.eraseIdx (h : Within I s) (i : Nat) : Within I (s.eraseIdx i) :=
  h.sublist (List.eraseIdx_sublist s i)

theorem Within.take (h : Within I s) (i : Nat) : Within I (s.take i) :=
  h.sublist (List.take_sublist i s)

theorem Within.drop (h : Within I s) (i : Nat) : Within I (s.drop i) :=
  h.sublist (List.drop_sublist i s)

/-- A read of the stack is one of its elements, or the empty vector. -/
theorem Within.stacktop (h : Within I s) (n : Nat) :
    stacktop s n ∈ I ∨ (stacktop s n).length ≤ MAX_SCRIPT_ELEMENT_SIZE := by
  unfold Veribase.stacktop
  by_cases hn : s.length - n < s.length
  · rw [List.getD_eq_getElem _ _ hn]
    exact h _ (List.getElem_mem hn)
  · rw [List.getD_eq_default _ _ (by omega)]
    exact .inr (Nat.zero_le _)

theorem Within.set (h : Within I s) (hv : v ∈ I ∨ v.length ≤ MAX_SCRIPT_ELEMENT_SIZE) (i : Nat) :
    Within I (s.set i v) := by
  intro w hw
  rcases List.mem_or_eq_of_mem_set hw with hw | rfl
  · exact h w hw
  · exact hv

theorem Within.swapTop (h : Within I s) (i j : Nat) : Within I (swapTop s i j) :=
  (h.set (h.stacktop j) _).set (h.stacktop i) _

theorem Within.insertIdx (h : Within I s) (hv : v ∈ I ∨ v.length ≤ MAX_SCRIPT_ELEMENT_SIZE)
    (i : Nat) : Within I (s.insertIdx i v) := by
  by_cases hi : i ≤ s.length
  · intro w hw
    rcases (List.mem_insertIdx hi).mp hw with rfl | hw
    · exact hv
    · exact h w hw
  · rw [List.insertIdx_of_length_lt (by omega)]
    exact h

theorem small_scriptNumSerialize (value : Int) :
    (scriptNumSerialize value).length ≤ MAX_SCRIPT_ELEMENT_SIZE :=
  (length_scriptNumSerialize_le value).trans (by decide)

theorem small_vchBool (p : Prop) [Decidable p] :
    (if p then vchTrue else vchFalse).length ≤ MAX_SCRIPT_ELEMENT_SIZE := by
  split_ifs <;> decide

/-- The digest a crypto opcode pushes fits in a stack element. -/
theorem ScriptHashes.DigestSizes.small {H : ScriptHashes} (hH : H.DigestSizes) (opcode : UInt8)
    (vch : List UInt8) :
    (if opcode == OP_RIPEMD160 then H.ripemd160 vch
      else if opcode == OP_SHA1 then H.sha1 vch
      else if opcode == OP_SHA256 then H.sha256 vch
      else if opcode == OP_HASH160 then H.hash160 vch
      else H.hash256 vch).length ≤ MAX_SCRIPT_ELEMENT_SIZE := by
  split_ifs <;>
    simp only [hH.ripemd160, hH.sha1, hH.sha256, hH.hash160, hH.hash256] <;> decide

end Within

/-! ## What a completed turn keeps -/

/-- What every completed turn keeps, with `I` the stack the script started
from: the counted opcodes within their limit, and on both stacks no element
larger than `MAX_SCRIPT_ELEMENT_SIZE` bytes besides those of `I`. -/
structure Bounded (I : Stack) (st : EvalState) : Prop where
  nOpCount : st.nOpCount ≤ MAX_OPS_PER_SCRIPT
  stack : Within I st.stack
  altstack : Within I st.altstack

section Turn

variable {H : ScriptHashes} {checker : SignatureChecker} {flags : UInt32} {sigversion : SigVersion}
  {I : Stack} {st : EvalState}

theorem opIf_bounded (hst : Bounded I st) (opcode : UInt8) (fExec : Bool) :
    Ensures (opIf flags sigversion opcode fExec st) (Bounded I) := by
  unfold opIf
  refine Ensures.ite (fun _ => ?_) fun _ => ensures_pure ⟨hst.nOpCount, hst.stack, hst.altstack⟩
  exact ensures_rejectIf_bind fun _ => ensures_rejectIf_bind fun _ => ensures_rejectIf_bind fun _ =>
    ensures_pure ⟨hst.nOpCount, hst.stack.dropLast, hst.altstack⟩

theorem opPickRoll_bounded (hst : Bounded I st) (fRequireMinimal : Bool) (opcode : UInt8) :
    Ensures (opPickRoll fRequireMinimal opcode st) (Bounded I) := by
  unfold opPickRoll
  refine ensures_rejectIf_bind fun _ => ensures_bind fun _ => ensures_rejectIf_bind fun _ =>
    ensures_pure ⟨hst.nOpCount, ?_, hst.altstack⟩
  -- the popped stack, less the element rolled, and a copy of the element read
  have hs := hst.stack.dropLast
  simp only [within_append, within_cons, within_nil, and_true]
  refine ⟨?_, hs.stacktop _⟩
  split
  · exact hs.eraseIdx _
  · exact hs

theorem opUnary_bounded (hst : Bounded I st) (fRequireMinimal : Bool) (opcode : UInt8) :
    Ensures (opUnary fRequireMinimal opcode st) (Bounded I) := by
  unfold opUnary
  exact ensures_rejectIf_bind fun _ => ensures_bind fun _ => ensures_pure
    ⟨hst.nOpCount, by simp [hst.stack.dropLast, small_scriptNumSerialize], hst.altstack⟩

theorem opBinary_bounded (hst : Bounded I st) (fRequireMinimal : Bool) (opcode : UInt8) :
    Ensures (opBinary fRequireMinimal opcode st) (Bounded I) := by
  unfold opBinary
  have hs : Within I st.stack.dropLast.dropLast := hst.stack.dropLast.dropLast
  refine ensures_rejectIf_bind fun _ => ensures_bind fun _ => ensures_bind fun _ => ?_
  refine Ensures.ite (fun _ => Ensures.ite (fun _ => ensures_pure ?_) fun _ => ensures_throw _ _)
    fun _ => ensures_pure ?_
  · exact ⟨hst.nOpCount, by simpa using hs, hst.altstack⟩
  · exact ⟨hst.nOpCount, by simp [hs, small_scriptNumSerialize], hst.altstack⟩

theorem opWithin_bounded (hst : Bounded I st) (fRequireMinimal : Bool) :
    Ensures (opWithin fRequireMinimal st) (Bounded I) := by
  unfold opWithin
  exact ensures_rejectIf_bind fun _ => ensures_bind fun _ => ensures_bind fun _ => ensures_bind
    fun _ => ensures_pure
      ⟨hst.nOpCount, by simp [hst.stack.dropLast.dropLast.dropLast, small_vchBool], hst.altstack⟩

theorem opCheckSig_bounded (hst : Bounded I st) (opcode : UInt8) :
    Ensures (opCheckSig H checker flags sigversion opcode st) (Bounded I) := by
  unfold opCheckSig
  have hs : Within I st.stack.dropLast.dropLast := hst.stack.dropLast.dropLast
  refine ensures_rejectIf_bind fun _ => ensures_bind fun _ => ensures_bind fun _ =>
    ensures_bind fun _ => ensures_rejectIf_bind fun _ => ?_
  refine Ensures.ite (fun _ => Ensures.ite (fun _ => ensures_pure ?_) fun _ => ensures_throw _ _)
    fun _ => ensures_pure ?_
  · exact ⟨hst.nOpCount, by simpa using hs, hst.altstack⟩
  · exact ⟨hst.nOpCount, by simp [hs, small_vchBool], hst.altstack⟩

/-- The clean-up only pops. -/
theorem cleanupMultiSig_within (fSuccess : Bool) :
    ∀ i ikey2 (stack : Stack), Within I stack →
      Ensures (cleanupMultiSig flags fSuccess i ikey2 stack) (Within I)
  | 0, _, _, h => ensures_pure h
  | i + 1, ikey2, stack, h => by
    unfold cleanupMultiSig
    exact ensures_rejectIf_bind fun _ => cleanupMultiSig_within fSuccess i _ _ h.dropLast

theorem opCheckMultiSig_bounded (hst : Bounded I st) (opcode : UInt8) :
    Ensures (opCheckMultiSig H checker flags sigversion opcode st) (Bounded I) := by
  unfold opCheckMultiSig
  refine ensures_rejectIf_bind fun _ => ensures_bind fun _ => ensures_rejectIf_bind fun _ =>
    ensures_rejectIf_bind fun hops => ?_
  -- the count with the keys added is what the opcode leaves, and it passed the limit
  simp only [decide_eq_false_iff_not, not_lt] at hops
  refine ensures_rejectIf_bind fun _ => ensures_bind fun _ => ensures_rejectIf_bind fun _ =>
    ensures_rejectIf_bind fun _ => ensures_bind fun _ => ensures_bind fun _ => ?_
  refine (cleanupMultiSig_within _ _ _ _ hst.stack).bind fun stack hstack => ?_
  refine ensures_rejectIf_bind fun _ => ensures_rejectIf_bind fun _ => ?_
  refine Ensures.ite (fun _ => Ensures.ite (fun _ => ensures_pure ?_) fun _ => ensures_throw _ _)
    fun _ => ensures_pure ?_
  · exact ⟨hops, by simpa using hstack.dropLast, hst.altstack⟩
  · exact ⟨hops, by simp [hstack.dropLast, small_vchBool], hst.altstack⟩

/-- **Every case of the `switch` keeps the bounds.** -/
theorem execOp_bounded (hH : H.DigestSizes) (hst : Bounded I st) (opcode : UInt8) (pc : CScript)
    (fExec : Bool) : Ensures (execOp H checker flags sigversion opcode pc fExec st) (Bounded I) := by
  unfold execOp
  -- take the tests of the switch one by one, keeping each case's body for the end
  repeat (refine Ensures.ite (fun _ => ?_) fun _ => ?_; rotate_left)
  all_goals first
    | with_reducible exact ensures_throw _ _
    | with_reducible exact ensures_pure hst
    | with_reducible exact ensures_bind fun _ => ensures_pure hst
    | with_reducible exact ensures_rejectIf_bind fun _ => ensures_pure hst
    | with_reducible exact opIf_bounded hst _ _
    | with_reducible exact opPickRoll_bounded hst _ _
    | with_reducible exact opUnary_bounded hst _ _
    | with_reducible exact opBinary_bounded hst _ _
    | with_reducible exact opWithin_bounded hst _
    | with_reducible exact opCheckSig_bounded hst _
    | with_reducible exact opCheckMultiSig_bounded hst _
    | with_reducible exact ensures_rejectIf_bind fun _ => ensures_pure ⟨hst.nOpCount,
        within_append.mpr ⟨hst.stack.dropLast, within_cons.mpr ⟨.inr (hH.small _ _), within_nil I⟩⟩,
        hst.altstack⟩
    | skip
  -- the inline cases move copies of elements between the stacks or push small ones
  all_goals
    (try with_reducible refine ensures_rejectIf_bind fun _ => ?_)
    repeat' (first
      | with_reducible exact ensures_throw _ _
      | refine Ensures.ite (fun _ => ?_) fun _ => ?_)
    all_goals
      refine ensures_pure ⟨hst.nOpCount, ?_, ?_⟩ <;>
        simp [hst.stack, hst.altstack, Within.dropLast, Within.take, Within.drop, Within.eraseIdx,
          Within.swapTop, Within.insertIdx, Within.stacktop, small_scriptNumSerialize, small_vchBool,
          apply_ite (Within I)]

/-- **A turn keeps the bounds**, and leaves at most `MAX_STACK_SIZE` elements. -/
theorem evalStep_bounded (hH : H.DigestSizes) (hst : Bounded I st) (opcode : UInt8)
    (vchPushValue : List UInt8) (pc : CScript) :
    Ensures (evalStep H checker flags sigversion opcode vchPushValue pc st)
      (fun st' => Bounded I st' ∧ st'.stack.length + st'.altstack.length ≤ MAX_STACK_SIZE) := by
  unfold evalStep
  refine ensures_rejectIf_bind fun hpush => ensures_rejectIf_bind fun hops => ?_
  refine ensures_rejectIf_bind fun _ => ensures_rejectIf_bind fun _ => ?_
  simp only [decide_eq_false_iff_not, not_lt] at hpush
  -- the counter, one up for a counted opcode, is still within the limit
  have hcount : Bounded I
      { st with nOpCount := if opcode > OP_16 then st.nOpCount + 1 else st.nOpCount } := by
    refine ⟨?_, hst.stack, hst.altstack⟩
    split_ifs with h16
    · simpa [h16] using hops
    · exact hst.nOpCount
  refine Ensures.bind (P := Bounded I) ?_ fun st' hst' =>
    ensures_rejectIf_bind fun hsize => ensures_pure ⟨hst', by simpa using hsize⟩
  -- a push, a case of the switch, or an instruction skipped in a false branch
  refine Ensures.ite (fun _ => ensures_rejectIf_bind fun _ =>
    ensures_pure ⟨hcount.nOpCount, by simp [hcount.stack, hpush], hcount.altstack⟩) fun _ => ?_
  exact Ensures.ite (fun _ => execOp_bounded hH hcount _ _ _) fun _ => ensures_pure hcount

end Turn

/-! ## Runs of the loop -/

section Run

variable {H : ScriptHashes} {checker : SignatureChecker} {flags : UInt32} {sigversion : SigVersion}

/-- A turn of `EvalScript`'s loop that completes: the instruction at the head
of the script is read and runs without an error. -/
def EvalTurn (H : ScriptHashes) (checker : SignatureChecker) (flags : UInt32)
    (sigversion : SigVersion) (s s' : CScript × EvalState) : Prop :=
  ∃ opcode vchPushValue, getOp.run s.1 = .ok ((opcode, vchPushValue), s'.1) ∧
    evalStep H checker flags sigversion opcode vchPushValue s'.1 s.2 = .ok s'.2

/-- **The script's length is fuel enough**: every instruction takes a byte,
so on any fuel at least as long as the script the loop ends the same way. -/
theorem evalLoop_fuel_eq :
    ∀ fuel fuel' pc st, pc.length ≤ fuel → pc.length ≤ fuel' →
      evalLoop H checker flags sigversion fuel pc st =
        evalLoop H checker flags sigversion fuel' pc st
  | 0, fuel', pc, st, h, _ => by
    rw [List.eq_nil_of_length_eq_zero (Nat.le_zero.mp h)]
    cases fuel' <;> rfl
  | fuel + 1, 0, pc, st, _, h => by
    rw [List.eq_nil_of_length_eq_zero (Nat.le_zero.mp h)]
    rfl
  | _ + 1, _ + 1, [], _, _, _ => rfl
  | fuel + 1, fuel' + 1, b :: pc, st, h, h' => by
    unfold evalLoop
    split
    · rfl
    · next opcode vchPushValue rest hop =>
      -- the instruction read takes at least its opcode byte
      have hrest := consumes_getOp _ _ _ hop
      simp only [List.length_cons] at h h' hrest
      congr 1
      funext st'
      exact evalLoop_fuel_eq fuel fuel' rest st' (by omega) (by omega)

/-- A completed turn keeps the bounds and leaves at most `MAX_STACK_SIZE`
elements. -/
theorem EvalTurn.bounded (hH : H.DigestSizes) {I : Stack} {s s' : CScript × EvalState}
    (hs : Bounded I s.2) (h : EvalTurn H checker flags sigversion s s') :
    Bounded I s'.2 ∧ s'.2.stack.length + s'.2.altstack.length ≤ MAX_STACK_SIZE := by
  obtain ⟨opcode, vchPushValue, -, hstep⟩ := h
  exact evalStep_bounded hH hs opcode vchPushValue s'.1 _ hstep

/-- Every state reached from the start of `EvalScript` is bounded, with the
stack it was given as the initial one. -/
theorem reached_bounded (hH : H.DigestSizes) (stack : Stack) (script : CScript)
    {s : CScript × EvalState}
    (h : Relation.ReflTransGen (EvalTurn H checker flags sigversion)
      (script, ⟨stack, [], [], 0, script⟩) s) : Bounded stack s.2 := by
  induction h with
  | refl => exact ⟨Nat.zero_le _, fun v hv => .inl hv, within_nil stack⟩
  | tail _ hturn ih => exact (hturn.bounded hH ih).1

end Run

/-- **`EvalScript` keeps within its bounds.**  For every script, stack, flag
set, signature version and checker, with digests of the sizes the source
gives them: the interpreter with its stack accesses checked never faults and
ends as `evalScript` does, so no access falls outside a stack; the script's
length is fuel enough for the loop; and every turn that completes leaves at
most `MAX_OPS_PER_SCRIPT` counted opcodes, at most `MAX_STACK_SIZE` elements
on the two stacks, and no element larger than `MAX_SCRIPT_ELEMENT_SIZE` bytes
besides those of the initial stack. -/
theorem evalScript_within_bounds {H : ScriptHashes} (hH : H.DigestSizes)
    (checker : SignatureChecker) (stack : Stack) (script : CScript) (flags : UInt32)
    (sigversion : SigVersion) :
    Computes (Checked.evalScript H checker stack script flags sigversion)
        (evalScript H checker stack script flags sigversion) ∧
      (∀ fuel, script.length ≤ fuel →
        evalLoop H checker flags sigversion fuel script ⟨stack, [], [], 0, script⟩ =
          evalLoop H checker flags sigversion script.length script ⟨stack, [], [], 0, script⟩) ∧
      ∀ s s', Relation.ReflTransGen (EvalTurn H checker flags sigversion)
          (script, ⟨stack, [], [], 0, script⟩) s →
        EvalTurn H checker flags sigversion s s' →
          s'.2.nOpCount ≤ MAX_OPS_PER_SCRIPT ∧
            s'.2.stack.length + s'.2.altstack.length ≤ MAX_STACK_SIZE ∧
            ∀ v ∈ s'.2.stack ++ s'.2.altstack, v ∈ stack ∨ v.length ≤ MAX_SCRIPT_ELEMENT_SIZE := by
  refine ⟨Checked.evalScript_computes H checker stack script flags sigversion,
    fun fuel hfuel => evalLoop_fuel_eq _ _ _ _ hfuel le_rfl, fun s s' hs hturn => ?_⟩
  obtain ⟨hbounded, hsize⟩ := hturn.bounded hH (reached_bounded hH stack script hs)
  exact ⟨hbounded.nOpCount, hsize, within_append.mpr ⟨hbounded.stack, hbounded.altstack⟩⟩

/-- Digests of the sizes the source allocates, all zero. -/
def zeroDigests : ScriptHashes :=
  ⟨fun _ => List.replicate 20 0, fun _ => List.replicate 20 0, fun _ => List.replicate 32 0,
    fun _ => List.replicate 20 0, fun _ => List.replicate 32 0, fun _ => true⟩

theorem evalScript_within_bounds_sha256 :
    zeroDigests.DigestSizes ∧
      (Computes
          (Checked.evalScript zeroDigests ⟨fun _ _ _ _ => true, fun _ => true, fun _ => true⟩
            [[1, 2, 3]] [OP_DUP, OP_SHA256, OP_EQUAL] 0 .BASE)
          (evalScript zeroDigests ⟨fun _ _ _ _ => true, fun _ => true, fun _ => true⟩
            [[1, 2, 3]] [OP_DUP, OP_SHA256, OP_EQUAL] 0 .BASE) ∧
        (∀ fuel, [OP_DUP, OP_SHA256, OP_EQUAL].length ≤ fuel →
          evalLoop zeroDigests ⟨fun _ _ _ _ => true, fun _ => true, fun _ => true⟩ 0 .BASE fuel
              [OP_DUP, OP_SHA256, OP_EQUAL] ⟨[[1, 2, 3]], [], [], 0, [OP_DUP, OP_SHA256, OP_EQUAL]⟩ =
            evalLoop zeroDigests ⟨fun _ _ _ _ => true, fun _ => true, fun _ => true⟩ 0 .BASE 3
              [OP_DUP, OP_SHA256, OP_EQUAL] ⟨[[1, 2, 3]], [], [], 0, [OP_DUP, OP_SHA256, OP_EQUAL]⟩) ∧
        ∀ s s', Relation.ReflTransGen
            (EvalTurn zeroDigests ⟨fun _ _ _ _ => true, fun _ => true, fun _ => true⟩ 0 .BASE)
            ([OP_DUP, OP_SHA256, OP_EQUAL], ⟨[[1, 2, 3]], [], [], 0, [OP_DUP, OP_SHA256, OP_EQUAL]⟩)
            s →
          EvalTurn zeroDigests ⟨fun _ _ _ _ => true, fun _ => true, fun _ => true⟩ 0 .BASE s s' →
            s'.2.nOpCount ≤ MAX_OPS_PER_SCRIPT ∧
              s'.2.stack.length + s'.2.altstack.length ≤ MAX_STACK_SIZE ∧
              ∀ v ∈ s'.2.stack ++ s'.2.altstack, v ∈ [[1, 2, 3]] ∨
                v.length ≤ MAX_SCRIPT_ELEMENT_SIZE) := by
  have hH : zeroDigests.DigestSizes :=
    ⟨fun _ => List.length_replicate, fun _ => List.length_replicate,
      fun _ => List.length_replicate, fun _ => List.length_replicate,
      fun _ => List.length_replicate⟩
  exact ⟨hH, evalScript_within_bounds hH _ _ _ _ _⟩

end Veribase
