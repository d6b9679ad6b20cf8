import Veribase.Script.Eval
import Veribase.Lib.Relax

/-!
# Script flags are soft forks

Every `SCRIPT_VERIFY_*` flag only adds checks: a spend that passes under a
set of flags passes under each subset of it that satisfies `VerifyScript`'s
own assertions (`verifyScript_subset_flags`).  `FlagsWithin F G` says that
every flag test passing on `F` passes on `G`, which is what `F ⊆ G` gives
(`flagsWithin_of_subset`).

The proof follows the interpreter.  Each helper that reads a flag relaxes:
under `F` it succeeds, with the same value, wherever it does under `G`.  Then
every case of the opcode switch does (`execOp_relaxes`), one turn of the loop
(`evalStep_relaxes`), the loop by induction on its fuel (`evalLoop_relaxes`),
and the witness program; together they make `interpreterEnv` relax
(`interpreterEnv_relaxes`).  `VerifyScript` changes its path with
`SCRIPT_VERIFY_WITNESS`: under a subset that keeps it, the path is the same
and every step relaxes; under one without it, the final checks are void and
the steps before them only have to succeed (`verifyScript_relaxes`).
-/

namespace Veribase

open Checks Relax

/-! ## Flag sets -/

/-- Every flag test that passes on `F` passes on `G`. -/
def FlagsWithin (F G : UInt32) : Prop := ∀ x, hasFlag F x = true → hasFlag G x = true

theorem flagsWithin_of_subset {F G : UInt32} (hsub : F &&& G = F) : FlagsWithin F G := by
  intro x hF
  simp only [hasFlag, bne_iff_ne, ne_eq] at hF ⊢
  intro hG
  apply hF
  rw [← hsub, UInt32.and_assoc, hG, UInt32.and_zero]

/-- A conjunction gets weaker with its left part. -/
theorem and_weaken_left {a b c : Bool} (hab : a = true → b = true) :
    (a && c) = true → (b && c) = true := by
  simp only [Bool.and_eq_true]
  intro h
  exact ⟨hab h.1, h.2⟩

/-- A conjunction gets weaker with its right part. -/
theorem and_weaken_right {a b c : Bool} (hab : a = true → b = true) :
    (c && a) = true → (c && b) = true := by
  simp only [Bool.and_eq_true]
  intro h
  exact ⟨h.1, hab h.2⟩

/-- The minimal-encoding test only refuses. -/
theorem scriptNum_relaxes {a b : Bool} (hab : a = true → b = true) (vch : List UInt8) (n : Nat) :
    Relaxes (scriptNum vch a n) (scriptNum vch b n) := by
  unfold scriptNum
  refine Relaxes.ite (fun _ => Relaxes.refl _) fun _ => ?_
  exact relaxes_ite_error _ _ (and_weaken_left hab) (Relaxes.refl _)

/-! ## The numeric opcodes -/

section Numeric

variable {a b : Bool} (hab : a = true → b = true)
include hab

theorem opPickRoll_relaxes (opcode : UInt8) (st : EvalState) :
    Relaxes (opPickRoll a opcode st) (opPickRoll b opcode st) :=
  (Relaxes.refl _).bind fun _ => (scriptNum_relaxes hab _ _).bind fun _ => Relaxes.refl _

theorem opUnary_relaxes (opcode : UInt8) (st : EvalState) :
    Relaxes (opUnary a opcode st) (opUnary b opcode st) :=
  (Relaxes.refl _).bind fun _ => (scriptNum_relaxes hab _ _).bind fun _ => Relaxes.refl _

theorem opBinary_relaxes (opcode : UInt8) (st : EvalState) :
    Relaxes (opBinary a opcode st) (opBinary b opcode st) :=
  (Relaxes.refl _).bind fun _ => (scriptNum_relaxes hab _ _).bind fun _ =>
    (scriptNum_relaxes hab _ _).bind fun _ => Relaxes.refl _

theorem opWithin_relaxes (st : EvalState) : Relaxes (opWithin a st) (opWithin b st) :=
  (Relaxes.refl _).bind fun _ => (scriptNum_relaxes hab _ _).bind fun _ =>
    (scriptNum_relaxes hab _ _).bind fun _ => (scriptNum_relaxes hab _ _).bind fun _ =>
      Relaxes.refl _

end Numeric

/-! ## The checks of the interpreter -/

section Relaxation

variable {H : ScriptHashes} {checker : SignatureChecker} {F G : UInt32} (hFG : FlagsWithin F G)
include hFG

theorem checkSignatureEncoding_relaxes (vchSig : List UInt8) :
    Relaxes (checkSignatureEncoding H vchSig F) (checkSignatureEncoding H vchSig G) := by
  unfold checkSignatureEncoding
  refine Relaxes.ite (fun _ => Relaxes.refl _) fun _ => ?_
  refine (relaxes_rejectIf _ _ (and_weaken_left (hFG _))).bind fun _ => ?_
  refine Relaxes.bind ?_ fun _ => relaxes_rejectIf _ _ (and_weaken_left (hFG _))
  -- `IsLowDERSignature` runs under `F` only where it runs under `G`
  cases hlow : hasFlag F SCRIPT_VERIFY_LOW_S with
  | true => rw [hFG _ hlow]
  | false => exact relaxes_pure_unit _

theorem checkPubKeyEncoding_relaxes (vchPubKey : List UInt8) (sigversion : SigVersion) :
    Relaxes (checkPubKeyEncoding vchPubKey F sigversion)
      (checkPubKeyEncoding vchPubKey G sigversion) :=
  (relaxes_rejectIf _ _ (and_weaken_left (hFG _))).bind fun _ =>
    relaxes_rejectIf _ _ (and_weaken_left (and_weaken_left (hFG _)))

theorem dropSignature_relaxes (sigversion : SigVersion) (scriptCode : CScript)
    (vchSig : List UInt8) :
    Relaxes (dropSignature F sigversion scriptCode vchSig)
      (dropSignature G sigversion scriptCode vchSig) := by
  unfold dropSignature
  refine Relaxes.ite (fun _ => ?_) fun _ => Relaxes.refl _
  obtain ⟨scriptCode', found⟩ := findAndDelete scriptCode (pushData vchSig)
  exact (relaxes_rejectIf _ _ (and_weaken_right (hFG _))).bind fun _ => Relaxes.refl _

theorem checkMultiSigLoop_relaxes (sigversion : SigVersion) (stack : Stack) (scriptCode : CScript) :
    ∀ nKeysCount isig ikey nSigsCount,
      Relaxes (checkMultiSigLoop H checker F sigversion stack scriptCode isig ikey nSigsCount nKeysCount)
        (checkMultiSigLoop H checker G sigversion stack scriptCode isig ikey nSigsCount nKeysCount)
  | 0, _, _, _ => Relaxes.refl _
  | nKeysCount + 1, isig, ikey, nSigsCount => by
    unfold checkMultiSigLoop
    refine Relaxes.ite (fun _ => Relaxes.refl _) fun _ => ?_
    refine (checkSignatureEncoding_relaxes hFG _).bind fun _ => ?_
    refine (checkPubKeyEncoding_relaxes hFG _ _).bind fun _ => ?_
    refine Relaxes.ite (fun _ => Relaxes.refl _) fun _ => ?_
    exact checkMultiSigLoop_relaxes sigversion stack scriptCode nKeysCount _ _ _

theorem cleanupMultiSig_relaxes (fSuccess : Bool) :
    ∀ i ikey2 stack, Relaxes (cleanupMultiSig F fSuccess i ikey2 stack)
      (cleanupMultiSig G fSuccess i ikey2 stack)
  | 0, _, _ => Relaxes.refl _
  | i + 1, ikey2, stack =>
    (relaxes_rejectIf _ _ (and_weaken_left (and_weaken_left (and_weaken_right (hFG _))))).bind
      fun _ => cleanupMultiSig_relaxes fSuccess i (ikey2 - 1) stack.dropLast

/-- Without its flag `OP_CHECKLOCKTIMEVERIFY` is a `NOP2`, which passes
whatever the check does. -/
theorem opCheckLockTimeVerify_relaxes (stack : Stack) :
    Relaxes (opCheckLockTimeVerify checker F stack) (opCheckLockTimeVerify checker G stack) := by
  unfold opCheckLockTimeVerify
  cases hcltv : hasFlag F SCRIPT_VERIFY_CHECKLOCKTIMEVERIFY with
  | false => exact relaxes_pure_unit _
  | true =>
    rw [hFG _ hcltv]
    exact (Relaxes.refl _).bind fun _ => (scriptNum_relaxes (hFG _) _ _).bind fun _ =>
      Relaxes.refl _

/-- Without its flag `OP_CHECKSEQUENCEVERIFY` is a `NOP3`. -/
theorem opCheckSequenceVerify_relaxes (stack : Stack) :
    Relaxes (opCheckSequenceVerify checker F stack) (opCheckSequenceVerify checker G stack) := by
  unfold opCheckSequenceVerify
  cases hcsv : hasFlag F SCRIPT_VERIFY_CHECKSEQUENCEVERIFY with
  | false => exact relaxes_pure_unit _
  | true =>
    rw [hFG _ hcsv]
    exact (Relaxes.refl _).bind fun _ => (scriptNum_relaxes (hFG _) _ _).bind fun _ =>
      Relaxes.refl _

theorem opIf_relaxes (sigversion : SigVersion) (opcode : UInt8) (fExec : Bool) (st : EvalState) :
    Relaxes (opIf F sigversion opcode fExec st) (opIf G sigversion opcode fExec st) := by
  unfold opIf
  refine Relaxes.ite (fun _ => ?_) fun _ => Relaxes.refl _
  refine (Relaxes.refl _).bind fun _ => ?_
  -- the two `MINIMALIF` checks
  refine (relaxes_rejectIf _ _ (and_weaken_left (and_weaken_right (hFG _)))).bind fun _ => ?_
  exact (relaxes_rejectIf _ _ (and_weaken_left (and_weaken_left (and_weaken_right (hFG _))))).bind
    fun _ => Relaxes.refl _

theorem opCheckSig_relaxes (sigversion : SigVersion) (opcode : UInt8) (st : EvalState) :
    Relaxes (opCheckSig H checker F sigversion opcode st)
      (opCheckSig H checker G sigversion opcode st) := by
  unfold opCheckSig
  refine (Relaxes.refl _).bind fun _ => ?_
  refine (dropSignature_relaxes hFG _ _ _).bind fun _ => ?_
  refine (checkSignatureEncoding_relaxes hFG _).bind fun _ => ?_
  refine (checkPubKeyEncoding_relaxes hFG _ _).bind fun _ => ?_
  exact (relaxes_rejectIf _ _ (and_weaken_left (and_weaken_right (hFG _)))).bind fun _ =>
    Relaxes.refl _

theorem opCheckMultiSig_relaxes (sigversion : SigVersion) (opcode : UInt8) (st : EvalState) :
    Relaxes (opCheckMultiSig H checker F sigversion opcode st)
      (opCheckMultiSig H checker G sigversion opcode st) := by
  unfold opCheckMultiSig
  refine (Relaxes.refl _).bind fun _ => ?_
  refine (scriptNum_relaxes (hFG _) _ _).bind fun _ => ?_
  refine (Relaxes.refl _).bind fun _ => ?_
  refine (Relaxes.refl _).bind fun _ => ?_
  refine (Relaxes.refl _).bind fun _ => ?_
  refine (scriptNum_relaxes (hFG _) _ _).bind fun _ => ?_
  refine (Relaxes.refl _).bind fun _ => ?_
  refine (Relaxes.refl _).bind fun _ => ?_
  -- the signatures dropped from the script code, the signature loop, the clean-up
  refine (Relaxes.foldlM (dropSignature_relaxes hFG _) _ _).bind fun _ => ?_
  refine (checkMultiSigLoop_relaxes hFG _ _ _ _ _ _ _).bind fun _ => ?_
  refine (cleanupMultiSig_relaxes hFG _ _ _ _).bind fun _ => ?_
  refine (Relaxes.refl _).bind fun _ => ?_
  exact (relaxes_rejectIf _ _ (and_weaken_left (hFG _))).bind fun _ => Relaxes.refl _

/-- Every case of the opcode switch relaxes: those that read no flag are
the same under both sets, the others are the lemmas above. -/
theorem execOp_relaxes (sigversion : SigVersion) (opcode : UInt8) (pc : CScript) (fExec : Bool)
    (st : EvalState) :
    Relaxes (execOp H checker F sigversion opcode pc fExec st)
      (execOp H checker G sigversion opcode pc fExec st) := by
  unfold execOp
  -- take the tests of the switch one by one, keeping each case's body for the end
  repeat (refine Relaxes.ite (fun _ => ?_) fun _ => ?_; rotate_left)
  all_goals first
    | exact Relaxes.refl _
    | exact (opCheckLockTimeVerify_relaxes hFG _).bind fun _ => Relaxes.refl _
    | exact (opCheckSequenceVerify_relaxes hFG _).bind fun _ => Relaxes.refl _
    | exact (relaxes_rejectIf _ _ (hFG _)).bind fun _ => Relaxes.refl _
    | exact opIf_relaxes hFG _ _ _ _
    | exact opPickRoll_relaxes (hFG _) _ _
    | exact opUnary_relaxes (hFG _) _ _
    | exact opBinary_relaxes (hFG _) _ _
    | exact opWithin_relaxes (hFG _) _
    | exact opCheckSig_relaxes hFG _ _ _
    | exact opCheckMultiSig_relaxes hFG _ _ _

/-- One turn of the loop relaxes. -/
theorem evalStep_relaxes (sigversion : SigVersion) (opcode : UInt8) (vchPushValue : List UInt8)
    (pc : CScript) (st : EvalState) :
    Relaxes (evalStep H checker F sigversion opcode vchPushValue pc st)
      (evalStep H checker G sigversion opcode vchPushValue pc st) := by
  unfold evalStep
  refine (Relaxes.refl _).bind fun _ => ?_
  refine (Relaxes.refl _).bind fun _ => ?_
  refine (Relaxes.refl _).bind fun _ => ?_
  refine (relaxes_rejectIf _ _ (and_weaken_right (hFG _))).bind fun _ => ?_
  refine Relaxes.bind ?_ fun _ => Relaxes.refl _
  -- a push, a case of the switch, or an instruction skipped in a false branch
  refine Relaxes.ite (fun _ => ?_) fun _ => Relaxes.ite (fun _ => ?_) fun _ => Relaxes.refl _
  · exact (relaxes_rejectIf _ _ (and_weaken_left (hFG _))).bind fun _ => Relaxes.refl _
  · exact execOp_relaxes hFG _ _ _ _ _

/-- The loop relaxes, by induction on its fuel. -/
theorem evalLoop_relaxes (sigversion : SigVersion) :
    ∀ fuel pc st, Relaxes (evalLoop H checker F sigversion fuel pc st)
      (evalLoop H checker G sigversion fuel pc st)
  | 0, _, _ => Relaxes.refl _
  | _ + 1, [], _ => Relaxes.refl _
  | fuel + 1, b :: pc, st => by
    unfold evalLoop
    split
    · exact Relaxes.refl _
    · exact (evalStep_relaxes hFG _ _ _ _ _).bind fun st' => evalLoop_relaxes sigversion fuel _ st'

theorem evalScript_relaxes (stack : Stack) (script : CScript) (sigversion : SigVersion) :
    Relaxes (evalScript H checker stack script F sigversion)
      (evalScript H checker stack script G sigversion) :=
  (Relaxes.refl _).bind fun _ => (evalLoop_relaxes hFG _ _ _ _).bind fun _ => Relaxes.refl _

theorem executeWitnessScript_relaxes (stack : Stack) (scriptPubKey : CScript)
    (sigversion : SigVersion) :
    Relaxes (executeWitnessScript H checker stack scriptPubKey F sigversion)
      (executeWitnessScript H checker stack scriptPubKey G sigversion) :=
  (Relaxes.refl _).bind fun _ => (evalScript_relaxes hFG _ _ _).bind fun _ => Relaxes.refl _

theorem verifyWitnessProgram_relaxes (witness : Stack) (witversion : Nat) (program : List UInt8) :
    Relaxes (verifyWitnessProgram H checker witness witversion program F)
      (verifyWitnessProgram H checker witness witversion program G) := by
  unfold verifyWitnessProgram
  refine Relaxes.ite (fun _ => ?_) fun _ => relaxes_rejectIf _ _ (hFG _)
  refine Relaxes.ite (fun _ => ?_) fun _ => ?_
  · split
    · exact Relaxes.refl _
    · exact Relaxes.ite (fun _ => Relaxes.refl _) fun _ => executeWitnessScript_relaxes hFG _ _ _
  · exact Relaxes.ite (fun _ => Relaxes.ite (fun _ => Relaxes.refl _) fun _ =>
      executeWitnessScript_relaxes hFG _ _ _) fun _ => Relaxes.refl _

end Relaxation

/-- The flag combinations `VerifyScript` asserts: `SCRIPT_VERIFY_CLEANSTACK`
needs `SCRIPT_VERIFY_P2SH` and `SCRIPT_VERIFY_WITNESS`, and
`SCRIPT_VERIFY_WITNESS` needs `SCRIPT_VERIFY_P2SH`. -/
structure VerifyFlagsOk (flags : UInt32) : Prop where
  cleanstack : hasFlag flags SCRIPT_VERIFY_CLEANSTACK = true →
    hasFlag flags SCRIPT_VERIFY_P2SH = true ∧ hasFlag flags SCRIPT_VERIFY_WITNESS = true
  witness : hasFlag flags SCRIPT_VERIFY_WITNESS = true → hasFlag flags SCRIPT_VERIFY_P2SH = true

/-- An interpreter whose evaluations under `F` relax those under `G`. -/
structure ScriptEnv.FlagsRelax (env : ScriptEnv) (F G : UInt32) : Prop where
  evalScript : ∀ stack script,
    Relaxes (env.evalScript stack script F) (env.evalScript stack script G)
  verifyWitnessProgram : ∀ witness witversion program,
    Relaxes (env.verifyWitnessProgram witness witversion program F)
      (env.verifyWitnessProgram witness witversion program G)

theorem interpreterEnv_relaxes {H : ScriptHashes} {checker : SignatureChecker} {F G : UInt32}
    (hFG : FlagsWithin F G) : (interpreterEnv H checker).FlagsRelax F G :=
  ⟨fun stack script => evalScript_relaxes hFG stack script .BASE,
    fun witness witversion program => verifyWitnessProgram_relaxes hFG witness witversion program⟩

/-! ## `VerifyScript` -/

section Verify

variable {env : ScriptEnv} {F G : UInt32} (scriptSig scriptPubKey : CScript) (witness : Stack)

theorem bareWitnessStep_of_no_witness {flags : UInt32}
    (hw : hasFlag flags SCRIPT_VERIFY_WITNESS = false) (stack : Stack) :
    bareWitnessStep env scriptSig scriptPubKey witness flags stack = pure (false, stack) := by
  simp [bareWitnessStep, hw]

theorem finalChecks_of_no_witness {flags : UInt32}
    (hcs : hasFlag flags SCRIPT_VERIFY_CLEANSTACK = false)
    (hw : hasFlag flags SCRIPT_VERIFY_WITNESS = false) (hadWitness : Bool) (stack : Stack) :
    finalChecks witness flags hadWitness stack = pure () := by
  simp [finalChecks, hcs, hw]

theorem bareWitnessStep_relaxes (henv : env.FlagsRelax F G) (hFG : FlagsWithin F G)
    (hwF : hasFlag F SCRIPT_VERIFY_WITNESS = true) (stack : Stack) :
    RelaxesT Eq (bareWitnessStep env scriptSig scriptPubKey witness F stack)
      (bareWitnessStep env scriptSig scriptPubKey witness G stack) := by
  unfold bareWitnessStep
  rw [hwF, hFG _ hwF]
  refine RelaxesT.ite (fun _ => ?_) fun _ => RelaxesT.refl _
  split
  · refine (RelaxesT.refl _).bind_eq fun _ => ?_
    exact (relaxesT_mk (henv.verifyWitnessProgram _ _ _)).bind_eq fun _ => RelaxesT.refl _
  · exact RelaxesT.refl _

theorem p2shStep_relaxes (henv : env.FlagsRelax F G) (hFG : FlagsWithin F G)
    (hpF : hasFlag F SCRIPT_VERIFY_P2SH = true) (hwF : hasFlag F SCRIPT_VERIFY_WITNESS = true)
    (stackCopy : Stack) (hadWitness : Bool) (stack : Stack) :
    RelaxesT Eq (p2shStep env scriptSig scriptPubKey witness F stackCopy hadWitness stack)
      (p2shStep env scriptSig scriptPubKey witness G stackCopy hadWitness stack) := by
  unfold p2shStep
  rw [hpF, hFG _ hpF, hwF, hFG _ hwF]
  refine RelaxesT.ite (fun _ => ?_) fun _ => RelaxesT.refl _
  refine (RelaxesT.refl _).bind_eq fun _ => ?_
  refine (RelaxesT.refl _).bind_eq fun _ => ?_
  refine (relaxesT_mk (henv.evalScript _ _)).bind_eq fun _ => ?_
  refine (RelaxesT.refl _).bind_eq fun _ => ?_
  refine RelaxesT.ite (fun _ => ?_) fun _ => RelaxesT.refl _
  split
  · refine (RelaxesT.refl _).bind_eq fun _ => ?_
    exact (relaxesT_mk (henv.verifyWitnessProgram _ _ _)).bind_eq fun _ => RelaxesT.refl _
  · exact RelaxesT.refl _

/-- Without the witness flag the pay-to-script-hash step of `F` only has to
succeed: its result is not read again. -/
theorem p2shStep_relaxes_of_no_witness (henv : env.FlagsRelax F G) (hFG : FlagsWithin F G)
    (hwF : hasFlag F SCRIPT_VERIFY_WITNESS = false) {stackCopyF stackCopyG : Stack}
    (hcopy : hasFlag F SCRIPT_VERIFY_P2SH = true → stackCopyF = stackCopyG)
    (hadWitnessF hadWitnessG : Bool) (stackF stackG : Stack) :
    RelaxesT (fun _ _ => True)
      (p2shStep env scriptSig scriptPubKey witness F stackCopyF hadWitnessF stackF)
      (p2shStep env scriptSig scriptPubKey witness G stackCopyG hadWitnessG stackG) := by
  unfold p2shStep
  cases hpF : hasFlag F SCRIPT_VERIFY_P2SH with
  | false => exact relaxesT_pure _ fun _ => trivial
  | true =>
    rw [hFG _ hpF, hcopy hpF, hwF]
    refine RelaxesT.ite (fun _ => ?_) fun _ => relaxesT_pure _ fun _ => trivial
    refine (RelaxesT.refl _).bind_eq fun _ => ?_
    refine (RelaxesT.refl _).bind_eq fun _ => ?_
    refine (relaxesT_mk (henv.evalScript _ _)).bind_eq fun _ => ?_
    refine (RelaxesT.refl _).bind_eq fun _ => ?_
    exact relaxesT_pure _ fun _ => trivial

theorem finalChecks_relaxes (hFG : FlagsWithin F G) (hpF : hasFlag F SCRIPT_VERIFY_P2SH = true)
    (hwF : hasFlag F SCRIPT_VERIFY_WITNESS = true) (hadWitness : Bool) (stack : Stack) :
    RelaxesT Eq (finalChecks witness F hadWitness stack) (finalChecks witness G hadWitness stack) := by
  unfold finalChecks
  rw [hpF, hFG _ hpF, hwF, hFG _ hwF]
  -- the clean-stack check of `G` is one `F` may skip
  cases hcsF : hasFlag F SCRIPT_VERIFY_CLEANSTACK with
  | true =>
    rw [hFG _ hcsF]
    exact RelaxesT.refl _
  | false =>
    cases hasFlag G SCRIPT_VERIFY_CLEANSTACK with
    | true => exact relaxesT_skip _ _
    | false => exact RelaxesT.refl _

/-- With the witness flag in `F`, both sets take the same path and every
step relaxes. -/
theorem verifyScript_relaxes_of_witness (henv : env.FlagsRelax F G) (hFG : FlagsWithin F G)
    (hpF : hasFlag F SCRIPT_VERIFY_P2SH = true) (hwF : hasFlag F SCRIPT_VERIFY_WITNESS = true) :
    RelaxesT Eq (verifyScript env scriptSig scriptPubKey witness F)
      (verifyScript env scriptSig scriptPubKey witness G) := by
  unfold verifyScript
  rw [hpF, hFG _ hpF]
  refine (relaxesT_throwIf _ _ (and_weaken_left (hFG _))).bind_eq fun _ => ?_
  refine (relaxesT_mk (henv.evalScript _ _)).bind_eq fun _ => ?_
  refine (relaxesT_mk (henv.evalScript _ _)).bind_eq fun _ => ?_
  refine (RelaxesT.refl _).bind_eq fun _ => ?_
  refine (bareWitnessStep_relaxes _ _ _ henv hFG hwF _).bind_eq fun x => ?_
  obtain ⟨hadWitness, stack⟩ := x
  refine (p2shStep_relaxes _ _ _ henv hFG hpF hwF _ _ _).bind_eq fun x => ?_
  obtain ⟨hadWitness, stack⟩ := x
  exact finalChecks_relaxes _ hFG hpF hwF _ _

/-- Without the witness flag in `F`, its final checks are void: the steps
before them only have to succeed. -/
theorem verifyScript_relaxes_of_no_witness (henv : env.FlagsRelax F G) (hFG : FlagsWithin F G)
    (hF : VerifyFlagsOk F) (hwF : hasFlag F SCRIPT_VERIFY_WITNESS = false) :
    RelaxesT (fun _ _ => True) (verifyScript env scriptSig scriptPubKey witness F)
      (verifyScript env scriptSig scriptPubKey witness G) := by
  have hcsF : hasFlag F SCRIPT_VERIFY_CLEANSTACK = false := by
    cases hcs : hasFlag F SCRIPT_VERIFY_CLEANSTACK with
    | false => rfl
    | true => exact absurd (hF.cleanstack hcs).2 (by rw [hwF]; decide)
  unfold verifyScript
  refine (relaxesT_throwIf _ _ (and_weaken_left (hFG _))).bind_eq fun _ => ?_
  refine (relaxesT_mk (henv.evalScript _ _)).bind_eq fun stack => ?_
  refine (relaxesT_mk (henv.evalScript _ _)).bind_eq fun _ => ?_
  refine (RelaxesT.refl _).bind_eq fun _ => ?_
  rw [bareWitnessStep_of_no_witness _ _ _ hwF]
  refine (relaxesT_pure _ fun _ => trivial : RelaxesT (fun _ _ => True) _ _).bind fun x y _ => ?_
  obtain ⟨hadWitnessF, stackF⟩ := x
  obtain ⟨hadWitnessG, stackG⟩ := y
  have hcopy : hasFlag F SCRIPT_VERIFY_P2SH = true →
      (if hasFlag F SCRIPT_VERIFY_P2SH = true then stack else []) =
        (if hasFlag G SCRIPT_VERIFY_P2SH = true then stack else []) := by
    intro hpF
    rw [hpF, hFG _ hpF]
  refine (p2shStep_relaxes_of_no_witness _ _ _ henv hFG hwF hcopy _ _ _ _).bind fun x _ _ => ?_
  obtain ⟨hadWitness, stack⟩ := x
  dsimp only
  rw [finalChecks_of_no_witness _ hcsF hwF]
  exact relaxesT_pure _ fun _ => trivial

/-- A spend that passes under `G` passes under every `F` whose flags are
within `G`'s and that `VerifyScript`'s assertions allow. -/
theorem verifyScript_relaxes (henv : env.FlagsRelax F G) (hFG : FlagsWithin F G)
    (hF : VerifyFlagsOk F) :
    RelaxesT (fun _ _ => True) (verifyScript env scriptSig scriptPubKey witness F)
      (verifyScript env scriptSig scriptPubKey witness G) := by
  cases hwF : hasFlag F SCRIPT_VERIFY_WITNESS with
  | true =>
    intro r h
    obtain ⟨r', hr', -⟩ :=
      verifyScript_relaxes_of_witness _ _ _ henv hFG (hF.witness hwF) hwF r h
    exact ⟨r', hr', trivial⟩
  | false => exact verifyScript_relaxes_of_no_witness _ _ _ henv hFG hF hwF

end Verify

theorem verifyScript_subset_flags (H : ScriptHashes) (checker : SignatureChecker) {F G : UInt32}
    (hsub : F &&& G = F) (hF : VerifyFlagsOk F) (scriptSig scriptPubKey : CScript)
    (witness : Stack)
    (hG : (verifyScript (interpreterEnv H checker) scriptSig scriptPubKey witness G).run =
      .ok (.ok ())) :
    (verifyScript (interpreterEnv H checker) scriptSig scriptPubKey witness F).run =
      .ok (.ok ()) := by
  have hFG := flagsWithin_of_subset hsub
  obtain ⟨r, hr, -⟩ :=
    verifyScript_relaxes scriptSig scriptPubKey witness (interpreterEnv_relaxes hFG) hFG hF () hG
  exact hr

/-- Hashes that return their input, to run the interpreter on examples. -/
def identityHashes : ScriptHashes := ⟨id, id, id, id, id, fun _ => true⟩

/-- A checker that accepts every signature and lock. -/
def acceptingChecker : SignatureChecker := ⟨fun _ _ _ _ => true, fun _ => true, fun _ => true⟩

theorem verifyScript_subset_flags_cleanstack :
    (verifyScript (interpreterEnv identityHashes acceptingChecker) [OP_1] [] []
        (SCRIPT_VERIFY_P2SH ||| SCRIPT_VERIFY_WITNESS ||| SCRIPT_VERIFY_CLEANSTACK)).run =
      .ok (.ok ()) ∧
    (verifyScript (interpreterEnv identityHashes acceptingChecker) [OP_1] [] []
        SCRIPT_VERIFY_P2SH).run = .ok (.ok ()) := by
  have hG : (verifyScript (interpreterEnv identityHashes acceptingChecker) [OP_1] [] []
      (SCRIPT_VERIFY_P2SH ||| SCRIPT_VERIFY_WITNESS ||| SCRIPT_VERIFY_CLEANSTACK)).run =
        .ok (.ok ()) := by rfl
  exact ⟨hG, verifyScript_subset_flags identityHashes acceptingChecker (by decide)
    ⟨by decide, by decide⟩ [OP_1] [] [] hG⟩

end Veribase
