import Veribase.Script.Script
import Veribase.Lib.Fault

/-!
# Script verification

`VerifyScript` (`script/interpreter.cpp`) runs the input's `scriptSig`, then
the output's `scriptPubKey` on the resulting stack, and accepts when the top
of the stack is true.  Under `SCRIPT_VERIFY_P2SH`, an output of the
pay-to-script-hash shape `OP_HASH160 <h> OP_EQUAL` gets a second pass: the
`scriptSig` must be push-only, and its last push, the redeem script, is run on
the pushes before it and must leave true as well.  Without the flag the first
pass only checks that the redeem script hashes to `h`.

`EvalScript` is a parameter (`ScriptEnv`), with the signature checker
inside it, and so is `VerifyWitnessProgram`.  The stack keeps its top at the
end of the list, as `std::vector` does.  The two `assert`s of the function
end in a `Fault`.

With none of the flags that add a step, the result is that of the two
evaluations and the final test, and the redeem script is never evaluated
(`verifyScript_firstPass`).
-/

namespace Veribase

/-! ## Flags -/

/-- `SCRIPT_VERIFY_NONE`. -/
def SCRIPT_VERIFY_NONE : UInt32 := 0

/-- `SCRIPT_VERIFY_P2SH = (1U << 0)`. -/
def SCRIPT_VERIFY_P2SH : UInt32 := 1

/-- `SCRIPT_VERIFY_STRICTENC = (1U << 1)`. -/
def SCRIPT_VERIFY_STRICTENC : UInt32 := 2

/-- `SCRIPT_VERIFY_DERSIG = (1U << 2)`. -/
def SCRIPT_VERIFY_DERSIG : UInt32 := 4

/-- `SCRIPT_VERIFY_NULLDUMMY = (1U << 4)`. -/
def SCRIPT_VERIFY_NULLDUMMY : UInt32 := 16

/-- `SCRIPT_VERIFY_SIGPUSHONLY = (1U << 5)`. -/
def SCRIPT_VERIFY_SIGPUSHONLY : UInt32 := 32

/-- `SCRIPT_VERIFY_CLEANSTACK = (1U << 8)`. -/
def SCRIPT_VERIFY_CLEANSTACK : UInt32 := 256

/-- `SCRIPT_VERIFY_CHECKLOCKTIMEVERIFY = (1U << 9)`. -/
def SCRIPT_VERIFY_CHECKLOCKTIMEVERIFY : UInt32 := 512

/-- `SCRIPT_VERIFY_CHECKSEQUENCEVERIFY = (1U << 10)`. -/
def SCRIPT_VERIFY_CHECKSEQUENCEVERIFY : UInt32 := 1024

/-- `SCRIPT_VERIFY_WITNESS = (1U << 11)`. -/
def SCRIPT_VERIFY_WITNESS : UInt32 := 2048

/-- `MANDATORY_SCRIPT_VERIFY_FLAGS` (`script/standard.h`): the flags all new
blocks must comply with. -/
def MANDATORY_SCRIPT_VERIFY_FLAGS : UInt32 := SCRIPT_VERIFY_P2SH

/-- `ScriptError_t`. -/
inductive ScriptError
  | SCRIPT_ERR_OK
  | SCRIPT_ERR_UNKNOWN_ERROR
  | SCRIPT_ERR_EVAL_FALSE
  | SCRIPT_ERR_OP_RETURN
  | SCRIPT_ERR_SCRIPT_SIZE
  | SCRIPT_ERR_PUSH_SIZE
  | SCRIPT_ERR_OP_COUNT
  | SCRIPT_ERR_STACK_SIZE
  | SCRIPT_ERR_SIG_COUNT
  | SCRIPT_ERR_PUBKEY_COUNT
  | SCRIPT_ERR_VERIFY
  | SCRIPT_ERR_EQUALVERIFY
  | SCRIPT_ERR_CHECKMULTISIGVERIFY
  | SCRIPT_ERR_CHECKSIGVERIFY
  | SCRIPT_ERR_NUMEQUALVERIFY
  | SCRIPT_ERR_BAD_OPCODE
  | SCRIPT_ERR_DISABLED_OPCODE
  | SCRIPT_ERR_INVALID_STACK_OPERATION
  | SCRIPT_ERR_INVALID_ALTSTACK_OPERATION
  | SCRIPT_ERR_UNBALANCED_CONDITIONAL
  | SCRIPT_ERR_NEGATIVE_LOCKTIME
  | SCRIPT_ERR_UNSATISFIED_LOCKTIME
  | SCRIPT_ERR_SIG_HASHTYPE
  | SCRIPT_ERR_SIG_DER
  | SCRIPT_ERR_MINIMALDATA
  | SCRIPT_ERR_SIG_PUSHONLY
  | SCRIPT_ERR_SIG_HIGH_S
  | SCRIPT_ERR_SIG_NULLDUMMY
  | SCRIPT_ERR_PUBKEYTYPE
  | SCRIPT_ERR_CLEANSTACK
  | SCRIPT_ERR_MINIMALIF
  | SCRIPT_ERR_SIG_NULLFAIL
  | SCRIPT_ERR_DISCOURAGE_UPGRADABLE_NOPS
  | SCRIPT_ERR_DISCOURAGE_UPGRADABLE_WITNESS_PROGRAM
  | SCRIPT_ERR_WITNESS_PROGRAM_WRONG_LENGTH
  | SCRIPT_ERR_WITNESS_PROGRAM_WITNESS_EMPTY
  | SCRIPT_ERR_WITNESS_PROGRAM_MISMATCH
  | SCRIPT_ERR_WITNESS_MALLEATED
  | SCRIPT_ERR_WITNESS_MALLEATED_P2SH
  | SCRIPT_ERR_WITNESS_UNEXPECTED
  | SCRIPT_ERR_WITNESS_PUBKEYTYPE
  | SCRIPT_ERR_OP_CODESEPARATOR
  | SCRIPT_ERR_SIG_FINDANDDELETE
deriving DecidableEq, Repr

/-- A script stack; its top is the last element. -/
abbrev Stack := List (List UInt8)

/-- `CastToBool(vch)`: any nonzero byte makes it true, except a sign bit
alone in the last byte (negative zero). -/
def castToBool : List UInt8 → Bool
  | [] => false
  | [b] => b != 0 && b != 0x80
  | b :: rest => b != 0 || castToBool rest

/-- The top of the stack is true: `!stack.empty() && CastToBool(stack.back())`. -/
def topIsTrue (stack : Stack) : Bool := stack.getLast?.any castToBool

/-- `vchTrue` pushed on a stack makes its top true. -/
@[simp] theorem topIsTrue_push_true (stack : Stack) : topIsTrue (stack ++ [[1]]) = true := by
  simp [topIsTrue, castToBool]

/-- What `VerifyScript` calls outside this model. -/
structure ScriptEnv where
  /-- `EvalScript(stack, script, flags, checker, SigVersion::BASE, serror)`. -/
  evalScript : Stack → CScript → UInt32 → Except ScriptError Stack
  /-- `VerifyWitnessProgram(*witness, version, program, flags, checker, serror)`. -/
  verifyWitnessProgram : Stack → Nat → List UInt8 → UInt32 → Except ScriptError Unit

/-- A computation of the verifier: a script error, a fault, or a value. -/
abbrev Verify := ExceptT ScriptError Faulty

/-- `return set_error(serror, e)` when `c` holds. -/
def failIf (c : Bool) (e : ScriptError) : Verify Unit := if c then throw e else pure ()

/-- A result of `EvalScript` inside the verifier. -/
def liftScript {α : Type} (r : Except ScriptError α) : Verify α := ExceptT.mk (.ok r)

@[simp] theorem liftScript_ok {α : Type} (a : α) : liftScript (.ok a) = pure a := rfl

@[simp] theorem liftScript_error {α : Type} (e : ScriptError) :
    liftScript (.error e : Except ScriptError α) = throw e := rfl

/-- A possible fault inside the verifier. -/
def liftFault {α : Type} (r : Faulty α) : Verify α := ExceptT.lift r

@[simp] theorem liftFault_ok {α : Type} (a : α) : liftFault (.ok a) = pure a := rfl

/-- `(flags & flag) != 0`. -/
def hasFlag (flags flag : UInt32) : Bool := flags &&& flag != 0

section Verify

variable (env : ScriptEnv) (scriptSig scriptPubKey : CScript) (witness : Stack) (flags : UInt32)

/-- The bare witness program step: whether a witness program ran, and the
stack after it. -/
def bareWitnessStep (stack : Stack) : Verify (Bool × Stack) :=
  if hasFlag flags SCRIPT_VERIFY_WITNESS then
    match isWitnessProgram scriptPubKey with
    | some (witnessversion, witnessprogram) => do
        failIf (!scriptSig.isEmpty) .SCRIPT_ERR_WITNESS_MALLEATED
        liftScript (env.verifyWitnessProgram witness witnessversion witnessprogram flags)
        pure (true, stack.take 1)
    | none => pure (false, stack)
  else pure (false, stack)

/-- The pay-to-script-hash step: run the redeem script, the last push of
`scriptSig`, on the pushes before it (`stackCopy`). -/
def p2shStep (stackCopy : Stack) (hadWitness : Bool) (stack : Stack) : Verify (Bool × Stack) :=
  if hasFlag flags SCRIPT_VERIFY_P2SH && isPayToScriptHash scriptPubKey then do
    failIf (!isPushOnly scriptSig) .SCRIPT_ERR_SIG_PUSHONLY
    liftFault (Fault.check !stackCopy.isEmpty)
    let pubKey2 := stackCopy.getLast?.getD []
    let stack ← liftScript (env.evalScript stackCopy.dropLast pubKey2 flags)
    failIf (!topIsTrue stack) .SCRIPT_ERR_EVAL_FALSE
    if hasFlag flags SCRIPT_VERIFY_WITNESS then
      match isWitnessProgram pubKey2 with
      | some (witnessversion, witnessprogram) => do
          failIf (scriptSig != pushData pubKey2) .SCRIPT_ERR_WITNESS_MALLEATED_P2SH
          liftScript (env.verifyWitnessProgram witness witnessversion witnessprogram flags)
          pure (true, stack.take 1)
      | none => pure (hadWitness, stack)
    else pure (hadWitness, stack)
  else pure (hadWitness, stack)

/-- The final checks: a clean stack under `SCRIPT_VERIFY_CLEANSTACK`, no
unexpected witness under `SCRIPT_VERIFY_WITNESS`. -/
def finalChecks (hadWitness : Bool) (stack : Stack) : Verify Unit := do
  if hasFlag flags SCRIPT_VERIFY_CLEANSTACK then
    liftFault (Fault.check (hasFlag flags SCRIPT_VERIFY_P2SH))
    liftFault (Fault.check (hasFlag flags SCRIPT_VERIFY_WITNESS))
    failIf (stack.length != 1) .SCRIPT_ERR_CLEANSTACK
  if hasFlag flags SCRIPT_VERIFY_WITNESS then
    liftFault (Fault.check (hasFlag flags SCRIPT_VERIFY_P2SH))
    failIf (!hadWitness && !witness.isEmpty) .SCRIPT_ERR_WITNESS_UNEXPECTED

/-- `VerifyScript(scriptSig, scriptPubKey, witness, flags, checker, serror)`. -/
def verifyScript : Verify Unit := do
  failIf (hasFlag flags SCRIPT_VERIFY_SIGPUSHONLY && !isPushOnly scriptSig)
    .SCRIPT_ERR_SIG_PUSHONLY
  let stack ← liftScript (env.evalScript [] scriptSig flags)
  let stackCopy := if hasFlag flags SCRIPT_VERIFY_P2SH then stack else []
  let stack ← liftScript (env.evalScript stack scriptPubKey flags)
  failIf (!topIsTrue stack) .SCRIPT_ERR_EVAL_FALSE
  let (hadWitness, stack) ← bareWitnessStep env scriptSig scriptPubKey witness flags stack
  let (hadWitness, stack) ←
    p2shStep env scriptSig scriptPubKey witness flags stackCopy hadWitness stack
  finalChecks witness flags hadWitness stack

end Verify

end Veribase
