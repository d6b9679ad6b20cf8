import Veribase.Script.Eval
import Veribase.Lib.FaultFree

/-!
# The interpreter with its stack accesses checked

`Script.Eval` reads `stacktop(-n)` as the `n`-th element from the top, takes
a missing one as empty, and pops and erases with total list functions: it is
the source only where no access of `EvalScript` falls outside its vector.
This module is the interpreter with the accesses as the source makes them.
`stacktop(-n)` is `stack.at(stack.size() - n)`, which throws outside the
vector; `popstack` throws on an empty stack; `erase` and `insert` at an
iterator outside the vector are undefined.  Each of these ends the run here
in a `Fault`, not caught as `EvalScript`'s `catch (...)` would catch the
exceptions, so that an access outside the bounds stays visible.

`evalScript_computes` says that the checked interpreter never faults and
ends as `evalScript` does, on every script, stack, flag set and checker.  The
proof follows the `switch`: in each case the size test at its head bounds
every access after it.
-/

namespace Veribase

open Checks FaultFree

namespace Checked

/-! ## Stack access -/

/-- `stacktop(-n)`: `stack.at(stack.size() - n)`, which throws unless
`0 < n ≤ stack.size()`. -/
def stackAt (stack : Stack) (n : Nat) : Verify (List UInt8) :=
  if 0 < n ∧ n ≤ stack.length then pure (stacktop stack n) else liftFault (.error .outOfBounds)

/-- `popstack(stack)`. -/
def popStack (stack : Stack) : Verify Stack :=
  if stack.isEmpty then liftFault (.error (.exception "popstack(): stack empty"))
  else pure stack.dropLast

/-- `stack.erase(stack.end() - n)`. -/
def eraseAt (stack : Stack) (n : Nat) : Verify Stack :=
  if 0 < n ∧ n ≤ stack.length then pure (stack.eraseIdx (stack.length - n))
  else liftFault (.error .outOfBounds)

/-- `stack.erase(stack.end() - i, stack.end() - j)`. -/
def eraseRange (stack : Stack) (i j : Nat) : Verify Stack :=
  if j ≤ i ∧ i ≤ stack.length then
    pure (stack.take (stack.length - i) ++ stack.drop (stack.length - j))
  else liftFault (.error .outOfBounds)

/-- `stack.insert(stack.end() - n, vch)`. -/
def insertAt (stack : Stack) (n : Nat) (vch : List UInt8) : Verify Stack :=
  if n ≤ stack.length then pure (stack.insertIdx (stack.length - n) vch)
  else liftFault (.error .outOfBounds)

/-- `swap(stacktop(-i), stacktop(-j))`. -/
def swapAt (stack : Stack) (i j : Nat) : Verify Stack := do
  let a ← stackAt stack i
  let b ← stackAt stack j
  pure ((stack.set (stack.length - i) b).set (stack.length - j) a)

/-- `if (c && stacktop(-1).size()) return set_error(serror, e)`: the top is
read only when `c` holds. -/
def failIfTopNonEmpty (c : Bool) (stack : Stack) (e : ScriptError) : Verify Unit :=
  if c then do
    let top ← stackAt stack 1
    failIf (!top.isEmpty) e
  else pure ()

variable {stack : Stack} {n : Nat}

theorem stackAt_of_le (h0 : 0 < n) (h : n ≤ stack.length) :
    stackAt stack n = pure (stacktop stack n) :=
  if_pos ⟨h0, h⟩

theorem popStack_of_pos (h : 0 < stack.length) : popStack stack = pure stack.dropLast := by
  have hne : stack.isEmpty = false := by
    cases stack with
    | nil => simp at h
    | cons _ _ => rfl
  simp [popStack, hne]

theorem eraseAt_of_le (h0 : 0 < n) (h : n ≤ stack.length) :
    eraseAt stack n = pure (stack.eraseIdx (stack.length - n)) :=
  if_pos ⟨h0, h⟩

theorem eraseRange_of_le {i j : Nat} (hji : j ≤ i) (h : i ≤ stack.length) :
    eraseRange stack i j = pure (stack.take (stack.length - i) ++ stack.drop (stack.length - j)) :=
  if_pos ⟨hji, h⟩

theorem insertAt_of_le (h : n ≤ stack.length) (vch : List UInt8) :
    insertAt stack n vch = pure (stack.insertIdx (stack.length - n) vch) :=
  if_pos h

theorem swapAt_of_le {i j : Nat} (hi0 : 0 < i) (hi : i ≤ stack.length) (hj0 : 0 < j)
    (hj : j ≤ stack.length) : swapAt stack i j = pure (swapTop stack i j) := by
  simp only [swapAt, stackAt_of_le hi0 hi, stackAt_of_le hj0 hj, pure_bind, swapTop]

@[simp] theorem stackAt_push (v : List UInt8) : stackAt (stack ++ [v]) 1 = pure v := by
  rw [stackAt_of_le Nat.one_pos (by simp)]
  simp [stacktop]

@[simp] theorem popStack_push (v : List UInt8) : popStack (stack ++ [v]) = pure stack := by
  rw [popStack_of_pos (by simp)]
  simp

@[simp] theorem length_swapTop (i j : Nat) : (swapTop stack i j).length = stack.length := by
  simp [swapTop]

@[simp] theorem stacktop_concat_one (v : List UInt8) : stacktop (stack ++ [v]) 1 = v := by
  simp [stacktop]

/-! ## The opcodes -/

section Opcodes

variable (H : ScriptHashes) (checker : SignatureChecker) (flags : UInt32) (sigversion : SigVersion)

/-- `OP_CHECKLOCKTIMEVERIFY`. -/
def opCheckLockTimeVerify (stack : Stack) : Verify Unit :=
  if !hasFlag flags SCRIPT_VERIFY_CHECKLOCKTIMEVERIFY then pure ()
  else do
    failIf (stack.length < 1) .SCRIPT_ERR_INVALID_STACK_OPERATION
    let nLockTime ←
      liftScript (scriptNum (← stackAt stack 1) (hasFlag flags SCRIPT_VERIFY_MINIMALDATA) 5)
    failIf (nLockTime < 0) .SCRIPT_ERR_NEGATIVE_LOCKTIME
    failIf (!checker.checkLockTime nLockTime) .SCRIPT_ERR_UNSATISFIED_LOCKTIME

/-- `OP_CHECKSEQUENCEVERIFY`. -/
def opCheckSequenceVerify (stack : Stack) : Verify Unit :=
  if !hasFlag flags SCRIPT_VERIFY_CHECKSEQUENCEVERIFY then pure ()
  else do
    failIf (stack.length < 1) .SCRIPT_ERR_INVALID_STACK_OPERATION
    let nSequence ←
      liftScript (scriptNum (← stackAt stack 1) (hasFlag flags SCRIPT_VERIFY_MINIMALDATA) 5)
    failIf (nSequence < 0) .SCRIPT_ERR_NEGATIVE_LOCKTIME
    if nSequence.toNat &&& (1 <<< 31) != 0 then pure ()
    else failIf (!checker.checkSequence nSequence) .SCRIPT_ERR_UNSATISFIED_LOCKTIME

/-- `OP_IF` and `OP_NOTIF`. -/
def opIf (opcode : UInt8) (fExec : Bool) (st : EvalState) : Verify EvalState :=
  if fExec then do
    failIf (st.stack.length < 1) .SCRIPT_ERR_UNBALANCED_CONDITIONAL
    let vch ← stackAt st.stack 1
    let minimalIf := sigversion == .WITNESS_V0 && hasFlag flags SCRIPT_VERIFY_MINIMALIF
    failIf (minimalIf && vch.length > 1) .SCRIPT_ERR_MINIMALIF
    failIf (minimalIf && vch.length == 1 && vch.getD 0 0 != 1) .SCRIPT_ERR_MINIMALIF
    let fValue := castToBool vch
    let fValue := if opcode == OP_NOTIF then !fValue else fValue
    let stack ← popStack st.stack
    pure { st with stack, vfExec := st.vfExec ++ [fValue] }
  else pure { st with vfExec := st.vfExec ++ [false] }

/-- `OP_PICK` and `OP_ROLL`. -/
def opPickRoll (fRequireMinimal : Bool) (opcode : UInt8) (st : EvalState) :
    Verify EvalState := do
  failIf (st.stack.length < 2) .SCRIPT_ERR_INVALID_STACK_OPERATION
  let n := getint (← liftScript (scriptNum (← stackAt st.stack 1) fRequireMinimal 4))
  let stack ← popStack st.stack
  failIf (n < 0 || n ≥ stack.length) .SCRIPT_ERR_INVALID_STACK_OPERATION
  let vch ← stackAt stack (n.toNat + 1)
  let stack ← if opcode == OP_ROLL then eraseAt stack (n.toNat + 1) else pure stack
  pure { st with stack := stack ++ [vch] }

/-- The one-operand numeric opcodes, `OP_1ADD` to `OP_0NOTEQUAL`. -/
def opUnary (fRequireMinimal : Bool) (opcode : UInt8) (st : EvalState) :
    Verify EvalState := do
  failIf (st.stack.length < 1) .SCRIPT_ERR_INVALID_STACK_OPERATION
  let bn ← liftScript (scriptNum (← stackAt st.stack 1) fRequireMinimal 4)
  let bn := match opcode with
    | OP_1ADD => bn + 1
    | OP_1SUB => bn - 1
    | OP_NEGATE => -bn
    | OP_ABS => if bn < 0 then -bn else bn
    | OP_NOT => boolNum (bn == 0)
    | _ => boolNum (bn != 0)
  let stack ← popStack st.stack
  pure { st with stack := stack ++ [scriptNumSerialize bn] }

/-- The two-operand numeric opcodes, `OP_ADD` to `OP_MAX`. -/
def opBinary (fRequireMinimal : Bool) (opcode : UInt8) (st : EvalState) :
    Verify EvalState := do
  failIf (st.stack.length < 2) .SCRIPT_ERR_INVALID_STACK_OPERATION
  let bn1 ← liftScript (scriptNum (← stackAt st.stack 2) fRequireMinimal 4)
  let bn2 ← liftScript (scriptNum (← stackAt st.stack 1) fRequireMinimal 4)
  let bn := match opcode with
    | OP_ADD => bn1 + bn2
    | OP_SUB => bn1 - bn2
    | OP_BOOLAND => boolNum (bn1 != 0 && bn2 != 0)
    | OP_BOOLOR => boolNum (bn1 != 0 || bn2 != 0)
    | OP_NUMEQUAL => boolNum (bn1 == bn2)
    | OP_NUMEQUALVERIFY => boolNum (bn1 == bn2)
    | OP_NUMNOTEQUAL => boolNum (bn1 != bn2)
    | OP_LESSTHAN => boolNum (bn1 < bn2)
    | OP_GREATERTHAN => boolNum (bn1 > bn2)
    | OP_LESSTHANOREQUAL => boolNum (bn1 ≤ bn2)
    | OP_GREATERTHANOREQUAL => boolNum (bn1 ≥ bn2)
    | OP_MIN => if bn1 < bn2 then bn1 else bn2
    | _ => if bn1 > bn2 then bn1 else bn2
  let stack ← popStack st.stack
  let stack ← popStack stack
  let stack := stack ++ [scriptNumSerialize bn]
  if opcode == OP_NUMEQUALVERIFY then do
    let top ← stackAt stack 1
    if castToBool top then do
      let stack ← popStack stack
      pure { st with stack }
    else throw .SCRIPT_ERR_NUMEQUALVERIFY
  else pure { st with stack }

/-- `OP_WITHIN`. -/
def opWithin (fRequireMinimal : Bool) (st : EvalState) : Verify EvalState := do
  failIf (st.stack.length < 3) .SCRIPT_ERR_INVALID_STACK_OPERATION
  let bn1 ← liftScript (scriptNum (← stackAt st.stack 3) fRequireMinimal 4)
  let bn2 ← liftScript (scriptNum (← stackAt st.stack 2) fRequireMinimal 4)
  let bn3 ← liftScript (scriptNum (← stackAt st.stack 1) fRequireMinimal 4)
  let fValue := bn2 ≤ bn1 && bn1 < bn3
  let stack ← popStack st.stack
  let stack ← popStack stack
  let stack ← popStack stack
  pure { st with stack := stack ++ [if fValue then vchTrue else vchFalse] }

/-- `OP_CHECKSIG` and `OP_CHECKSIGVERIFY`. -/
def opCheckSig (opcode : UInt8) (st : EvalState) : Verify EvalState := do
  failIf (st.stack.length < 2) .SCRIPT_ERR_INVALID_STACK_OPERATION
  let vchSig ← stackAt st.stack 2
  let vchPubKey ← stackAt st.stack 1
  let scriptCode ← liftScript (dropSignature flags sigversion st.pbegincodehash vchSig)
  liftScript (checkSignatureEncoding H vchSig flags)
  liftScript (checkPubKeyEncoding vchPubKey flags sigversion)
  let fSuccess := checker.checkSig vchSig vchPubKey scriptCode sigversion
  failIf (!fSuccess && hasFlag flags SCRIPT_VERIFY_NULLFAIL && !vchSig.isEmpty)
    .SCRIPT_ERR_SIG_NULLFAIL
  let stack ← popStack st.stack
  let stack ← popStack stack
  let stack := stack ++ [if fSuccess then vchTrue else vchFalse]
  if opcode == OP_CHECKSIGVERIFY then
    if fSuccess then do
      let stack ← popStack stack
      pure { st with stack }
    else throw .SCRIPT_ERR_CHECKSIGVERIFY
  else pure { st with stack }

/-- The signature loop of `OP_CHECKMULTISIG`. -/
def checkMultiSigLoop (stack : Stack) (scriptCode : CScript) (isig ikey nSigsCount : Nat) :
    Nat → Verify Bool
  | 0 => pure true
  | nKeysCount + 1 =>
      if nSigsCount = 0 then pure true
      else do
        let vchSig ← stackAt stack isig
        let vchPubKey ← stackAt stack ikey
        liftScript (checkSignatureEncoding H vchSig flags)
        liftScript (checkPubKeyEncoding vchPubKey flags sigversion)
        let fOk := checker.checkSig vchSig vchPubKey scriptCode sigversion
        let isig := if fOk then isig + 1 else isig
        let nSigsCount := if fOk then nSigsCount - 1 else nSigsCount
        if nSigsCount > nKeysCount then pure false
        else checkMultiSigLoop stack scriptCode isig (ikey + 1) nSigsCount nKeysCount

/-- The clean-up loop of `OP_CHECKMULTISIG`. -/
def cleanupMultiSig (fSuccess : Bool) : Nat → Nat → Stack → Verify Stack
  | 0, _, stack => pure stack
  | i + 1, ikey2, stack => do
      failIfTopNonEmpty (!fSuccess && hasFlag flags SCRIPT_VERIFY_NULLFAIL && ikey2 == 0) stack
        .SCRIPT_ERR_SIG_NULLFAIL
      let stack ← popStack stack
      cleanupMultiSig fSuccess i (ikey2 - 1) stack

/-- `OP_CHECKMULTISIG` and `OP_CHECKMULTISIGVERIFY`. -/
def opCheckMultiSig (opcode : UInt8) (st : EvalState) : Verify EvalState := do
  let stack := st.stack
  let fRequireMinimal := hasFlag flags SCRIPT_VERIFY_MINIMALDATA
  failIf (stack.length < 1) .SCRIPT_ERR_INVALID_STACK_OPERATION
  let nKeysCount := getint (← liftScript (scriptNum (← stackAt stack 1) fRequireMinimal 4))
  failIf (nKeysCount < 0 || nKeysCount > MAX_PUBKEYS_PER_MULTISIG) .SCRIPT_ERR_PUBKEY_COUNT
  let nOpCount := st.nOpCount + nKeysCount.toNat
  failIf (nOpCount > MAX_OPS_PER_SCRIPT) .SCRIPT_ERR_OP_COUNT
  let ikey := 2
  let ikey2 := nKeysCount.toNat + 2
  let i := 2 + nKeysCount.toNat
  failIf (stack.length < i) .SCRIPT_ERR_INVALID_STACK_OPERATION
  let nSigsCount := getint (← liftScript (scriptNum (← stackAt stack i) fRequireMinimal 4))
  failIf (nSigsCount < 0 || nSigsCount > nKeysCount) .SCRIPT_ERR_SIG_COUNT
  let isig := i + 1
  let i := isig + nSigsCount.toNat
  failIf (stack.length < i) .SCRIPT_ERR_INVALID_STACK_OPERATION
  let scriptCode ← (List.range nSigsCount.toNat).foldlM (fun scriptCode k => do
      let vchSig ← stackAt stack (isig + k)
      liftScript (dropSignature flags sigversion scriptCode vchSig)) st.pbegincodehash
  let fSuccess ← checkMultiSigLoop H checker flags sigversion stack scriptCode isig ikey
    nSigsCount.toNat nKeysCount.toNat
  let stack ← cleanupMultiSig flags fSuccess (i - 1) ikey2 stack
  failIf (stack.length < 1) .SCRIPT_ERR_INVALID_STACK_OPERATION
  -- the extra argument a bug makes it consume
  failIfTopNonEmpty (hasFlag flags SCRIPT_VERIFY_NULLDUMMY) stack .SCRIPT_ERR_SIG_NULLDUMMY
  let stack ← popStack stack
  let stack := stack ++ [if fSuccess then vchTrue else vchFalse]
  if opcode == OP_CHECKMULTISIGVERIFY then
    if fSuccess then do
      let stack ← popStack stack
      pure { st with stack, nOpCount }
    else throw .SCRIPT_ERR_CHECKMULTISIGVERIFY
  else pure { st with stack, nOpCount }

/-- The `switch (opcode)` of `EvalScript`, its cases tested in the order of
`execOp`. -/
def execOp (opcode : UInt8) (pc : CScript) (fExec : Bool) (st : EvalState) :
    Verify EvalState :=
  let fRequireMinimal := hasFlag flags SCRIPT_VERIFY_MINIMALDATA
  let stack := st.stack
  if opcode ∈ [OP_1NEGATE, OP_1, OP_2, OP_3, OP_4, OP_5, OP_6, OP_7, OP_8, OP_9, OP_10, OP_11,
      OP_12, OP_13, OP_14, OP_15, OP_16] then
    pure { st with stack := stack ++ [scriptNumSerialize ((opcode.toNat : Int) - (OP_1.toNat - 1))] }
  else if opcode = OP_NOP then pure st
  else if opcode = OP_CHECKLOCKTIMEVERIFY then do
    opCheckLockTimeVerify checker flags stack
    pure st
  else if opcode = OP_CHECKSEQUENCEVERIFY then do
    opCheckSequenceVerify checker flags stack
    pure st
  else if opcode ∈ [OP_NOP1, OP_NOP4, OP_NOP5, OP_NOP6, OP_NOP7, OP_NOP8, OP_NOP9, OP_NOP10] then do
    failIf (hasFlag flags SCRIPT_VERIFY_DISCOURAGE_UPGRADABLE_NOPS)
      .SCRIPT_ERR_DISCOURAGE_UPGRADABLE_NOPS
    pure st
  else if opcode ∈ [OP_IF, OP_NOTIF] then opIf flags sigversion opcode fExec st
  else if opcode = OP_ELSE then
    if st.vfExec.isEmpty then throw .SCRIPT_ERR_UNBALANCED_CONDITIONAL
    else pure { st with vfExec := toggleTop st.vfExec }
  else if opcode = OP_ENDIF then
    if st.vfExec.isEmpty then throw .SCRIPT_ERR_UNBALANCED_CONDITIONAL
    else pure { st with vfExec := st.vfExec.dropLast }
  else if opcode = OP_VERIFY then do
    failIf (stack.length < 1) .SCRIPT_ERR_INVALID_STACK_OPERATION
    let top ← stackAt stack 1
    if castToBool top then do
      let stack ← popStack stack
      pure { st with stack }
    else throw .SCRIPT_ERR_VERIFY
  else if opcode = OP_RETURN then throw .SCRIPT_ERR_OP_RETURN
  else if opcode = OP_TOALTSTACK then do
    failIf (stack.length < 1) .SCRIPT_ERR_INVALID_STACK_OPERATION
    let vch ← stackAt stack 1
    let stack ← popStack stack
    pure { st with stack, altstack := st.altstack ++ [vch] }
  else if opcode = OP_FROMALTSTACK then do
    failIf (st.altstack.length < 1) .SCRIPT_ERR_INVALID_ALTSTACK_OPERATION
    let vch ← stackAt st.altstack 1
    let altstack ← popStack st.altstack
    pure { st with stack := stack ++ [vch], altstack }
  else if opcode = OP_2DROP then do
    failIf (stack.length < 2) .SCRIPT_ERR_INVALID_STACK_OPERATION
    let stack ← popStack stack
    let stack ← popStack stack
    pure { st with stack }
  else if opcode = OP_2DUP then do
    failIf (stack.length < 2) .SCRIPT_ERR_INVALID_STACK_OPERATION
    let vch1 ← stackAt stack 2
    let vch2 ← stackAt stack 1
    pure { st with stack := stack ++ [vch1, vch2] }
  else if opcode = OP_3DUP then do
    failIf (stack.length < 3) .SCRIPT_ERR_INVALID_STACK_OPERATION
    let vch1 ← stackAt stack 3
    let vch2 ← stackAt stack 2
    let vch3 ← stackAt stack 1
    pure { st with stack := stack ++ [vch1, vch2, vch3] }
  else if opcode = OP_2OVER then do
    failIf (stack.length < 4) .SCRIPT_ERR_INVALID_STACK_OPERATION
    let vch1 ← stackAt stack 4
    let vch2 ← stackAt stack 3
    pure { st with stack := stack ++ [vch1, vch2] }
  else if opcode = OP_2ROT then do
    failIf (stack.length < 6) .SCRIPT_ERR_INVALID_STACK_OPERATION
    let vch1 ← stackAt stack 6
    let vch2 ← stackAt stack 5
    let stack ← eraseRange stack 6 4
    pure { st with stack := stack ++ [vch1, vch2] }
  else if opcode = OP_2SWAP then do
    failIf (stack.length < 4) .SCRIPT_ERR_INVALID_STACK_OPERATION
    let stack ← swapAt stack 4 2
    let stack ← swapAt stack 3 1
    pure { st with stack }
  else if opcode = OP_IFDUP then do
    failIf (stack.length < 1) .SCRIPT_ERR_INVALID_STACK_OPERATION
    let vch ← stackAt stack 1
    pure { st with stack := if castToBool vch then stack ++ [vch] else stack }
  else if opcode = OP_DEPTH then pure { st with stack := stack ++ [scriptNumSerialize stack.length] }
  else if opcode = OP_DROP then do
    failIf (stack.length < 1) .SCRIPT_ERR_INVALID_STACK_OPERATION
    let stack ← popStack stack
    pure { st with stack }
  else if opcode = OP_DUP then do
    failIf (stack.length < 1) .SCRIPT_ERR_INVALID_STACK_OPERATION
    let vch ← stackAt stack 1
    pure { st with stack := stack ++ [vch] }
  else if opcode = OP_NIP then do
    failIf (stack.length < 2) .SCRIPT_ERR_INVALID_STACK_OPERATION
    let stack ← eraseAt stack 2
    pure { st with stack }
  else if opcode = OP_OVER then do
    failIf (stack.length < 2) .SCRIPT_ERR_INVALID_STACK_OPERATION
    let vch ← stackAt stack 2
    pure { st with stack := stack ++ [vch] }
  else if opcode ∈ [OP_PICK, OP_ROLL] then opPickRoll fRequireMinimal opcode st
  else if opcode = OP_ROT then do
    failIf (stack.length < 3) .SCRIPT_ERR_INVALID_STACK_OPERATION
    let stack ← swapAt stack 3 2
    let stack ← swapAt stack 2 1
    pure { st with stack }
  else if opcode = OP_SWAP then do
    failIf (stack.length < 2) .SCRIPT_ERR_INVALID_STACK_OPERATION
    let stack ← swapAt stack 2 1
    pure { st with stack }
  else if opcode = OP_TUCK then do
    failIf (stack.length < 2) .SCRIPT_ERR_INVALID_STACK_OPERATION
    let vch ← stackAt stack 1
    let stack ← insertAt stack 2 vch
    pure { st with stack }
  else if opcode = OP_SIZE then do
    failIf (stack.length < 1) .SCRIPT_ERR_INVALID_STACK_OPERATION
    let vch ← stackAt stack 1
    pure { st with stack := stack ++ [scriptNumSerialize vch.length] }
  else if opcode ∈ [OP_EQUAL, OP_EQUALVERIFY] then do
    failIf (stack.length < 2) .SCRIPT_ERR_INVALID_STACK_OPERATION
    let vch1 ← stackAt stack 2
    let vch2 ← stackAt stack 1
    let fEqual := vch1 == vch2
    let stack ← popStack stack
    let stack ← popStack stack
    let stack := stack ++ [if fEqual then vchTrue else vchFalse]
    if opcode == OP_EQUALVERIFY then
      if fEqual then do
        let stack ← popStack stack
        pure { st with stack }
      else throw .SCRIPT_ERR_EQUALVERIFY
    else pure { st with stack }
  else if opcode ∈ [OP_1ADD, OP_1SUB, OP_NEGATE, OP_ABS, OP_NOT, OP_0NOTEQUAL] then
    opUnary fRequireMinimal opcode st
  else if opcode ∈ [OP_ADD, OP_SUB, OP_BOOLAND, OP_BOOLOR, OP_NUMEQUAL, OP_NUMEQUALVERIFY,
      OP_NUMNOTEQUAL, OP_LESSTHAN, OP_GREATERTHAN, OP_LESSTHANOREQUAL, OP_GREATERTHANOREQUAL,
      OP_MIN, OP_MAX] then
    opBinary fRequireMinimal opcode st
  else if opcode = OP_WITHIN then opWithin fRequireMinimal st
  else if opcode ∈ [OP_RIPEMD160, OP_SHA1, OP_SHA256, OP_HASH160, OP_HASH256] then do
    failIf (stack.length < 1) .SCRIPT_ERR_INVALID_STACK_OPERATION
    let vch ← stackAt stack 1
    let vchHash :=
      if opcode == OP_RIPEMD160 then H.ripemd160 vch
      else if opcode == OP_SHA1 then H.sha1 vch
      else if opcode == OP_SHA256 then H.sha256 vch
      else if opcode == OP_HASH160 then H.hash160 vch
      else H.hash256 vch
    let stack ← popStack stack
    pure { st with stack := stack ++ [vchHash] }
  else if opcode = OP_CODESEPARATOR then pure { st with pbegincodehash := pc }
  else if opcode ∈ [OP_CHECKSIG, OP_CHECKSIGVERIFY] then
    opCheckSig H checker flags sigversion opcode st
  else if opcode ∈ [OP_CHECKMULTISIG, OP_CHECKMULTISIGVERIFY] then
    opCheckMultiSig H checker flags sigversion opcode st
  else throw .SCRIPT_ERR_BAD_OPCODE

/-- One turn of `EvalScript`'s loop. -/
def evalStep (opcode : UInt8) (vchPushValue : List UInt8) (pc : CScript) (st : EvalState) :
    Verify EvalState := do
  let fExec := st.vfExec.all id
  failIf (vchPushValue.length > MAX_SCRIPT_ELEMENT_SIZE) .SCRIPT_ERR_PUSH_SIZE
  let nOpCount := if opcode > OP_16 then st.nOpCount + 1 else st.nOpCount
  failIf (opcode > OP_16 && nOpCount > MAX_OPS_PER_SCRIPT) .SCRIPT_ERR_OP_COUNT
  failIf (isDisabledOpcode opcode) .SCRIPT_ERR_DISABLED_OPCODE
  failIf (opcode == OP_CODESEPARATOR && sigversion == .BASE &&
    hasFlag flags SCRIPT_VERIFY_CONST_SCRIPTCODE) .SCRIPT_ERR_OP_CODESEPARATOR
  let st := { st with nOpCount }
  let st ←
    (if fExec && opcode ≤ OP_PUSHDATA4 then do
      failIf (hasFlag flags SCRIPT_VERIFY_MINIMALDATA && !checkMinimalPush vchPushValue opcode)
        .SCRIPT_ERR_MINIMALDATA
      pure { st with stack := st.stack ++ [vchPushValue] }
    else if fExec || (OP_IF ≤ opcode && opcode ≤ OP_ENDIF) then
      execOp H checker flags sigversion opcode pc fExec st
    else pure st)
  failIf (st.stack.length + st.altstack.length > MAX_STACK_SIZE) .SCRIPT_ERR_STACK_SIZE
  pure st

/-- The loop of `EvalScript`, with `fuel` bounding the instructions. -/
def evalLoop : Nat → CScript → EvalState → Verify EvalState
  | 0, _, st => pure st
  | _ + 1, [], st => pure st
  | fuel + 1, pc@(_ :: _), st =>
      match getOp.run pc with
      | .error () => throw .SCRIPT_ERR_BAD_OPCODE
      | .ok ((opcode, vchPushValue), rest) => do
          let st ← evalStep H checker flags sigversion opcode vchPushValue rest st
          evalLoop fuel rest st

end Opcodes

/-- `EvalScript(stack, script, flags, checker, sigversion, serror)` with its
stack accesses checked: the stack it leaves. -/
def evalScript (H : ScriptHashes) (checker : SignatureChecker) (stack : Stack) (script : CScript)
    (flags : UInt32) (sigversion : SigVersion) : Verify Stack := do
  failIf (script.length > MAX_SCRIPT_SIZE) .SCRIPT_ERR_SCRIPT_SIZE
  let st ← evalLoop H checker flags sigversion script.length script ⟨stack, [], [], 0, script⟩
  failIf (!st.vfExec.isEmpty) .SCRIPT_ERR_UNBALANCED_CONDITIONAL
  pure st.stack

/-! ## The checked interpreter computes the model -/

section Agreement

variable {H : ScriptHashes} {checker : SignatureChecker} {flags : UInt32} {sigversion : SigVersion}

/-- `Computes.guard` for the checks of the verifier. -/
theorem computes_failIf_bind {β : Type} {c : Bool} {e : ScriptError} {k : Unit → Verify β}
    {f : Unit → Except ScriptError β} (hk : c = false → Computes (k ()) (f ())) :
    Computes (failIf c e >>= k) (rejectIf c e >>= f) :=
  Computes.guard hk

theorem opCheckLockTimeVerify_computes (stack : Stack) :
    Computes (opCheckLockTimeVerify checker flags stack)
      (Veribase.opCheckLockTimeVerify checker flags stack) := by
  unfold opCheckLockTimeVerify Veribase.opCheckLockTimeVerify
  refine Computes.ite (fun _ => computes_pure ()) fun _ => ?_
  refine computes_failIf_bind fun h => ?_
  simp only [decide_eq_false_iff_not, not_lt] at h
  rw [stackAt_of_le Nat.one_pos h, pure_bind]
  refine (computes_mk _).bind fun nLockTime => ?_
  exact computes_failIf_bind fun _ => computes_check _ _

theorem opCheckSequenceVerify_computes (stack : Stack) :
    Computes (opCheckSequenceVerify checker flags stack)
      (Veribase.opCheckSequenceVerify checker flags stack) := by
  unfold opCheckSequenceVerify Veribase.opCheckSequenceVerify
  refine Computes.ite (fun _ => computes_pure ()) fun _ => ?_
  refine computes_failIf_bind fun h => ?_
  simp only [decide_eq_false_iff_not, not_lt] at h
  rw [stackAt_of_le Nat.one_pos h, pure_bind]
  refine (computes_mk _).bind fun nSequence => ?_
  exact computes_failIf_bind fun _ => Computes.ite (fun _ => computes_pure ()) fun _ => computes_check _ _

theorem opIf_computes (opcode : UInt8) (fExec : Bool) (st : EvalState) :
    Computes (opIf flags sigversion opcode fExec st)
      (Veribase.opIf flags sigversion opcode fExec st) := by
  unfold opIf Veribase.opIf
  refine Computes.ite (fun _ => ?_) fun _ => computes_pure _
  refine computes_failIf_bind fun h => ?_
  simp only [decide_eq_false_iff_not, not_lt] at h
  rw [stackAt_of_le Nat.one_pos h, pure_bind]
  refine computes_failIf_bind fun _ => computes_failIf_bind fun _ => ?_
  rw [popStack_of_pos h, pure_bind]
  exact computes_pure _

theorem opPickRoll_computes (fRequireMinimal : Bool) (opcode : UInt8) (st : EvalState) :
    Computes (opPickRoll fRequireMinimal opcode st)
      (Veribase.opPickRoll fRequireMinimal opcode st) := by
  unfold opPickRoll Veribase.opPickRoll
  refine computes_failIf_bind fun h => ?_
  simp only [decide_eq_false_iff_not, not_lt] at h
  rw [stackAt_of_le Nat.one_pos (by omega), pure_bind]
  refine (computes_mk _).bind fun bn => ?_
  rw [popStack_of_pos (by omega), pure_bind]
  refine computes_failIf_bind fun hn => ?_
  -- the index test bounds the read and the erase below the popped count
  simp only [Bool.or_eq_false_iff, decide_eq_false_iff_not, not_lt, not_le] at hn
  have hlen : (getint bn).toNat + 1 ≤ st.stack.dropLast.length := by omega
  rw [stackAt_of_le (Nat.succ_pos _) hlen, pure_bind]
  by_cases hroll : (opcode == OP_ROLL) = true
  · rw [if_pos hroll, if_pos hroll, eraseAt_of_le (Nat.succ_pos _) hlen, pure_bind, Nat.sub_sub]
    exact computes_pure _
  · rw [if_neg hroll, if_neg hroll, pure_bind]
    exact computes_pure _

theorem opUnary_computes (fRequireMinimal : Bool) (opcode : UInt8) (st : EvalState) :
    Computes (opUnary fRequireMinimal opcode st)
      (Veribase.opUnary fRequireMinimal opcode st) := by
  unfold opUnary Veribase.opUnary
  refine computes_failIf_bind fun h => ?_
  simp only [decide_eq_false_iff_not, not_lt] at h
  rw [stackAt_of_le Nat.one_pos h, pure_bind]
  refine (computes_mk _).bind fun bn => ?_
  rw [popStack_of_pos h, pure_bind]
  exact computes_pure _

theorem opBinary_computes (fRequireMinimal : Bool) (opcode : UInt8) (st : EvalState) :
    Computes (opBinary fRequireMinimal opcode st)
      (Veribase.opBinary fRequireMinimal opcode st) := by
  unfold opBinary Veribase.opBinary
  refine computes_failIf_bind fun h => ?_
  simp only [decide_eq_false_iff_not, not_lt] at h
  rw [stackAt_of_le (by decide) h, pure_bind]
  refine (computes_mk _).bind fun bn1 => ?_
  rw [stackAt_of_le Nat.one_pos (by omega), pure_bind]
  refine (computes_mk _).bind fun bn2 => ?_
  rw [popStack_of_pos (by omega), pure_bind, popStack_of_pos (by simp; omega), pure_bind]
  refine Computes.ite (fun _ => ?_) fun _ => computes_pure _
  simp only [stackAt_push, stacktop_concat_one, pure_bind]
  refine Computes.ite (fun _ => ?_) fun _ => computes_throw _
  simp only [popStack_push, pure_bind, List.dropLast_concat]
  exact computes_pure _

theorem opWithin_computes (fRequireMinimal : Bool) (st : EvalState) :
    Computes (opWithin fRequireMinimal st) (Veribase.opWithin fRequireMinimal st) := by
  unfold opWithin Veribase.opWithin
  refine computes_failIf_bind fun h => ?_
  simp only [decide_eq_false_iff_not, not_lt] at h
  rw [stackAt_of_le (by decide) h, pure_bind]
  refine (computes_mk _).bind fun bn1 => ?_
  rw [stackAt_of_le (by decide) (by omega), pure_bind]
  refine (computes_mk _).bind fun bn2 => ?_
  rw [stackAt_of_le Nat.one_pos (by omega), pure_bind]
  refine (computes_mk _).bind fun bn3 => ?_
  rw [popStack_of_pos (by omega), pure_bind, popStack_of_pos (by simp; omega), pure_bind,
    popStack_of_pos (by simp; omega), pure_bind]
  exact computes_pure _

theorem opCheckSig_computes (opcode : UInt8) (st : EvalState) :
    Computes (opCheckSig H checker flags sigversion opcode st)
      (Veribase.opCheckSig H checker flags sigversion opcode st) := by
  unfold opCheckSig Veribase.opCheckSig
  refine computes_failIf_bind fun h => ?_
  simp only [decide_eq_false_iff_not, not_lt] at h
  rw [stackAt_of_le (by decide) h, pure_bind, stackAt_of_le Nat.one_pos (by omega), pure_bind]
  refine (computes_mk _).bind fun scriptCode => ?_
  refine (computes_mk _).bind fun _ => (computes_mk _).bind fun _ => ?_
  refine computes_failIf_bind fun _ => ?_
  rw [popStack_of_pos (by omega), pure_bind, popStack_of_pos (by simp; omega), pure_bind]
  refine Computes.ite (fun _ => Computes.ite (fun _ => ?_) fun _ => computes_throw _)
    fun _ => computes_pure _
  simp only [popStack_push, pure_bind, List.dropLast_concat]
  exact computes_pure _

/-- The signature loop reads a signature and a key while both remain: the
next signature at `isig`, below it the remaining `nSigsCount`, the next key at
`ikey`, below it the remaining `nKeysCount`. -/
theorem checkMultiSigLoop_computes (stack : Stack) (scriptCode : CScript) :
    ∀ nKeysCount isig ikey nSigsCount, 0 < isig → 0 < ikey →
      isig + nSigsCount ≤ stack.length + 1 → ikey + nKeysCount ≤ stack.length + 1 →
      Computes (checkMultiSigLoop H checker flags sigversion stack scriptCode isig ikey nSigsCount
          nKeysCount)
        (Veribase.checkMultiSigLoop H checker flags sigversion stack scriptCode isig ikey nSigsCount
          nKeysCount)
  | 0, _, _, _, _, _, _, _ => computes_pure true
  | nKeysCount + 1, isig, ikey, nSigsCount, hisig, hikey, hsig, hkey => by
    unfold checkMultiSigLoop Veribase.checkMultiSigLoop
    refine Computes.ite (fun _ => computes_pure true) fun hsigs => ?_
    rw [stackAt_of_le hisig (by omega), pure_bind, stackAt_of_le hikey (by omega), pure_bind]
    refine (computes_mk _).bind fun _ => (computes_mk _).bind fun _ => ?_
    refine Computes.ite (fun _ => computes_pure false) fun _ => ?_
    -- a matched signature moves `isig` on and takes one off the count, so their sum stays
    exact checkMultiSigLoop_computes stack scriptCode nKeysCount _ _ _ (by split <;> omega)
      (by omega) (by split <;> omega) (by omega)

/-- The test `c && stacktop(-1).size()` reads within the stack when `c`
holding implies that the stack is not empty. -/
theorem computes_failIfTopNonEmpty {β : Type} {stack : Stack} (c : Bool) (e : ScriptError)
    {k : Unit → Verify β} {f : Unit → Except ScriptError β} (h : c = true → 0 < stack.length)
    (hk : Computes (k ()) (f ())) :
    Computes (failIfTopNonEmpty c stack e >>= k)
      (rejectIf (c && !(stacktop stack 1).isEmpty) e >>= f) := by
  unfold failIfTopNonEmpty
  cases c with
  | true =>
    rw [if_pos rfl, stackAt_of_le Nat.one_pos (h rfl), pure_bind, Bool.true_and]
    exact computes_failIf_bind fun _ => hk
  | false =>
    rw [if_neg Bool.false_ne_true, pure_bind, Bool.false_and]
    exact hk

/-- The clean-up pops `i` arguments off a stack that holds them. -/
theorem cleanupMultiSig_computes (fSuccess : Bool) :
    ∀ i ikey2 (stack : Stack), i ≤ stack.length →
      Computes (cleanupMultiSig flags fSuccess i ikey2 stack)
        (Veribase.cleanupMultiSig flags fSuccess i ikey2 stack)
  | 0, _, _, _ => computes_pure _
  | i + 1, ikey2, stack, hi => by
    unfold cleanupMultiSig Veribase.cleanupMultiSig
    have hpos : 0 < stack.length := by omega
    refine computes_failIfTopNonEmpty _ _ (fun _ => hpos) ?_
    rw [popStack_of_pos hpos, pure_bind]
    exact cleanupMultiSig_computes fSuccess i (ikey2 - 1) stack.dropLast (by simp; omega)

theorem opCheckMultiSig_computes (opcode : UInt8) (st : EvalState) :
    Computes (opCheckMultiSig H checker flags sigversion opcode st)
      (Veribase.opCheckMultiSig H checker flags sigversion opcode st) := by
  unfold opCheckMultiSig Veribase.opCheckMultiSig
  refine computes_failIf_bind fun h1 => ?_
  simp only [decide_eq_false_iff_not, not_lt] at h1
  rw [stackAt_of_le Nat.one_pos h1, pure_bind]
  refine (computes_mk _).bind fun nKeys => ?_
  refine computes_failIf_bind fun _ => computes_failIf_bind fun _ => computes_failIf_bind fun hkeys => ?_
  simp only [decide_eq_false_iff_not, not_lt] at hkeys
  rw [stackAt_of_le (by omega) hkeys, pure_bind]
  refine (computes_mk _).bind fun nSigs => ?_
  refine computes_failIf_bind fun _ => computes_failIf_bind fun hsigs => ?_
  simp only [decide_eq_false_iff_not, not_lt] at hsigs
  -- the signatures below the keys are read once to drop them from the script code
  simp only [List.foldlM_map]
  refine (Computes.foldlM _ (fun scriptCode k hk => ?_) _).bind fun scriptCode => ?_
  · rw [List.mem_range] at hk
    rw [stackAt_of_le (by omega) (by omega), pure_bind]
    exact computes_mk _
  refine (checkMultiSigLoop_computes st.stack scriptCode _ _ _ _ (by omega) (by omega)
    (by omega) (by omega)).bind fun fSuccess => ?_
  refine (cleanupMultiSig_computes fSuccess _ _ st.stack (by omega)).bind fun stack => ?_
  refine computes_failIf_bind fun hone => ?_
  simp only [decide_eq_false_iff_not, not_lt] at hone
  refine computes_failIfTopNonEmpty _ _ (fun _ => hone) ?_
  rw [popStack_of_pos hone, pure_bind]
  refine Computes.ite (fun _ => Computes.ite (fun _ => ?_) fun _ => computes_throw _)
    fun _ => computes_pure _
  simp only [popStack_push, pure_bind, List.dropLast_concat]
  exact computes_pure _

/-- **Every case of the `switch` is within its stack.** -/
theorem execOp_computes (opcode : UInt8) (pc : CScript) (fExec : Bool) (st : EvalState) :
    Computes (execOp H checker flags sigversion opcode pc fExec st)
      (Veribase.execOp H checker flags sigversion opcode pc fExec st) := by
  unfold execOp Veribase.execOp
  -- take the tests of the switch one by one, keeping each case's body for the end
  repeat (refine Computes.ite (fun _ => ?_) fun _ => ?_; rotate_left)
  all_goals first
    | with_reducible exact computes_pure _
    | with_reducible exact computes_throw _
    | with_reducible exact (opCheckLockTimeVerify_computes _).bind fun _ => computes_pure _
    | with_reducible exact (opCheckSequenceVerify_computes _).bind fun _ => computes_pure _
    | with_reducible exact opIf_computes _ _ _
    | with_reducible exact opPickRoll_computes _ _ _
    | with_reducible exact opUnary_computes _ _ _
    | with_reducible exact opBinary_computes _ _ _
    | with_reducible exact opWithin_computes _ _
    | with_reducible exact opCheckSig_computes _ _
    | with_reducible exact opCheckMultiSig_computes _ _
    | with_reducible exact Computes.ite (fun _ => computes_throw _) fun _ => computes_pure _
    | with_reducible exact computes_failIf_bind fun _ => computes_pure _
    | skip
  -- the inline cases: the size test at the head bounds each access after it
  all_goals
    with_reducible refine computes_failIf_bind fun h => ?_
    simp only [decide_eq_false_iff_not, not_lt] at h
    simp (disch := ((try simp only [List.length_dropLast, length_swapTop]); omega)) only
      [stackAt_of_le, popStack_of_pos, eraseAt_of_le, eraseRange_of_le, insertAt_of_le,
        swapAt_of_le, pure_bind, popStack_push, List.dropLast_concat]
    repeat (first
      | with_reducible exact computes_pure _
      | with_reducible exact computes_throw _
      | refine Computes.ite (fun _ => ?_) fun _ => ?_)

theorem evalStep_computes (opcode : UInt8) (vchPushValue : List UInt8) (pc : CScript)
    (st : EvalState) :
    Computes (evalStep H checker flags sigversion opcode vchPushValue pc st)
      (Veribase.evalStep H checker flags sigversion opcode vchPushValue pc st) := by
  unfold evalStep Veribase.evalStep
  refine computes_failIf_bind fun _ => computes_failIf_bind fun _ => computes_failIf_bind fun _ => ?_
  refine computes_failIf_bind fun _ => ?_
  refine Computes.bind ?_ fun _ => computes_failIf_bind fun _ => computes_pure _
  -- a push, a case of the switch, or an instruction skipped in a false branch
  refine Computes.ite (fun _ => computes_failIf_bind fun _ => computes_pure _) fun _ => ?_
  exact Computes.ite (fun _ => execOp_computes _ _ _ _) fun _ => computes_pure _

theorem evalLoop_computes :
    ∀ fuel pc st, Computes (evalLoop H checker flags sigversion fuel pc st)
      (Veribase.evalLoop H checker flags sigversion fuel pc st)
  | 0, _, _ => computes_pure _
  | _ + 1, [], _ => computes_pure _
  | fuel + 1, b :: pc, st => by
    unfold evalLoop Veribase.evalLoop
    -- both loops branch on the same instruction read
    rcases getOp.run (b :: pc) with ⟨⟨⟩⟩ | ⟨⟨opcode, vchPushValue⟩, rest⟩
    · exact computes_throw _
    · exact (evalStep_computes _ _ _ _).bind fun st' => evalLoop_computes fuel _ st'

/-- **`EvalScript` reads and erases only within its stacks**: the
interpreter with its accesses checked never faults and ends as `evalScript`
does. -/
theorem evalScript_computes (H : ScriptHashes) (checker : SignatureChecker) (stack : Stack)
    (script : CScript) (flags : UInt32) (sigversion : SigVersion) :
    Computes (evalScript H checker stack script flags sigversion)
      (Veribase.evalScript H checker stack script flags sigversion) := by
  unfold evalScript Veribase.evalScript
  exact computes_failIf_bind fun _ =>
    (evalLoop_computes _ _ _).bind fun _ => computes_failIf_bind fun _ => computes_pure _

end Agreement

end Checked

end Veribase
