import Veribase.Script.Interpreter
import Veribase.Lib.Checks

/-!
# The script interpreter

`EvalScript(stack, script, flags, checker, sigversion, serror)`
(`script/interpreter.cpp`) reads the script one instruction at a time and
runs each on the stack: a push when it executes, one case of the opcode
`switch` otherwise, then the size limits.  Before the `switch` it refuses
oversized pushes, more than `MAX_OPS_PER_SCRIPT` counted opcodes, the
disabled opcodes, and `OP_CODESEPARATOR` under
`SCRIPT_VERIFY_CONST_SCRIPTCODE`.  The state of the loop is `EvalState`; the
conditional stack is the vector of booleans that the `ConditionStack` class
stands for.

`CScriptNum` becomes `scriptNum`, whose `scriptnum_error` ends the
evaluation with `SCRIPT_ERR_UNKNOWN_ERROR` as the `catch` of `EvalScript`
does.  The signature checker and the hash functions are parameters
(`SignatureChecker`, `ScriptHashes`); everything else the interpreter does
is here, with `ExecuteWitnessScript` and `VerifyWitnessProgram`, so that
`interpreterEnv` is the `ScriptEnv` of `VerifyScript`.
-/

namespace Veribase

open Checks ByteStream

/-! ## Flags, limits and opcodes (`script/interpreter.h`, `script/script.h`) -/

/-- `SCRIPT_VERIFY_LOW_S = (1U << 3)`. -/
def SCRIPT_VERIFY_LOW_S : UInt32 := 8

/-- `SCRIPT_VERIFY_MINIMALDATA = (1U << 6)`. -/
def SCRIPT_VERIFY_MINIMALDATA : UInt32 := 64

/-- `SCRIPT_VERIFY_DISCOURAGE_UPGRADABLE_NOPS = (1U << 7)`. -/
def SCRIPT_VERIFY_DISCOURAGE_UPGRADABLE_NOPS : UInt32 := 128

/-- `SCRIPT_VERIFY_DISCOURAGE_UPGRADABLE_WITNESS_PROGRAM = (1U << 12)`. -/
def SCRIPT_VERIFY_DISCOURAGE_UPGRADABLE_WITNESS_PROGRAM : UInt32 := 4096

/-- `SCRIPT_VERIFY_MINIMALIF = (1U << 13)`. -/
def SCRIPT_VERIFY_MINIMALIF : UInt32 := 8192

/-- `SCRIPT_VERIFY_NULLFAIL = (1U << 14)`. -/
def SCRIPT_VERIFY_NULLFAIL : UInt32 := 16384

/-- `SCRIPT_VERIFY_WITNESS_PUBKEYTYPE = (1U << 15)`. -/
def SCRIPT_VERIFY_WITNESS_PUBKEYTYPE : UInt32 := 32768

/-- `SCRIPT_VERIFY_CONST_SCRIPTCODE = (1U << 16)`. -/
def SCRIPT_VERIFY_CONST_SCRIPTCODE : UInt32 := 65536

def MAX_SCRIPT_ELEMENT_SIZE : Nat := 520

def MAX_OPS_PER_SCRIPT : Nat := 201

def MAX_PUBKEYS_PER_MULTISIG : Int := 20

def MAX_STACK_SIZE : Nat := 1000

@[match_pattern, reducible] def OP_1NEGATE : UInt8 := 0x4f
@[match_pattern, reducible] def OP_2 : UInt8 := 0x52
@[match_pattern, reducible] def OP_3 : UInt8 := 0x53
@[match_pattern, reducible] def OP_4 : UInt8 := 0x54
@[match_pattern, reducible] def OP_5 : UInt8 := 0x55
@[match_pattern, reducible] def OP_6 : UInt8 := 0x56
@[match_pattern, reducible] def OP_7 : UInt8 := 0x57
@[match_pattern, reducible] def OP_8 : UInt8 := 0x58
@[match_pattern, reducible] def OP_9 : UInt8 := 0x59
@[match_pattern, reducible] def OP_10 : UInt8 := 0x5a
@[match_pattern, reducible] def OP_11 : UInt8 := 0x5b
@[match_pattern, reducible] def OP_12 : UInt8 := 0x5c
@[match_pattern, reducible] def OP_13 : UInt8 := 0x5d
@[match_pattern, reducible] def OP_14 : UInt8 := 0x5e
@[match_pattern, reducible] def OP_15 : UInt8 := 0x5f
@[match_pattern, reducible] def OP_NOP : UInt8 := 0x61
@[match_pattern, reducible] def OP_IF : UInt8 := 0x63
@[match_pattern, reducible] def OP_NOTIF : UInt8 := 0x64
@[match_pattern, reducible] def OP_ELSE : UInt8 := 0x67
@[match_pattern, reducible] def OP_ENDIF : UInt8 := 0x68
@[match_pattern, reducible] def OP_VERIFY : UInt8 := 0x69
@[match_pattern, reducible] def OP_TOALTSTACK : UInt8 := 0x6b
@[match_pattern, reducible] def OP_FROMALTSTACK : UInt8 := 0x6c
@[match_pattern, reducible] def OP_2DROP : UInt8 := 0x6d
@[match_pattern, reducible] def OP_2DUP : UInt8 := 0x6e
@[match_pattern, reducible] def OP_3DUP : UInt8 := 0x6f
@[match_pattern, reducible] def OP_2OVER : UInt8 := 0x70
@[match_pattern, reducible] def OP_2ROT : UInt8 := 0x71
@[match_pattern, reducible] def OP_2SWAP : UInt8 := 0x72
@[match_pattern, reducible] def OP_IFDUP : UInt8 := 0x73
@[match_pattern, reducible] def OP_DEPTH : UInt8 := 0x74
@[match_pattern, reducible] def OP_DROP : UInt8 := 0x75
@[match_pattern, reducible] def OP_NIP : UInt8 := 0x77
@[match_pattern, reducible] def OP_OVER : UInt8 := 0x78
@[match_pattern, reducible] def OP_PICK : UInt8 := 0x79
@[match_pattern, reducible] def OP_ROLL : UInt8 := 0x7a
@[match_pattern, reducible] def OP_ROT : UInt8 := 0x7b
@[match_pattern, reducible] def OP_SWAP : UInt8 := 0x7c
@[match_pattern, reducible] def OP_TUCK : UInt8 := 0x7d
@[match_pattern, reducible] def OP_CAT : UInt8 := 0x7e
@[match_pattern, reducible] def OP_SUBSTR : UInt8 := 0x7f
@[match_pattern, reducible] def OP_LEFT : UInt8 := 0x80
@[match_pattern, reducible] def OP_RIGHT : UInt8 := 0x81
@[match_pattern, reducible] def OP_SIZE : UInt8 := 0x82
@[match_pattern, reducible] def OP_INVERT : UInt8 := 0x83
@[match_pattern, reducible] def OP_AND : UInt8 := 0x84
@[match_pattern, reducible] def OP_OR : UInt8 := 0x85
@[match_pattern, reducible] def OP_XOR : UInt8 := 0x86
@[match_pattern, reducible] def OP_1ADD : UInt8 := 0x8b
@[match_pattern, reducible] def OP_1SUB : UInt8 := 0x8c
@[match_pattern, reducible] def OP_2MUL : UInt8 := 0x8d
@[match_pattern, reducible] def OP_2DIV : UInt8 := 0x8e
@[match_pattern, reducible] def OP_NEGATE : UInt8 := 0x8f
@[match_pattern, reducible] def OP_ABS : UInt8 := 0x90
@[match_pattern, reducible] def OP_NOT : UInt8 := 0x91
@[match_pattern, reducible] def OP_0NOTEQUAL : UInt8 := 0x92
@[match_pattern, reducible] def OP_ADD : UInt8 := 0x93
@[match_pattern, reducible] def OP_SUB : UInt8 := 0x94
@[match_pattern, reducible] def OP_MUL : UInt8 := 0x95
@[match_pattern, reducible] def OP_DIV : UInt8 := 0x96
@[match_pattern, reducible] def OP_MOD : UInt8 := 0x97
@[match_pattern, reducible] def OP_LSHIFT : UInt8 := 0x98
@[match_pattern, reducible] def OP_RSHIFT : UInt8 := 0x99
@[match_pattern, reducible] def OP_BOOLAND : UInt8 := 0x9a
@[match_pattern, reducible] def OP_BOOLOR : UInt8 := 0x9b
@[match_pattern, reducible] def OP_NUMEQUAL : UInt8 := 0x9c
@[match_pattern, reducible] def OP_NUMEQUALVERIFY : UInt8 := 0x9d
@[match_pattern, reducible] def OP_NUMNOTEQUAL : UInt8 := 0x9e
@[match_pattern, reducible] def OP_LESSTHAN : UInt8 := 0x9f
@[match_pattern, reducible] def OP_GREATERTHAN : UInt8 := 0xa0
@[match_pattern, reducible] def OP_LESSTHANOREQUAL : UInt8 := 0xa1
@[match_pattern, reducible] def OP_GREATERTHANOREQUAL : UInt8 := 0xa2
@[match_pattern, reducible] def OP_MIN : UInt8 := 0xa3
@[match_pattern, reducible] def OP_MAX : UInt8 := 0xa4
@[match_pattern, reducible] def OP_WITHIN : UInt8 := 0xa5
@[match_pattern, reducible] def OP_RIPEMD160 : UInt8 := 0xa6
@[match_pattern, reducible] def OP_SHA1 : UInt8 := 0xa7
@[match_pattern, reducible] def OP_SHA256 : UInt8 := 0xa8
@[match_pattern, reducible] def OP_HASH256 : UInt8 := 0xaa
@[match_pattern, reducible] def OP_CODESEPARATOR : UInt8 := 0xab
@[match_pattern, reducible] def OP_CHECKSIGVERIFY : UInt8 := 0xad
@[match_pattern, reducible] def OP_CHECKMULTISIG : UInt8 := 0xae
@[match_pattern, reducible] def OP_CHECKMULTISIGVERIFY : UInt8 := 0xaf
@[match_pattern, reducible] def OP_NOP1 : UInt8 := 0xb0
@[match_pattern, reducible] def OP_CHECKLOCKTIMEVERIFY : UInt8 := 0xb1
@[match_pattern, reducible] def OP_CHECKSEQUENCEVERIFY : UInt8 := 0xb2
@[match_pattern, reducible] def OP_NOP4 : UInt8 := 0xb3
@[match_pattern, reducible] def OP_NOP5 : UInt8 := 0xb4
@[match_pattern, reducible] def OP_NOP6 : UInt8 := 0xb5
@[match_pattern, reducible] def OP_NOP7 : UInt8 := 0xb6
@[match_pattern, reducible] def OP_NOP8 : UInt8 := 0xb7
@[match_pattern, reducible] def OP_NOP9 : UInt8 := 0xb8
@[match_pattern, reducible] def OP_NOP10 : UInt8 := 0xb9

/-! ## What the interpreter calls outside itself -/

/-- `SigVersion`. -/
inductive SigVersion
  | BASE
  | WITNESS_V0
deriving DecidableEq, Repr

/-- The digests of the crypto opcodes (20 bytes for `RIPEMD160`, `SHA1` and
`HASH160`, 32 for the others) and `CPubKey::CheckLowS`. -/
structure ScriptHashes where
  ripemd160 : List UInt8 → List UInt8
  sha1 : List UInt8 → List UInt8
  sha256 : List UInt8 → List UInt8
  hash160 : List UInt8 → List UInt8
  hash256 : List UInt8 → List UInt8
  checkLowS : List UInt8 → Bool

/-- `BaseSignatureChecker`: what the interpreter asks of the spending
transaction. -/
structure SignatureChecker where
  checkSig : List UInt8 → List UInt8 → CScript → SigVersion → Bool
  checkLockTime : Int → Bool
  checkSequence : Int → Bool

/-! ## Script numbers -/

/-- `CScriptNum::set_vch(vch)`: the little-endian magnitude, negative when
the top bit of the last byte is set. -/
def scriptNumValue (vch : List UInt8) : Int :=
  match vch.getLast? with
  | none => 0
  | some last =>
      if last &&& 0x80 != 0 then -((leValue (vch.dropLast ++ [last &&& 0x7f]) : Nat) : Int)
      else leValue vch

/-- The test of `CScriptNum(vch, true, ...)`: the last byte carries no
magnitude and is not needed for the sign.  Negative zero, `0x80`, fails it. -/
def nonMinimal (vch : List UInt8) : Bool :=
  match vch.getLast? with
  | none => false
  | some last =>
      last &&& 0x7f == 0 && (vch.length ≤ 1 || vch.getD (vch.length - 2) 0 &&& 0x80 == 0)

/-- `CScriptNum(vch, fRequireMinimal, nMaxNumSize)`. -/
def scriptNum (vch : List UInt8) (fRequireMinimal : Bool) (nMaxNumSize : Nat) :
    Except ScriptError Int :=
  if vch.length > nMaxNumSize then throw .SCRIPT_ERR_UNKNOWN_ERROR
  else if fRequireMinimal && nonMinimal vch then throw .SCRIPT_ERR_UNKNOWN_ERROR
  else pure (scriptNumValue vch)

/-- `CScriptNum::getint()`: the value clamped to the range of `int`. -/
def getint (n : Int) : Int :=
  if n > 2147483647 then 2147483647 else if n < -2147483648 then -2147483648 else n

/-- `CScriptNum(b)` of a comparison. -/
def boolNum (b : Bool) : Int := if b then 1 else 0

/-- `vchTrue`. -/
def vchTrue : List UInt8 := [1]

/-- `vchFalse`. -/
def vchFalse : List UInt8 := []

/-! ## Stack access -/

/-- `stacktop(-n)`: the `n`-th element from the top. -/
def stacktop (stack : Stack) (n : Nat) : List UInt8 := stack.getD (stack.length - n) []

/-- `swap(stacktop(-i), stacktop(-j))`. -/
def swapTop (stack : Stack) (i j : Nat) : Stack :=
  (stack.set (stack.length - i) (stacktop stack j)).set (stack.length - j) (stacktop stack i)

/-- `vfExec.toggle_top()`. -/
def toggleTop (vfExec : List Bool) : List Bool :=
  match vfExec.getLast? with
  | none => vfExec
  | some b => vfExec.dropLast ++ [!b]

/-! ## Encodings -/

/-- `IsCompressedOrUncompressedPubKey(vchPubKey)`. -/
def isCompressedOrUncompressedPubKey (vchPubKey : List UInt8) : Bool :=
  if vchPubKey.length < 33 then false
  else if vchPubKey.getD 0 0 == 0x04 then vchPubKey.length == 65
  else if vchPubKey.getD 0 0 == 0x02 || vchPubKey.getD 0 0 == 0x03 then vchPubKey.length == 33
  else false

/-- `IsCompressedPubKey(vchPubKey)`. -/
def isCompressedPubKey (vchPubKey : List UInt8) : Bool :=
  vchPubKey.length == 33 && (vchPubKey.getD 0 0 == 0x02 || vchPubKey.getD 0 0 == 0x03)

/-- `IsValidSignatureEncoding(sig)`: strict DER, then the hash type byte. -/
def isValidSignatureEncoding (sig : List UInt8) : Bool :=
  let b (i : Nat) : UInt8 := sig.getD i 0
  let lenR := (b 3).toNat
  let lenS := (b (5 + lenR)).toNat
  9 ≤ sig.length && sig.length ≤ 73 && b 0 == 0x30 && (b 1).toNat == sig.length - 3 &&
    5 + lenR < sig.length && lenR + lenS + 7 == sig.length &&
    b 2 == 0x02 && lenR != 0 && b 4 &&& 0x80 == 0 &&
    !(lenR > 1 && b 4 == 0x00 && b 5 &&& 0x80 == 0) &&
    b (lenR + 4) == 0x02 && lenS != 0 && b (lenR + 6) &&& 0x80 == 0 &&
    !(lenS > 1 && b (lenR + 6) == 0x00 && b (lenR + 7) &&& 0x80 == 0)

/-- `IsLowDERSignature(vchSig, serror)`. -/
def isLowDERSignature (H : ScriptHashes) (vchSig : List UInt8) : Except ScriptError Unit := do
  rejectIf (!isValidSignatureEncoding vchSig) .SCRIPT_ERR_SIG_DER
  rejectIf (!H.checkLowS vchSig.dropLast) .SCRIPT_ERR_SIG_HIGH_S

/-- `IsDefinedHashtypeSignature(vchSig)`: `SIGHASH_ALL` to `SIGHASH_SINGLE`,
with or without `SIGHASH_ANYONECANPAY`. -/
def isDefinedHashtypeSignature (vchSig : List UInt8) : Bool :=
  match vchSig.getLast? with
  | none => false
  | some last =>
      let nHashType := last &&& ~~~0x80
      !(nHashType < 1 || nHashType > 3)

/-- `CheckSignatureEncoding(vchSig, flags, serror)`.  Its `else if` chain is
a sequence of checks, each reached when the ones before pass. -/
def checkSignatureEncoding (H : ScriptHashes) (vchSig : List UInt8) (flags : UInt32) :
    Except ScriptError Unit :=
  if vchSig.isEmpty then pure ()
  else do
    rejectIf (hasFlag flags (SCRIPT_VERIFY_DERSIG ||| SCRIPT_VERIFY_LOW_S ||| SCRIPT_VERIFY_STRICTENC) &&
      !isValidSignatureEncoding vchSig) .SCRIPT_ERR_SIG_DER
    (if hasFlag flags SCRIPT_VERIFY_LOW_S then isLowDERSignature H vchSig else pure ())
    rejectIf (hasFlag flags SCRIPT_VERIFY_STRICTENC && !isDefinedHashtypeSignature vchSig)
      .SCRIPT_ERR_SIG_HASHTYPE

/-- `CheckPubKeyEncoding(vchPubKey, flags, sigversion, serror)`. -/
def checkPubKeyEncoding (vchPubKey : List UInt8) (flags : UInt32) (sigversion : SigVersion) :
    Except ScriptError Unit := do
  rejectIf (hasFlag flags SCRIPT_VERIFY_STRICTENC && !isCompressedOrUncompressedPubKey vchPubKey)
    .SCRIPT_ERR_PUBKEYTYPE
  rejectIf (hasFlag flags SCRIPT_VERIFY_WITNESS_PUBKEYTYPE && sigversion == .WITNESS_V0 &&
    !isCompressedPubKey vchPubKey) .SCRIPT_ERR_WITNESS_PUBKEYTYPE

/-- `CheckMinimalPush(data, opcode)`. -/
def checkMinimalPush (data : List UInt8) (opcode : UInt8) : Bool :=
  if data.isEmpty then opcode == OP_0
  else if data.length == 1 && 1 ≤ data.getD 0 0 && data.getD 0 0 ≤ 16 then false
  else if data.length == 1 && data.getD 0 0 == 0x81 then false
  else if data.length ≤ 75 then opcode.toNat == data.length
  else if data.length ≤ 255 then opcode == OP_PUSHDATA1
  else if data.length ≤ 65535 then opcode == OP_PUSHDATA2
  else true

/-! ## `FindAndDelete` -/

/-- The inner `while` of `FindAndDelete`: skip the copies of `b` at `pc`. -/
def skipMatches (b : CScript) : Nat → List UInt8 → Nat → List UInt8 × Nat
  | 0, pc, nFound => (pc, nFound)
  | fuel + 1, pc, nFound =>
      if b.length ≤ pc.length && b.isPrefixOf pc then skipMatches b fuel (pc.drop b.length) (nFound + 1)
      else (pc, nFound)

/-- The outer loop of `FindAndDelete`: copy what lies between `pc2` and `pc`,
skip the copies of `b`, and read one instruction on.  Positions are the
suffixes of the script that start there. -/
def findAndDeleteLoop (b : CScript) : Nat → List UInt8 → List UInt8 → List UInt8 → Nat →
    List UInt8 × List UInt8 × Nat
  | 0, result, pc2, _, nFound => (result, pc2, nFound)
  | fuel + 1, result, pc2, pc, nFound =>
      let result := result ++ pc2.take (pc2.length - pc.length)
      let (pc, nFound) := skipMatches b pc.length pc nFound
      match getOp.run pc with
      | .ok (_, rest) => findAndDeleteLoop b fuel result pc rest nFound
      | .error () => (result, pc, nFound)

/-- `FindAndDelete(script, b)`: the script without the copies of `b` that
start at an instruction boundary, and their number. -/
def findAndDelete (script b : CScript) : CScript × Nat :=
  if b.isEmpty then (script, 0)
  else
    let (result, pc2, nFound) := findAndDeleteLoop b (script.length + 1) [] script script 0
    (if nFound > 0 then result ++ pc2 else script, nFound)

/-! ## The state of the loop and the opcodes -/

/-- The variables of `EvalScript`'s loop. -/
structure EvalState where
  stack : Stack
  altstack : Stack
  /-- `vfExec`, one entry per open `IF`. -/
  vfExec : List Bool
  nOpCount : Nat
  /-- The script from `pbegincodehash` to its end. -/
  pbegincodehash : CScript

/-- Drop the signature from the script code in a pre-segwit script; a copy
found there is refused under `SCRIPT_VERIFY_CONST_SCRIPTCODE`. -/
def dropSignature (flags : UInt32) (sigversion : SigVersion) (scriptCode : CScript)
    (vchSig : List UInt8) : Except ScriptError CScript :=
  if sigversion == .BASE then
    let (scriptCode, found) := findAndDelete scriptCode (pushData vchSig)
    do
      rejectIf (found > 0 && hasFlag flags SCRIPT_VERIFY_CONST_SCRIPTCODE)
        .SCRIPT_ERR_SIG_FINDANDDELETE
      pure scriptCode
  else pure scriptCode

section Opcodes

variable (H : ScriptHashes) (checker : SignatureChecker) (flags : UInt32) (sigversion : SigVersion)

/-- `OP_CHECKLOCKTIMEVERIFY`, a `NOP2` without its flag. -/
def opCheckLockTimeVerify (stack : Stack) : Except ScriptError Unit :=
  if !hasFlag flags SCRIPT_VERIFY_CHECKLOCKTIMEVERIFY then pure ()
  else do
    rejectIf (stack.length < 1) .SCRIPT_ERR_INVALID_STACK_OPERATION
    -- five-byte operands, to reach past 2038
    let nLockTime ← scriptNum (stacktop stack 1) (hasFlag flags SCRIPT_VERIFY_MINIMALDATA) 5
    rejectIf (nLockTime < 0) .SCRIPT_ERR_NEGATIVE_LOCKTIME
    rejectIf (!checker.checkLockTime nLockTime) .SCRIPT_ERR_UNSATISFIED_LOCKTIME

/-- `OP_CHECKSEQUENCEVERIFY`, a `NOP3` without its flag. -/
def opCheckSequenceVerify (stack : Stack) : Except ScriptError Unit :=
  if !hasFlag flags SCRIPT_VERIFY_CHECKSEQUENCEVERIFY then pure ()
  else do
    rejectIf (stack.length < 1) .SCRIPT_ERR_INVALID_STACK_OPERATION
    let nSequence ← scriptNum (stacktop stack 1) (hasFlag flags SCRIPT_VERIFY_MINIMALDATA) 5
    rejectIf (nSequence < 0) .SCRIPT_ERR_NEGATIVE_LOCKTIME
    -- `CTxIn::SEQUENCE_LOCKTIME_DISABLE_FLAG` makes it a `NOP`
    if nSequence.toNat &&& (1 <<< 31) != 0 then pure ()
    else rejectIf (!checker.checkSequence nSequence) .SCRIPT_ERR_UNSATISFIED_LOCKTIME

/-- `OP_IF` and `OP_NOTIF`. -/
def opIf (opcode : UInt8) (fExec : Bool) (st : EvalState) : Except ScriptError EvalState :=
  if fExec then do
    rejectIf (st.stack.length < 1) .SCRIPT_ERR_UNBALANCED_CONDITIONAL
    let vch := stacktop st.stack 1
    let minimalIf := sigversion == .WITNESS_V0 && hasFlag flags SCRIPT_VERIFY_MINIMALIF
    rejectIf (minimalIf && vch.length > 1) .SCRIPT_ERR_MINIMALIF
    rejectIf (minimalIf && vch.length == 1 && vch.getD 0 0 != 1) .SCRIPT_ERR_MINIMALIF
    let fValue := castToBool vch
    let fValue := if opcode == OP_NOTIF then !fValue else fValue
    pure { st with stack := st.stack.dropLast, vfExec := st.vfExec ++ [fValue] }
  else pure { st with vfExec := st.vfExec ++ [false] }

/-- `OP_PICK` and `OP_ROLL`. -/
def opPickRoll (fRequireMinimal : Bool) (opcode : UInt8) (st : EvalState) :
    Except ScriptError EvalState := do
  rejectIf (st.stack.length < 2) .SCRIPT_ERR_INVALID_STACK_OPERATION
  let n := getint (← scriptNum (stacktop st.stack 1) fRequireMinimal 4)
  let stack := st.stack.dropLast
  rejectIf (n < 0 || n ≥ stack.length) .SCRIPT_ERR_INVALID_STACK_OPERATION
  let vch := stacktop stack (n.toNat + 1)
  let stack := if opcode == OP_ROLL then stack.eraseIdx (stack.length - n.toNat - 1) else stack
  pure { st with stack := stack ++ [vch] }

/-- The one-operand numeric opcodes, `OP_1ADD` to `OP_0NOTEQUAL`. -/
def opUnary (fRequireMinimal : Bool) (opcode : UInt8) (st : EvalState) :
    Except ScriptError EvalState := do
  rejectIf (st.stack.length < 1) .SCRIPT_ERR_INVALID_STACK_OPERATION
  let bn ← scriptNum (stacktop st.stack 1) fRequireMinimal 4
  let bn := match opcode with
    | OP_1ADD => bn + 1
    | OP_1SUB => bn - 1
    | OP_NEGATE => -bn
    | OP_ABS => if bn < 0 then -bn else bn
    | OP_NOT => boolNum (bn == 0)
    | _ => boolNum (bn != 0)
  pure { st with stack := st.stack.dropLast ++ [scriptNumSerialize bn] }

/-- The two-operand numeric opcodes, `OP_ADD` to `OP_MAX`. -/
def opBinary (fRequireMinimal : Bool) (opcode : UInt8) (st : EvalState) :
    Except ScriptError EvalState := do
  rejectIf (st.stack.length < 2) .SCRIPT_ERR_INVALID_STACK_OPERATION
  let bn1 ← scriptNum (stacktop st.stack 2) fRequireMinimal 4
  let bn2 ← scriptNum (stacktop st.stack 1) fRequireMinimal 4
  let bn := match opcode with
    | OP_ADD => bn1 + bn2
    | OP_SUB => bn1 - bn2
    | OP_BOOLAND => boolNum (bn1 != 0 && bn2 != 0)
    | OP_BOOLOR => boolNum (bn1 != 0 || bn2 != 0)
    | OP_NUMEQUAL => boolNum (bn1 == bn2)
    | OP_NUMEQUALVERIFY => boolNum (bn1 == bn2)
    | OP_NUMNOTEQUAL => boolNum (bn1 != bn2)
    | OP_LESSTHAN => boolNum (bn1 < bn2)
    | OP_GREATERTHAN => boolNum (bn1 > bn2)
    | OP_LESSTHANOREQUAL => boolNum (bn1 ≤ bn2)
    | OP_GREATERTHANOREQUAL => boolNum (bn1 ≥ bn2)
    | OP_MIN => if bn1 < bn2 then bn1 else bn2
    | _ => if bn1 > bn2 then bn1 else bn2
  let stack := st.stack.dropLast.dropLast ++ [scriptNumSerialize bn]
  if opcode == OP_NUMEQUALVERIFY then
    if castToBool (stacktop stack 1) then pure { st with stack := stack.dropLast }
    else throw .SCRIPT_ERR_NUMEQUALVERIFY
  else pure { st with stack }

/-- `OP_WITHIN`. -/
def opWithin (fRequireMinimal : Bool) (st : EvalState) : Except ScriptError EvalState := do
  rejectIf (st.stack.length < 3) .SCRIPT_ERR_INVALID_STACK_OPERATION
  let bn1 ← scriptNum (stacktop st.stack 3) fRequireMinimal 4
  let bn2 ← scriptNum (stacktop st.stack 2) fRequireMinimal 4
  let bn3 ← scriptNum (stacktop st.stack 1) fRequireMinimal 4
  let fValue := bn2 ≤ bn1 && bn1 < bn3
  pure { st with stack := st.stack.dropLast.dropLast.dropLast ++ [if fValue then vchTrue else vchFalse] }

/-- `OP_CHECKSIG` and `OP_CHECKSIGVERIFY`. -/
def opCheckSig (opcode : UInt8) (st : EvalState) : Except ScriptError EvalState := do
  rejectIf (st.stack.length < 2) .SCRIPT_ERR_INVALID_STACK_OPERATION
  let vchSig := stacktop st.stack 2
  let vchPubKey := stacktop st.stack 1
  let scriptCode ← dropSignature flags sigversion st.pbegincodehash vchSig
  checkSignatureEncoding H vchSig flags
  checkPubKeyEncoding vchPubKey flags sigversion
  let fSuccess := checker.checkSig vchSig vchPubKey scriptCode sigversion
  rejectIf (!fSuccess && hasFlag flags SCRIPT_VERIFY_NULLFAIL && !vchSig.isEmpty)
    .SCRIPT_ERR_SIG_NULLFAIL
  let stack := st.stack.dropLast.dropLast ++ [if fSuccess then vchTrue else vchFalse]
  if opcode == OP_CHECKSIGVERIFY then
    if fSuccess then pure { st with stack := stack.dropLast } else throw .SCRIPT_ERR_CHECKSIGVERIFY
  else pure { st with stack }

/-- The signature loop of `OP_CHECKMULTISIG`: each key is tried once, in
order, against the next signature; it stops early, with `false`, when fewer
keys are left than signatures.  `nSigsCount ≤ nKeysCount` on entry, so no
signature is left when the keys are out. -/
def checkMultiSigLoop (stack : Stack) (scriptCode : CScript) (isig ikey nSigsCount : Nat) :
    Nat → Except ScriptError Bool
  | 0 => pure true
  | nKeysCount + 1 =>
      if nSigsCount = 0 then pure true
      else do
        let vchSig := stacktop stack isig
        let vchPubKey := stacktop stack ikey
        checkSignatureEncoding H vchSig flags
        checkPubKeyEncoding vchPubKey flags sigversion
        let fOk := checker.checkSig vchSig vchPubKey scriptCode sigversion
        let isig := if fOk then isig + 1 else isig
        let nSigsCount := if fOk then nSigsCount - 1 else nSigsCount
        if nSigsCount > nKeysCount then pure false
        else checkMultiSigLoop stack scriptCode isig (ikey + 1) nSigsCount nKeysCount

/-- The clean-up loop of `OP_CHECKMULTISIG`: pop `i` arguments; once `ikey2`
is down to zero the rest are signatures, which must be empty after a failure
under `SCRIPT_VERIFY_NULLFAIL`. -/
def cleanupMultiSig (fSuccess : Bool) : Nat → Nat → Stack → Except ScriptError Stack
  | 0, _, stack => pure stack
  | i + 1, ikey2, stack => do
      rejectIf (!fSuccess && hasFlag flags SCRIPT_VERIFY_NULLFAIL && ikey2 == 0 &&
        !(stacktop stack 1).isEmpty) .SCRIPT_ERR_SIG_NULLFAIL
      cleanupMultiSig fSuccess i (ikey2 - 1) stack.dropLast

/-- `OP_CHECKMULTISIG` and `OP_CHECKMULTISIGVERIFY`. -/
def opCheckMultiSig (opcode : UInt8) (st : EvalState) : Except ScriptError EvalState := do
  let stack := st.stack
  let fRequireMinimal := hasFlag flags SCRIPT_VERIFY_MINIMALDATA
  rejectIf (stack.length < 1) .SCRIPT_ERR_INVALID_STACK_OPERATION
  let nKeysCount := getint (← scriptNum (stacktop stack 1) fRequireMinimal 4)
  rejectIf (nKeysCount < 0 || nKeysCount > MAX_PUBKEYS_PER_MULTISIG) .SCRIPT_ERR_PUBKEY_COUNT
  let nOpCount := st.nOpCount + nKeysCount.toNat
  rejectIf (nOpCount > MAX_OPS_PER_SCRIPT) .SCRIPT_ERR_OP_COUNT
  let ikey := 2
  let ikey2 := nKeysCount.toNat + 2
  let i := 2 + nKeysCount.toNat
  rejectIf (stack.length < i) .SCRIPT_ERR_INVALID_STACK_OPERATION
  let nSigsCount := getint (← scriptNum (stacktop stack i) fRequireMinimal 4)
  rejectIf (nSigsCount < 0 || nSigsCount > nKeysCount) .SCRIPT_ERR_SIG_COUNT
  let isig := i + 1
  let i := isig + nSigsCount.toNat
  rejectIf (stack.length < i) .SCRIPT_ERR_INVALID_STACK_OPERATION
  let sigs := (List.range nSigsCount.toNat).map fun k => stacktop stack (isig + k)
  let scriptCode ← sigs.foldlM (dropSignature flags sigversion) st.pbegincodehash
  let fSuccess ← checkMultiSigLoop H checker flags sigversion stack scriptCode isig ikey
    nSigsCount.toNat nKeysCount.toNat
  let stack ← cleanupMultiSig flags fSuccess (i - 1) ikey2 stack
  rejectIf (stack.length < 1) .SCRIPT_ERR_INVALID_STACK_OPERATION
  -- the extra argument a bug makes it consume
  rejectIf (hasFlag flags SCRIPT_VERIFY_NULLDUMMY && !(stacktop stack 1).isEmpty)
    .SCRIPT_ERR_SIG_NULLDUMMY
  let stack := stack.dropLast ++ [if fSuccess then vchTrue else vchFalse]
  if opcode == OP_CHECKMULTISIGVERIFY then
    if fSuccess then pure { st with stack := stack.dropLast, nOpCount }
    else throw .SCRIPT_ERR_CHECKMULTISIGVERIFY
  else pure { st with stack, nOpCount }

/-- The `switch (opcode)` of `EvalScript`, for an instruction that executes
or is one of `OP_IF` to `OP_ENDIF`, its cases tested in order; `pc` is the
script after the instruction. -/
def execOp (opcode : UInt8) (pc : CScript) (fExec : Bool) (st : EvalState) :
    Except ScriptError EvalState :=
  let fRequireMinimal := hasFlag flags SCRIPT_VERIFY_MINIMALDATA
  let stack := st.stack
  if opcode ∈ [OP_1NEGATE, OP_1, OP_2, OP_3, OP_4, OP_5, OP_6, OP_7, OP_8, OP_9, OP_10, OP_11,
      OP_12, OP_13, OP_14, OP_15, OP_16] then
    pure { st with stack := stack ++ [scriptNumSerialize ((opcode.toNat : Int) - (OP_1.toNat - 1))] }
  else if opcode = OP_NOP then pure st
  else if opcode = OP_CHECKLOCKTIMEVERIFY then do
    opCheckLockTimeVerify checker flags stack
    pure st
  else if opcode = OP_CHECKSEQUENCEVERIFY then do
    opCheckSequenceVerify checker flags stack
    pure st
  else if opcode ∈ [OP_NOP1, OP_NOP4, OP_NOP5, OP_NOP6, OP_NOP7, OP_NOP8, OP_NOP9, OP_NOP10] then do
    rejectIf (hasFlag flags SCRIPT_VERIFY_DISCOURAGE_UPGRADABLE_NOPS)
      .SCRIPT_ERR_DISCOURAGE_UPGRADABLE_NOPS
    pure st
  else if opcode ∈ [OP_IF, OP_NOTIF] then opIf flags sigversion opcode fExec st
  else if opcode = OP_ELSE then
    if st.vfExec.isEmpty then throw .SCRIPT_ERR_UNBALANCED_CONDITIONAL
    else pure { st with vfExec := toggleTop st.vfExec }
  else if opcode = OP_ENDIF then
    if st.vfExec.isEmpty then throw .SCRIPT_ERR_UNBALANCED_CONDITIONAL
    else pure { st with vfExec := st.vfExec.dropLast }
  else if opcode = OP_VERIFY then do
    rejectIf (stack.length < 1) .SCRIPT_ERR_INVALID_STACK_OPERATION
    if castToBool (stacktop stack 1) then pure { st with stack := stack.dropLast }
    else throw .SCRIPT_ERR_VERIFY
  else if opcode = OP_RETURN then throw .SCRIPT_ERR_OP_RETURN
  else if opcode = OP_TOALTSTACK then do
    rejectIf (stack.length < 1) .SCRIPT_ERR_INVALID_STACK_OPERATION
    pure { st with stack := stack.dropLast, altstack := st.altstack ++ [stacktop stack 1] }
  else if opcode = OP_FROMALTSTACK then do
    rejectIf (st.altstack.length < 1) .SCRIPT_ERR_INVALID_ALTSTACK_OPERATION
    pure { st with stack := stack ++ [stacktop st.altstack 1], altstack := st.altstack.dropLast }
  else if opcode = OP_2DROP then do
    rejectIf (stack.length < 2) .SCRIPT_ERR_INVALID_STACK_OPERATION
    pure { st with stack := stack.dropLast.dropLast }
  else if opcode = OP_2DUP then do
    rejectIf (stack.length < 2) .SCRIPT_ERR_INVALID_STACK_OPERATION
    pure { st with stack := stack ++ [stacktop stack 2, stacktop stack 1] }
  else if opcode = OP_3DUP then do
    rejectIf (stack.length < 3) .SCRIPT_ERR_INVALID_STACK_OPERATION
    pure { st with stack := stack ++ [stacktop stack 3, stacktop stack 2, stacktop stack 1] }
  else if opcode = OP_2OVER then do
    rejectIf (stack.length < 4) .SCRIPT_ERR_INVALID_STACK_OPERATION
    pure { st with stack := stack ++ [stacktop stack 4, stacktop stack 3] }
  else if opcode = OP_2ROT then do
    rejectIf (stack.length < 6) .SCRIPT_ERR_INVALID_STACK_OPERATION
    pure { st with stack := stack.take (stack.length - 6) ++ stack.drop (stack.length - 4) ++
      [stacktop stack 6, stacktop stack 5] }
  else if opcode = OP_2SWAP then do
    rejectIf (stack.length < 4) .SCRIPT_ERR_INVALID_STACK_OPERATION
    pure { st with stack := swapTop (swapTop stack 4 2) 3 1 }
  else if opcode = OP_IFDUP then do
    rejectIf (stack.length < 1) .SCRIPT_ERR_INVALID_STACK_OPERATION
    let vch := stacktop stack 1
    pure { st with stack := if castToBool vch then stack ++ [vch] else stack }
  else if opcode = OP_DEPTH then pure { st with stack := stack ++ [scriptNumSerialize stack.length] }
  else if opcode = OP_DROP then do
    rejectIf (stack.length < 1) .SCRIPT_ERR_INVALID_STACK_OPERATION
    pure { st with stack := stack.dropLast }
  else if opcode = OP_DUP then do
    rejectIf (stack.length < 1) .SCRIPT_ERR_INVALID_STACK_OPERATION
    pure { st with stack := stack ++ [stacktop stack 1] }
  else if opcode = OP_NIP then do
    rejectIf (stack.length < 2) .SCRIPT_ERR_INVALID_STACK_OPERATION
    pure { st with stack := stack.eraseIdx (stack.length - 2) }
  else if opcode = OP_OVER then do
    rejectIf (stack.length < 2) .SCRIPT_ERR_INVALID_STACK_OPERATION
    pure { st with stack := stack ++ [stacktop stack 2] }
  else if opcode ∈ [OP_PICK, OP_ROLL] then opPickRoll fRequireMinimal opcode st
  else if opcode = OP_ROT then do
    rejectIf (stack.length < 3) .SCRIPT_ERR_INVALID_STACK_OPERATION
    pure { st with stack := swapTop (swapTop stack 3 2) 2 1 }
  else if opcode = OP_SWAP then do
    rejectIf (stack.length < 2) .SCRIPT_ERR_INVALID_STACK_OPERATION
    pure { st with stack := swapTop stack 2 1 }
  else if opcode = OP_TUCK then do
    rejectIf (stack.length < 2) .SCRIPT_ERR_INVALID_STACK_OPERATION
    pure { st with stack := stack.insertIdx (stack.length - 2) (stacktop stack 1) }
  else if opcode = OP_SIZE then do
    rejectIf (stack.length < 1) .SCRIPT_ERR_INVALID_STACK_OPERATION
    pure { st with stack := stack ++ [scriptNumSerialize (stacktop stack 1).length] }
  else if opcode ∈ [OP_EQUAL, OP_EQUALVERIFY] then do
    rejectIf (stack.length < 2) .SCRIPT_ERR_INVALID_STACK_OPERATION
    let fEqual := stacktop stack 2 == stacktop stack 1
    let stack := stack.dropLast.dropLast ++ [if fEqual then vchTrue else vchFalse]
    if opcode == OP_EQUALVERIFY then
      if fEqual then pure { st with stack := stack.dropLast } else throw .SCRIPT_ERR_EQUALVERIFY
    else pure { st with stack }
  else if opcode ∈ [OP_1ADD, OP_1SUB, OP_NEGATE, OP_ABS, OP_NOT, OP_0NOTEQUAL] then
    opUnary fRequireMinimal opcode st
  else if opcode ∈ [OP_ADD, OP_SUB, OP_BOOLAND, OP_BOOLOR, OP_NUMEQUAL, OP_NUMEQUALVERIFY,
      OP_NUMNOTEQUAL, OP_LESSTHAN, OP_GREATERTHAN, OP_LESSTHANOREQUAL, OP_GREATERTHANOREQUAL,
      OP_MIN, OP_MAX] then
    opBinary fRequireMinimal opcode st
  else if opcode = OP_WITHIN then opWithin fRequireMinimal st
  else if opcode ∈ [OP_RIPEMD160, OP_SHA1, OP_SHA256, OP_HASH160, OP_HASH256] then do
    rejectIf (stack.length < 1) .SCRIPT_ERR_INVALID_STACK_OPERATION
    let vch := stacktop stack 1
    let vchHash :=
      if opcode == OP_RIPEMD160 then H.ripemd160 vch
      else if opcode == OP_SHA1 then H.sha1 vch
      else if opcode == OP_SHA256 then H.sha256 vch
      else if opcode == OP_HASH160 then H.hash160 vch
      else H.hash256 vch
    pure { st with stack := stack.dropLast ++ [vchHash] }
  else if opcode = OP_CODESEPARATOR then pure { st with pbegincodehash := pc }
  else if opcode ∈ [OP_CHECKSIG, OP_CHECKSIGVERIFY] then
    opCheckSig H checker flags sigversion opcode st
  else if opcode ∈ [OP_CHECKMULTISIG, OP_CHECKMULTISIGVERIFY] then
    opCheckMultiSig H checker flags sigversion opcode st
  else throw .SCRIPT_ERR_BAD_OPCODE

/-- The opcodes disabled since CVE-2010-5137. -/
def isDisabledOpcode (opcode : UInt8) : Bool :=
  [OP_CAT, OP_SUBSTR, OP_LEFT, OP_RIGHT, OP_INVERT, OP_AND, OP_OR, OP_XOR, OP_2MUL, OP_2DIV,
    OP_MUL, OP_DIV, OP_MOD, OP_LSHIFT, OP_RSHIFT].contains opcode

/-- One turn of `EvalScript`'s loop, for the instruction `opcode` with its
push `vchPushValue`. -/
def evalStep (opcode : UInt8) (vchPushValue : List UInt8) (pc : CScript) (st : EvalState) :
    Except ScriptError EvalState := do
  let fExec := st.vfExec.all id
  rejectIf (vchPushValue.length > MAX_SCRIPT_ELEMENT_SIZE) .SCRIPT_ERR_PUSH_SIZE
  -- `OP_RESERVED` does not count towards the opcode limit
  let nOpCount := if opcode > OP_16 then st.nOpCount + 1 else st.nOpCount
  rejectIf (opcode > OP_16 && nOpCount > MAX_OPS_PER_SCRIPT) .SCRIPT_ERR_OP_COUNT
  rejectIf (isDisabledOpcode opcode) .SCRIPT_ERR_DISABLED_OPCODE
  -- even in a branch that does not execute
  rejectIf (opcode == OP_CODESEPARATOR && sigversion == .BASE &&
    hasFlag flags SCRIPT_VERIFY_CONST_SCRIPTCODE) .SCRIPT_ERR_OP_CODESEPARATOR
  let st := { st with nOpCount }
  let st ←
    (if fExec && opcode ≤ OP_PUSHDATA4 then do
      rejectIf (hasFlag flags SCRIPT_VERIFY_MINIMALDATA && !checkMinimalPush vchPushValue opcode)
        .SCRIPT_ERR_MINIMALDATA
      pure { st with stack := st.stack ++ [vchPushValue] }
    else if fExec || (OP_IF ≤ opcode && opcode ≤ OP_ENDIF) then
      execOp H checker flags sigversion opcode pc fExec st
    else pure st)
  rejectIf (st.stack.length + st.altstack.length > MAX_STACK_SIZE) .SCRIPT_ERR_STACK_SIZE
  pure st

/-- The loop of `EvalScript`, with `fuel` bounding the instructions. -/
def evalLoop : Nat → CScript → EvalState → Except ScriptError EvalState
  | 0, _, st => pure st
  | _ + 1, [], st => pure st
  | fuel + 1, pc@(_ :: _), st =>
      match getOp.run pc with
      | .error () => throw .SCRIPT_ERR_BAD_OPCODE
      | .ok ((opcode, vchPushValue), rest) => do
          let st ← evalStep H checker flags sigversion opcode vchPushValue rest st
          evalLoop fuel rest st

end Opcodes

/-- `EvalScript(stack, script, flags, checker, sigversion, serror)`: the
stack it leaves.  Every instruction takes a byte, so the length of the
script bounds the loop. -/
def evalScript (H : ScriptHashes) (checker : SignatureChecker) (stack : Stack) (script : CScript)
    (flags : UInt32) (sigversion : SigVersion) : Except ScriptError Stack := do
  rejectIf (script.length > MAX_SCRIPT_SIZE) .SCRIPT_ERR_SCRIPT_SIZE
  let st ← evalLoop H checker flags sigversion script.length script ⟨stack, [], [], 0, script⟩
  rejectIf (!st.vfExec.isEmpty) .SCRIPT_ERR_UNBALANCED_CONDITIONAL
  pure st.stack

/-- `ExecuteWitnessScript(stack, scriptPubKey, flags, sigversion, checker, serror)`. -/
def executeWitnessScript (H : ScriptHashes) (checker : SignatureChecker) (stack : Stack)
    (scriptPubKey : CScript) (flags : UInt32) (sigversion : SigVersion) :
    Except ScriptError Unit := do
  rejectIf (stack.any fun elem => elem.length > MAX_SCRIPT_ELEMENT_SIZE) .SCRIPT_ERR_PUSH_SIZE
  let stack ← evalScript H checker stack scriptPubKey flags sigversion
  -- scripts inside a witness require a clean stack
  rejectIf (stack.length != 1) .SCRIPT_ERR_CLEANSTACK
  rejectIf (!castToBool (stacktop stack 1)) .SCRIPT_ERR_EVAL_FALSE

/-- `VerifyWitnessProgram(witness, witversion, program, flags, checker, serror)`. -/
def verifyWitnessProgram (H : ScriptHashes) (checker : SignatureChecker) (witness : Stack)
    (witversion : Nat) (program : List UInt8) (flags : UInt32) : Except ScriptError Unit :=
  if witversion == 0 then
    if program.length == 32 then
      match witness.getLast? with
      | none => throw .SCRIPT_ERR_WITNESS_PROGRAM_WITNESS_EMPTY
      | some scriptPubKey =>
          if H.sha256 scriptPubKey != program then throw .SCRIPT_ERR_WITNESS_PROGRAM_MISMATCH
          else executeWitnessScript H checker witness.dropLast scriptPubKey flags .WITNESS_V0
    else if program.length == 20 then
      if witness.length != 2 then throw .SCRIPT_ERR_WITNESS_PROGRAM_MISMATCH
      else
        executeWitnessScript H checker witness
          ([OP_DUP, OP_HASH160] ++ pushData program ++ [OP_EQUALVERIFY, OP_CHECKSIG]) flags .WITNESS_V0
    else throw .SCRIPT_ERR_WITNESS_PROGRAM_WRONG_LENGTH
  -- higher versions pass, for future soft forks
  else rejectIf (hasFlag flags SCRIPT_VERIFY_DISCOURAGE_UPGRADABLE_WITNESS_PROGRAM)
    .SCRIPT_ERR_DISCOURAGE_UPGRADABLE_WITNESS_PROGRAM

/-- The interpreter `VerifyScript` calls, with the checker of one input. -/
def interpreterEnv (H : ScriptHashes) (checker : SignatureChecker) : ScriptEnv where
  evalScript stack script flags := evalScript H checker stack script flags .BASE
  verifyWitnessProgram := verifyWitnessProgram H checker

end Veribase
