import Veribase.Script.Interpreter
import Veribase.Chain.BlockIndex
import Veribase.Consensus.Params

/-!
# The script flags of a block

`GetBlockScriptFlags(pindex, params)` (`validation.cpp`) chooses the rules
`ConnectBlock` checks every input script of a block with.  It sets
`SCRIPT_VERIFY_P2SH` only when `pindex->phashBlock` is null, while
`ConnectBlock` begins with `assert(*pindex->phashBlock == block.GetHash())`,
and `TestBlockValidity` points the `phashBlock` of its dummy index at the
block hash.  Every index the flags are computed for has `phashBlock` set, so
the flags of every connected block lack the mandatory `SCRIPT_VERIFY_P2SH`
(`getBlockScriptFlags_of_phashBlock`): witness rules are off on this chain,
and only the three height-activated rules can be on.

Without the flag `VerifyScript` never runs the redeem script of a
pay-to-script-hash spend.  Any `scriptSig` whose evaluation leaves a value
hashing to the script hash on top of the stack is accepted, whatever that
redeem script would do (`verifyScript_blockScriptFlags`).

`EvalScript` is a parameter of the verifier; the one fact about it used here
is what the three-opcode output script `OP_HASH160 <h> OP_EQUAL` does to a
stack whose top hashes to `h` (`EvaluatesHashEqual`).
-/

namespace Veribase

/-- `IsScriptWitnessEnabled(params)`: off on this code base. -/
def isScriptWitnessEnabled (_params : Params) : Bool := false

/-- `IsWitnessEnabled(pindexPrev, params)`: off on this code base. -/
def isWitnessEnabled (_pindexPrev : Option uint256) (_params : Params) : Bool := false

/-- `GetBlockScriptFlags(pindex, consensusparams)`. -/
def getBlockScriptFlags (pindex : CBlockIndex) (consensusparams : Params) : UInt32 :=
  let flags := SCRIPT_VERIFY_NONE
  let flags := if pindex.phashBlock.isNone then flags ||| SCRIPT_VERIFY_P2SH else flags
  let flags :=
    if hasFlag flags SCRIPT_VERIFY_P2SH && isScriptWitnessEnabled consensusparams then
      flags ||| SCRIPT_VERIFY_WITNESS
    else flags
  let flags :=
    if pindex.nHeight ≥ consensusparams.BIP66Height then flags ||| SCRIPT_VERIFY_DERSIG else flags
  let flags :=
    if pindex.nHeight ≥ consensusparams.BIP65Height then flags ||| SCRIPT_VERIFY_CHECKLOCKTIMEVERIFY
    else flags
  let flags :=
    if pindex.nHeight ≥ consensusparams.CSVHeight then flags ||| SCRIPT_VERIFY_CHECKSEQUENCEVERIFY
    else flags
  if isWitnessEnabled pindex.pprev consensusparams then flags ||| SCRIPT_VERIFY_NULLDUMMY else flags

/-! ## The flags of an index with its hash set -/

/-- The flags that change what `VerifyScript` does beyond the two
evaluations: none of them is set. -/
structure FirstPassOnly (flags : UInt32) : Prop where
  no_sigpushonly : hasFlag flags SCRIPT_VERIFY_SIGPUSHONLY = false
  no_p2sh : hasFlag flags SCRIPT_VERIFY_P2SH = false
  no_witness : hasFlag flags SCRIPT_VERIFY_WITNESS = false
  no_cleanstack : hasFlag flags SCRIPT_VERIFY_CLEANSTACK = false

/-- With `phashBlock` set the flags are the height-activated ones only. -/
theorem getBlockScriptFlags_of_phashBlock {pindex : CBlockIndex} (hset : pindex.phashBlock.isSome)
    (consensusparams : Params) :
    getBlockScriptFlags pindex consensusparams =
      (((SCRIPT_VERIFY_NONE |||
        if pindex.nHeight ≥ consensusparams.BIP66Height then SCRIPT_VERIFY_DERSIG else 0) |||
        if pindex.nHeight ≥ consensusparams.BIP65Height then SCRIPT_VERIFY_CHECKLOCKTIMEVERIFY
        else 0) |||
        if pindex.nHeight ≥ consensusparams.CSVHeight then SCRIPT_VERIFY_CHECKSEQUENCEVERIFY
        else 0) := by
  have hnone : pindex.phashBlock.isNone = false := by
    cases h : pindex.phashBlock <;> simp_all
  unfold getBlockScriptFlags
  simp only [hnone, Bool.false_eq_true, if_false, isScriptWitnessEnabled, Bool.and_false,
    isWitnessEnabled]
  split_ifs <;> rfl

theorem firstPassOnly_getBlockScriptFlags {pindex : CBlockIndex} (hset : pindex.phashBlock.isSome)
    (consensusparams : Params) : FirstPassOnly (getBlockScriptFlags pindex consensusparams) := by
  rw [getBlockScriptFlags_of_phashBlock hset]
  constructor <;> split_ifs <;> decide

/-! ## What the verifier does with them -/

section Verify

variable (env : ScriptEnv) (scriptSig scriptPubKey : CScript) (witness : Stack) (flags : UInt32)

/-- With none of the extra flags, `VerifyScript` is the two evaluations and
the test of the top of the stack. -/
theorem verifyScript_firstPass (hflags : FirstPassOnly flags) :
    verifyScript env scriptSig scriptPubKey witness flags = (do
      let stack ← liftScript (env.evalScript [] scriptSig flags)
      let stack ← liftScript (env.evalScript stack scriptPubKey flags)
      failIf (!topIsTrue stack) .SCRIPT_ERR_EVAL_FALSE) := by
  simp only [verifyScript, hflags.no_sigpushonly, hflags.no_p2sh, Bool.false_and, failIf,
    Bool.false_eq_true, if_false, bareWitnessStep, hflags.no_witness, p2shStep, finalChecks,
    hflags.no_cleanstack, pure_bind, bind_pure_unit]

/-- What `EvalScript` does on `OP_HASH160 <hash160 x> OP_EQUAL` with `x` on
top of the stack: `x` is replaced by `vchTrue`. -/
def EvaluatesHashEqual (hash160 : List UInt8 → List UInt8) : Prop :=
  ∀ (stack : Stack) (x : List UInt8) (flags : UInt32),
    env.evalScript (stack ++ [x]) (scriptForScriptHash (hash160 x)) flags = .ok (stack ++ [[1]])

/-- **Blocks do not run redeem scripts.**  For every index with its hash set,
as `ConnectBlock` asserts, an input spending a pay-to-script-hash output
passes the script check as soon as its `scriptSig` leaves a value that
hashes to the script hash on top of the stack, whatever that redeem script
does. -/
theorem verifyScript_blockScriptFlags {hash160 : List UInt8 → List UInt8}
    (hspec : EvaluatesHashEqual env hash160) (pindex : CBlockIndex)
    (hset : pindex.phashBlock.isSome) (consensusparams : Params) (pushes : Stack)
    (redeemScript : List UInt8)
    (hsig : env.evalScript [] scriptSig (getBlockScriptFlags pindex consensusparams) =
      .ok (pushes ++ [redeemScript])) :
    verifyScript env scriptSig (scriptForScriptHash (hash160 redeemScript)) witness
      (getBlockScriptFlags pindex consensusparams) = pure () := by
  rw [verifyScript_firstPass env _ _ witness _ (firstPassOnly_getBlockScriptFlags hset consensusparams)]
  simp [hsig, hspec pushes redeemScript, failIf]

/-- The pushes of a push-only script, bottom first; `fuel` bounds the
instructions. -/
def pushesOf : Nat → CScript → Option Stack
  | 0, _ => some []
  | _ + 1, [] => some []
  | fuel + 1, pc@(_ :: _) =>
      match getOp.run pc with
      | .error () => none
      | .ok ((_, data), rest) => (pushesOf fuel rest).map (data :: ·)

/-- An evaluator for two script shapes: `OP_HASH160 <h> OP_EQUAL` on a stack
whose top hashes to `h`, and scripts of pushes. -/
def hashEqualEnv (hash160 : List UInt8 → List UInt8) : ScriptEnv where
  evalScript := fun stack script _ =>
    if stack.getLast?.any (fun x => script == scriptForScriptHash (hash160 x)) then
      .ok (stack.dropLast ++ [[1]])
    else
      match pushesOf script.length script with
      | some pushes => .ok (stack ++ pushes)
      | none => .error .SCRIPT_ERR_BAD_OPCODE
  verifyWitnessProgram := fun _ _ _ _ => .error .SCRIPT_ERR_UNKNOWN_ERROR

theorem hashEqualEnv_evaluatesHashEqual (hash160 : List UInt8 → List UInt8) :
    EvaluatesHashEqual (hashEqualEnv hash160) hash160 := by
  intro stack x flags
  simp [hashEqualEnv]

/-- A hash function with a constant 20-byte value. -/
def zeroHash160 (_ : List UInt8) : List UInt8 := List.replicate 20 0

/-- An index entry with its hash set, as `ConnectBlock` gets it. -/
def connectedIndex : CBlockIndex :=
  { CBlockIndex.ofHeader CBlockHeader.null with phashBlock := some uint256.zero }

/-- Vericoin parameters with zero limits and genesis hash. -/
def zeroParams : Params := vericoinParams uint256.zero uint256.zero uint256.zero []

/-- The redeem script `OP_0`, which leaves false, spent by its push alone. -/
theorem verifyScript_blockScriptFlags_op0 :
    EvaluatesHashEqual (hashEqualEnv zeroHash160) zeroHash160 ∧
    connectedIndex.phashBlock.isSome ∧
    (hashEqualEnv zeroHash160).evalScript [] (pushData [OP_0])
      (getBlockScriptFlags connectedIndex zeroParams) = .ok ([] ++ [[OP_0]]) ∧
    verifyScript (hashEqualEnv zeroHash160) (pushData [OP_0])
      (scriptForScriptHash (zeroHash160 [OP_0])) [] (getBlockScriptFlags connectedIndex zeroParams) =
      pure () :=
  ⟨hashEqualEnv_evaluatesHashEqual zeroHash160, rfl, by decide,
    verifyScript_blockScriptFlags (hashEqualEnv zeroHash160) (pushData [OP_0]) []
      (hashEqualEnv_evaluatesHashEqual zeroHash160) connectedIndex rfl zeroParams [] [OP_0]
      (by decide)⟩

end Verify

end Veribase
