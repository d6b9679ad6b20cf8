import Veribase.Script.Eval
import Veribase.Lib.GreedyMatch

/-!
# `OP_CHECKMULTISIG` is order-preserving matching

`OP_CHECKMULTISIG` (`script/interpreter.cpp`) takes from the stack `n`, `n`
keys, `m`, `m` signatures and one extra argument, and scans the keys once
from the top: a key the signature checker accepts for the current signature
moves the scan on to the next signature, and the scan stops with `false` as
soon as fewer keys than signatures are left.  That is `List.greedyMatch` over
the signatures and the keys as read from the top
(`checkMultiSigLoop_eq_greedyMatch`), which succeeds exactly when the
signatures match keys in their stack order, each key used once
(`List.greedyMatch_iff`).  Without the flags that check encodings or make a
failed check an error, the opcode replaces its arguments by that outcome,
after the `NULLDUMMY` check of the extra argument
(`opCheckMultiSig_orderedMatch`).
-/

namespace Veribase

open Checks

/-! ## Flags and encodings -/

theorem hasFlag_or (flags a b : UInt32) : hasFlag flags (a ||| b) = (hasFlag flags a || hasFlag flags b) := by
  have hdist : flags &&& (a ||| b) = (flags &&& a) ||| (flags &&& b) := by
    apply UInt32.toBitVec_inj.mp
    simp [BitVec.and_or_distrib_left]
  have hzero : ∀ x y : UInt32, x ||| y = 0 ↔ x = 0 ∧ y = 0 := by
    intro x y
    simp only [← UInt32.toBitVec_inj, UInt32.toBitVec_or, UInt32.toBitVec_zero]
    exact BitVec.or_eq_zero_iff
  unfold hasFlag
  rw [hdist, Bool.eq_iff_iff]
  simp only [Bool.or_eq_true, bne_iff_ne, ne_eq, hzero, not_and_or]

section Encodings

variable (H : ScriptHashes) (flags : UInt32) (sigversion : SigVersion)

/-- Without `DERSIG`, `LOW_S` and `STRICTENC` every signature passes
`CheckSignatureEncoding`. -/
theorem checkSignatureEncoding_of_flags (hder : hasFlag flags SCRIPT_VERIFY_DERSIG = false)
    (hlow : hasFlag flags SCRIPT_VERIFY_LOW_S = false) (hstrict : hasFlag flags SCRIPT_VERIFY_STRICTENC = false)
    (vchSig : List UInt8) : checkSignatureEncoding H vchSig flags = .ok () := by
  unfold checkSignatureEncoding
  split
  · rfl
  · simp [hasFlag_or, hder, hlow, hstrict, rejectIf]

/-- Without `STRICTENC` and `WITNESS_PUBKEYTYPE` every key passes
`CheckPubKeyEncoding`. -/
theorem checkPubKeyEncoding_of_flags (hstrict : hasFlag flags SCRIPT_VERIFY_STRICTENC = false)
    (hwit : hasFlag flags SCRIPT_VERIFY_WITNESS_PUBKEYTYPE = false) (vchPubKey : List UInt8) :
    checkPubKeyEncoding vchPubKey flags sigversion = .ok () := by
  simp [checkPubKeyEncoding, hstrict, hwit, rejectIf]

end Encodings

/-! ## The arguments on the stack -/

/-- `stacktop(-(k+1))` within the stack is the `k`-th element of the reversed
stack. -/
theorem stacktop_eq_getD_reverse (stack : Stack) {k : Nat} (hk : k < stack.length) :
    stacktop stack (k + 1) = stack.reverse.getD k [] := by
  unfold stacktop
  rw [List.getD_eq_getElem _ _ (by omega), List.getD_eq_getElem _ _ (by simpa using hk),
    List.getElem_reverse]
  congr 1
  omega

/-- The stack `OP_CHECKMULTISIG` reads: under the extra argument the `m`
signatures, `m`, the `n` keys and `n`, on top of `base`. -/
def multiSigStack (base : Stack) (dummy : List UInt8) (sigs keys : Stack) : Stack :=
  base ++ [dummy] ++ sigs ++ [scriptNumSerialize sigs.length] ++ keys ++ [scriptNumSerialize keys.length]

theorem reverse_multiSigStack (base : Stack) (dummy : List UInt8) (sigs keys : Stack) :
    (multiSigStack base dummy sigs keys).reverse =
      scriptNumSerialize keys.length :: (keys.reverse ++
        scriptNumSerialize sigs.length :: (sigs.reverse ++ dummy :: base.reverse)) := by
  simp [multiSigStack]

theorem length_multiSigStack (base : Stack) (dummy : List UInt8) (sigs keys : Stack) :
    (multiSigStack base dummy sigs keys).length = base.length + sigs.length + keys.length + 3 := by
  simp [multiSigStack]
  omega

section Layout

variable (base : Stack) (dummy : List UInt8) (sigs keys : Stack)

theorem stacktop_multiSigStack_nKeys : stacktop (multiSigStack base dummy sigs keys) 1 =
    scriptNumSerialize keys.length := by
  rw [stacktop_eq_getD_reverse _ (by simp [length_multiSigStack]), reverse_multiSigStack]
  rfl

theorem stacktop_multiSigStack_key {j : Nat} (hj : j < keys.length) :
    stacktop (multiSigStack base dummy sigs keys) (2 + j) = keys.reverse.getD j [] := by
  rw [show 2 + j = (j + 1) + 1 by omega, stacktop_eq_getD_reverse _ (by simp [length_multiSigStack]; omega),
    reverse_multiSigStack, List.getD_cons_succ, List.getD_append _ _ _ _ (by simpa using hj)]

theorem stacktop_multiSigStack_nSigs : stacktop (multiSigStack base dummy sigs keys) (2 + keys.length) =
    scriptNumSerialize sigs.length := by
  rw [show 2 + keys.length = (keys.length + 1) + 1 by omega,
    stacktop_eq_getD_reverse _ (by simp [length_multiSigStack]; omega), reverse_multiSigStack,
    List.getD_cons_succ, List.getD_append_right _ _ _ _ (by simp)]
  simp

theorem stacktop_multiSigStack_sig {j : Nat} (hj : j < sigs.length) :
    stacktop (multiSigStack base dummy sigs keys) (2 + keys.length + 1 + j) = sigs.reverse.getD j [] := by
  rw [show 2 + keys.length + 1 + j = (keys.length + (j + 1) + 1) + 1 by omega,
    stacktop_eq_getD_reverse _ (by simp [length_multiSigStack]; omega), reverse_multiSigStack,
    List.getD_cons_succ, List.getD_append_right _ _ _ _ (by simp), List.length_reverse,
    Nat.add_sub_cancel_left, List.getD_cons_succ, List.getD_append _ _ _ _ (by simpa using hj)]

end Layout

/-! ## The signature loop -/

/-- The flags under which `OP_CHECKMULTISIG` checks no encoding and lets a
failed signature be nonempty. -/
structure PlainMultiSigFlags (flags : UInt32) : Prop where
  dersig : hasFlag flags SCRIPT_VERIFY_DERSIG = false
  low_s : hasFlag flags SCRIPT_VERIFY_LOW_S = false
  strictenc : hasFlag flags SCRIPT_VERIFY_STRICTENC = false
  witness_pubkeytype : hasFlag flags SCRIPT_VERIFY_WITNESS_PUBKEYTYPE = false
  nullfail : hasFlag flags SCRIPT_VERIFY_NULLFAIL = false

section Loop

variable (H : ScriptHashes) (checker : SignatureChecker) {flags : UInt32} (sigversion : SigVersion)

/-- Elements read from the top at consecutive places, one list after its
head: the rest of the list is read one place further on. -/
theorem stacktop_tail {stack : Stack} {i : Nat} {x : List UInt8} {l : Stack}
    (h : ∀ j < (x :: l).length, stacktop stack (i + j) = (x :: l).getD j []) :
    ∀ j < l.length, stacktop stack (i + 1 + j) = l.getD j [] := by
  intro j hj
  rw [Nat.add_assoc, Nat.add_comm 1 j]
  exact h (j + 1) (by simpa using hj)

/-- **The signature loop is the greedy scan**: with the signatures from
`isig` and the keys from `ikey` read from the top, and no more signatures
than keys, the loop returns `List.greedyMatch` of the two lists. -/
theorem checkMultiSigLoop_eq_greedyMatch (hflags : PlainMultiSigFlags flags) (stack : Stack)
    (scriptCode : CScript) :
    ∀ (keys sigs : Stack) (isig ikey : Nat), sigs.length ≤ keys.length →
      (∀ j < sigs.length, stacktop stack (isig + j) = sigs.getD j []) →
      (∀ j < keys.length, stacktop stack (ikey + j) = keys.getD j []) →
      checkMultiSigLoop H checker flags sigversion stack scriptCode isig ikey sigs.length keys.length =
        .ok (List.greedyMatch (fun s k => checker.checkSig s k scriptCode sigversion) sigs keys) := by
  intro keys
  induction keys with
  | nil =>
    intro sigs isig ikey hlen _ _
    rw [List.length_eq_zero_iff.mp (Nat.le_zero.mp hlen)]
    rfl
  | cons key keys ih =>
    intro sigs isig ikey hlen hsig hkey
    -- the keys after the first start one place further from the top
    have hkeys := stacktop_tail hkey
    cases sigs with
    | nil => rfl
    | cons sig sigs =>
      have hs : stacktop stack isig = sig := by simpa using hsig 0 (by simp)
      have hk : stacktop stack ikey = key := by simpa using hkey 0 (by simp)
      simp only [List.length_cons] at hlen
      simp only [List.length_cons, checkMultiSigLoop, Nat.add_one_ne_zero, if_false, hs, hk,
        checkSignatureEncoding_of_flags H flags hflags.dersig hflags.low_s hflags.strictenc,
        checkPubKeyEncoding_of_flags flags sigversion hflags.strictenc hflags.witness_pubkeytype,
        List.greedyMatch, bind, Except.bind]
      by_cases hok : checker.checkSig sig key scriptCode sigversion = true
      · -- a match: both cursors move on
        have hsigs := stacktop_tail hsig
        simp only [hok, if_true, Nat.add_sub_cancel, show ¬sigs.length > keys.length by omega, if_false]
        exact ih sigs (isig + 1) (ikey + 1) (by omega) hsigs hkeys
      · -- no match: the key is spent, the signature waits for the next one
        simp only [hok, Bool.false_eq_true, if_false]
        by_cases hlt : sigs.length + 1 > keys.length
        · rw [if_pos hlt, List.greedyMatch_of_length_lt _ (by simpa using hlt)]
          rfl
        · rw [if_neg hlt]
          exact ih (sig :: sigs) isig (ikey + 1) (by simpa using hlt) hsig hkeys

end Loop

/-! ## The counts and the clean-up -/

/-- A count from `0` to `MAX_PUBKEYS_PER_MULTISIG`, pushed as its
serialization, reads back as itself, minimal or not. -/
theorem scriptNum_scriptNumSerialize_count {k : Nat} (hk : k ≤ 20) (fRequireMinimal : Bool) :
    scriptNum (scriptNumSerialize k) fRequireMinimal 4 = .ok k := by
  have hall : ∀ k : Fin 21, ∀ b : Bool,
      scriptNum (scriptNumSerialize (k.val : Int)) b 4 = .ok (k.val : Int) := by
    decide
  exact hall ⟨k, by omega⟩ fRequireMinimal

theorem getint_of_count {k : Nat} (hk : k ≤ 20) : getint k = k := by
  unfold getint
  rw [if_neg (by omega), if_neg (by omega)]

/-- Without `NULLFAIL` the clean-up pops its `i` arguments and nothing
else. -/
theorem cleanupMultiSig_of_nullfail {flags : UInt32} (hnull : hasFlag flags SCRIPT_VERIFY_NULLFAIL = false)
    (fSuccess : Bool) :
    ∀ (i ikey2 : Nat) (stack : Stack),
      cleanupMultiSig flags fSuccess i ikey2 stack = .ok (stack.take (stack.length - i)) := by
  intro i
  induction i with
  | zero =>
    intro ikey2 stack
    simp only [cleanupMultiSig, Nat.sub_zero, List.take_length]
    rfl
  | succ i ih =>
    intro ikey2 stack
    simp only [cleanupMultiSig, hnull, Bool.and_false, Bool.false_and, rejectIf_false, bind,
      Except.bind, ih, List.dropLast_eq_take, List.take_take, List.length_take]
    congr 2
    omega

/-- The signatures `OP_CHECKMULTISIG` drops from the script code, read from
the top. -/
theorem sigs_multiSigStack (base : Stack) (dummy : List UInt8) (sigs keys : Stack) :
    (List.range sigs.length).map (fun k => stacktop (multiSigStack base dummy sigs keys) (2 + keys.length + 1 + k)) =
      sigs.reverse := by
  apply List.ext_getElem (by simp)
  intro k hk _
  rw [List.getElem_map, List.getElem_range, stacktop_multiSigStack_sig _ _ _ _ (by simpa using hk),
    List.getD_eq_getElem]

/-! ## The opcode -/

section Opcode

variable (H : ScriptHashes) (checker : SignatureChecker) {flags : UInt32} (sigversion : SigVersion)

/-- `OP_CHECKMULTISIG` on its arguments: the operation count, the signatures
dropped from the script code, the `NULLDUMMY` check of the extra argument,
and the outcome of the greedy scan over the signatures and keys read from the
top in place of the arguments. -/
theorem opCheckMultiSig_multiSigStack (hflags : PlainMultiSigFlags flags) (st : EvalState)
    {base : Stack} {dummy : List UInt8} {sigs keys : Stack}
    (hstack : st.stack = multiSigStack base dummy sigs keys)
    (hm : sigs.length ≤ keys.length) (hn : keys.length ≤ 20) :
    opCheckMultiSig H checker flags sigversion OP_CHECKMULTISIG st = (do
      rejectIf (st.nOpCount + keys.length > MAX_OPS_PER_SCRIPT) .SCRIPT_ERR_OP_COUNT
      let scriptCode ← sigs.reverse.foldlM (dropSignature flags sigversion) st.pbegincodehash
      rejectIf (hasFlag flags SCRIPT_VERIFY_NULLDUMMY && !dummy.isEmpty) .SCRIPT_ERR_SIG_NULLDUMMY
      let fSuccess := List.greedyMatch (fun s k => checker.checkSig s k scriptCode sigversion)
        sigs.reverse keys.reverse
      pure { st with stack := base ++ [if fSuccess then vchTrue else vchFalse],
                     nOpCount := st.nOpCount + keys.length }) := by
  -- the facts each bind of the opcode needs, read off the layout
  have hlen := length_multiSigStack base dummy sigs keys
  have hm' : sigs.length ≤ 20 := by omega
  have hkeyPos : ¬(keys.length : Int) < 0 := by omega
  have hkeyMax : ¬(keys.length : Int) > MAX_PUBKEYS_PER_MULTISIG := by
    rw [show MAX_PUBKEYS_PER_MULTISIG = 20 from rfl]
    omega
  have hsigPos : ¬(sigs.length : Int) < 0 := by omega
  have hsigMax : ¬(sigs.length : Int) > keys.length := by omega
  have hfit₁ : ¬(multiSigStack base dummy sigs keys).length < 1 := by omega
  have hfit₂ : ¬(multiSigStack base dummy sigs keys).length < 2 + keys.length := by omega
  have hfit₃ : ¬(multiSigStack base dummy sigs keys).length < 2 + keys.length + 1 + sigs.length := by omega
  have hdummy : stacktop (base ++ [dummy]) 1 = dummy := by
    rw [stacktop_eq_getD_reverse _ (by simp)]
    simp
  have hop : (OP_CHECKMULTISIG == OP_CHECKMULTISIGVERIFY) = false := by decide
  have hloop : ∀ scriptCode, checkMultiSigLoop H checker flags sigversion (multiSigStack base dummy sigs keys)
      scriptCode (2 + keys.length + 1) 2 sigs.length keys.length =
        .ok (List.greedyMatch (fun s k => checker.checkSig s k scriptCode sigversion) sigs.reverse keys.reverse) := by
    intro scriptCode
    have h := checkMultiSigLoop_eq_greedyMatch H checker sigversion hflags (multiSigStack base dummy sigs keys)
      scriptCode keys.reverse sigs.reverse (2 + keys.length + 1) 2 (by simpa using hm)
      (fun j hj => stacktop_multiSigStack_sig base dummy sigs keys (by simpa using hj))
      (fun j hj => stacktop_multiSigStack_key base dummy sigs keys (by simpa using hj))
    rwa [List.length_reverse, List.length_reverse] at h
  have hclean : ∀ fSuccess, cleanupMultiSig flags fSuccess (2 + keys.length + 1 + sigs.length - 1)
      (keys.length + 2) (multiSigStack base dummy sigs keys) = .ok (base ++ [dummy]) := by
    intro fSuccess
    have hsplit : multiSigStack base dummy sigs keys = (base ++ [dummy]) ++
        (sigs ++ [scriptNumSerialize sigs.length] ++ keys ++ [scriptNumSerialize keys.length]) := by
      simp [multiSigStack]
    rw [cleanupMultiSig_of_nullfail hflags.nullfail, hsplit, List.take_left' (by simp; omega)]
  simp only [opCheckMultiSig, hstack, stacktop_multiSigStack_nKeys, scriptNum_scriptNumSerialize_count hn,
    getint_of_count hn, Int.toNat_natCast, stacktop_multiSigStack_nSigs, scriptNum_scriptNumSerialize_count hm',
    getint_of_count hm', sigs_multiSigStack, hloop, hclean, hkeyPos, hkeyMax, hsigPos, hsigMax, hfit₁, hfit₂,
    hfit₃, hdummy, hop, decide_false, Bool.or_false, rejectIf_false, List.dropLast_concat, List.length_append,
    List.length_singleton, Nat.lt_one_iff, Nat.add_one_ne_zero, Bool.false_eq_true, if_false, bind, Except.bind]

/-- **`OP_CHECKMULTISIG` matches signatures to keys in order.**  On a stack
of an extra argument, `m` signatures, `m`, `n` keys and `n`, with
`m ≤ n ≤ MAX_PUBKEYS_PER_MULTISIG`, and without the encoding flags and
`NULLFAIL`, the opcode replaces its arguments by `true` exactly when keys at
strictly increasing positions accept the signatures, both in stack order; it
fails only on the operation count, a signature drop or the `NULLDUMMY`
check. -/
theorem opCheckMultiSig_orderedMatch (hflags : PlainMultiSigFlags flags) (st : EvalState)
    {base : Stack} {dummy : List UInt8} {sigs keys : Stack}
    (hstack : st.stack = multiSigStack base dummy sigs keys)
    (hm : sigs.length ≤ keys.length) (hn : (keys.length : Int) ≤ MAX_PUBKEYS_PER_MULTISIG) :
    opCheckMultiSig H checker flags sigversion OP_CHECKMULTISIG st = (do
      rejectIf (st.nOpCount + keys.length > MAX_OPS_PER_SCRIPT) .SCRIPT_ERR_OP_COUNT
      let scriptCode ← sigs.reverse.foldlM (dropSignature flags sigversion) st.pbegincodehash
      rejectIf (hasFlag flags SCRIPT_VERIFY_NULLDUMMY && !dummy.isEmpty) .SCRIPT_ERR_SIG_NULLDUMMY
      pure { st with
        stack := base ++ [if ∃ j : Fin sigs.length → Fin keys.length, StrictMono j ∧
            ∀ i, checker.checkSig (sigs.get i) (keys.get (j i)) scriptCode sigversion = true
          then vchTrue else vchFalse]
        nOpCount := st.nOpCount + keys.length }) := by
  have hn' : keys.length ≤ 20 := by
    have hmax : MAX_PUBKEYS_PER_MULTISIG = 20 := rfl
    omega
  rw [opCheckMultiSig_multiSigStack H checker sigversion hflags st hstack hm hn']
  -- the greedy scan from the top succeeds exactly on an ordered match
  have hmatch : ∀ scriptCode, List.greedyMatch (fun s k => checker.checkSig s k scriptCode sigversion)
      sigs.reverse keys.reverse = true ↔ ∃ j : Fin sigs.length → Fin keys.length, StrictMono j ∧
        ∀ i, checker.checkSig (sigs.get i) (keys.get (j i)) scriptCode sigversion = true := by
    intro scriptCode
    rw [List.greedyMatch_iff, List.sublistForall₂_reverse_iff, List.sublistForall₂_iff_exists_strictMono]
  simp only [hmatch]

theorem opCheckMultiSig_orderedMatch_sample :
    PlainMultiSigFlags 0 ∧
      (opCheckMultiSig ⟨id, id, id, id, id, fun _ => true⟩
          ⟨fun sig key _ _ => key == sig.map (· + 1), fun _ => true, fun _ => true⟩ 0 .BASE OP_CHECKMULTISIG
          ⟨multiSigStack [] [] [[1], [3]] [[2], [3], [4]], [], [], 0, []⟩).map EvalState.stack =
        .ok [vchTrue] := by
  have hflags : PlainMultiSigFlags 0 := ⟨by decide, by decide, by decide, by decide, by decide⟩
  refine ⟨hflags, ?_⟩
  rw [opCheckMultiSig_orderedMatch _ _ _ hflags _ rfl (by decide) (by decide)]
  decide

end Opcode

end Veribase
