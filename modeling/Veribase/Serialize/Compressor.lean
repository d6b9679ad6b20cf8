import Veribase.Script.Script
import Veribase.Serialize.Transaction
import Veribase.Serialize.VarInt

/-!
# Compressed outputs

`compressor.h` stores an output in the coin database and the undo files as a
compressed amount and a compressed script (`TxOutCompression`).

`CompressAmount` strips up to nine trailing decimal zeros into an exponent `e`
and folds the last nonzero digit into the rest; `DecompressAmount` inverts it
for every amount whose compressed form does not wrap `uint64_t`
(`decompressAmount_compressAmount`).

`CompressScript` recognises four standard script shapes, pay to a key hash,
pay to a script hash and pay to a compressed or a valid uncompressed key, and
writes each as a type byte below six followed by 20 or 32 bytes; any other
script is written as its length plus six, then its bytes.  The uncompressed
key is stored as its X coordinate and the parity of Y, and rebuilt by
libsecp256k1.  Its parser is a parameter here, `ecPubkeyParse`, giving the
65-byte serialization of the point a key encodes; `Secp256k1Recovers` is its
documented behaviour on a valid uncompressed key.

`txOutCompressionUnser_ser` is the round trip: an output with an amount in
`MoneyRange` and a script of at most `MAX_SCRIPT_SIZE` bytes reads back from
its compressed form, and the read stops where the form ends.
-/

namespace Veribase

open ByteStream

/-- The largest `unsigned int`. -/
def UINT32_MAX : Nat := 0xFFFFFFFF

/-- The largest `uint64_t`. -/
def UINT64_MAX : Nat := 0xFFFFFFFFFFFFFFFF

/-- `CDataStream::ignore(nSize)`, with the size passed as an `int`. -/
def streamIgnore (nSize : Nat) : StreamReader Unit :=
  if nSize ≥ 2 ^ 31 then throw "CDataStream::ignore(): nSize negative"
  else do
    let _ ← readBytes "CDataStream::ignore(): end of data" nSize
    pure ()

/-! ## Amounts -/

/-- The loop of `CompressAmount`: trailing decimal zeros stripped from `n`, at
most nine in all, and counted in `e`. -/
def stripZeros (n e : Nat) : Nat × Nat :=
  if h : n % 10 = 0 ∧ e < 9 then stripZeros (n / 10) (e + 1) else (n, e)
termination_by 9 - e
decreasing_by omega

/-- `CompressAmount(n)`, in `uint64_t` arithmetic. -/
def compressAmount (n : Nat) : Nat :=
  if n = 0 then 0
  else
    let (n, e) := stripZeros n 0
    if e < 9 then
      let d := n % 10
      let n := n / 10
      (1 + (n * 9 + d - 1) * 10 + e) % 2 ^ 64
    else (1 + (n - 1) * 10 + 9) % 2 ^ 64

/-- `DecompressAmount(x)`, in `uint64_t` arithmetic; the closing loop
multiplies by ten `e` times. -/
def decompressAmount (x : Nat) : Nat :=
  if x = 0 then 0
  else
    let x := x - 1
    let e := x % 10
    let x := x / 10
    let n :=
      if e < 9 then
        let d := x % 9 + 1
        let x := x / 9
        x * 10 + d
      else x + 1
    n * 10 ^ e % 2 ^ 64

/-- What `stripZeros` keeps: the value, a mantissa that is not zero, at most
nine zeros, and a last digit that is not zero unless all nine went. -/
theorem stripZeros_spec (n e : Nat) : 0 < n → e ≤ 9 →
    0 < (stripZeros n e).1 ∧ n * 10 ^ e = (stripZeros n e).1 * 10 ^ (stripZeros n e).2 ∧
      (stripZeros n e).2 ≤ 9 ∧ ((stripZeros n e).2 < 9 → (stripZeros n e).1 % 10 ≠ 0) := by
  fun_induction stripZeros n e with
  | case1 n e h ih =>
    intro hn he
    obtain ⟨h1, h2, h3, h4⟩ := ih (by omega) (by omega)
    refine ⟨h1, ?_, h3, h4⟩
    -- one zero moves from the mantissa to the exponent
    have hsplit : n = n / 10 * 10 := by omega
    rw [← h2, Nat.pow_succ, hsplit, Nat.mul_div_cancel _ (by decide : 0 < 10), Nat.mul_assoc,
      Nat.mul_comm 10]
  | case2 n e h =>
    intro hn he
    exact ⟨hn, rfl, he, fun hlt h0 => h ⟨h0, hlt⟩⟩

/-- **Amount round trip.**  Every amount whose compressed form fits
`uint64_t` decompresses to itself. -/
theorem decompressAmount_compressAmount {n : Nat} (h : 10 * n < 2 ^ 64) :
    decompressAmount (compressAmount n) = n := by
  by_cases h0 : n = 0
  · simp [h0, compressAmount, decompressAmount]
  obtain ⟨hm, hval, he9, hdigit⟩ := stripZeros_spec n 0 (by omega) (Nat.zero_le _)
  rcases hs : stripZeros n 0 with ⟨m, e⟩
  rw [hs] at hm hval he9 hdigit
  simp only [pow_zero, Nat.mul_one] at hm hval he9 hdigit
  -- the mantissa is at most the amount
  have hmn : m ≤ n := by
    rw [hval]
    exact Nat.le_mul_of_pos_right m (Nat.pow_pos (by decide))
  have hback : m * 10 ^ e % 2 ^ 64 = n := by
    rw [← hval]
    exact Nat.mod_eq_of_lt (by omega)
  simp only [compressAmount, if_neg h0, hs]
  by_cases he : e < 9
  · -- the last digit `d` of the mantissa is kept in the code
    have hd := hdigit he
    have hc : (1 + (m / 10 * 9 + m % 10 - 1) * 10 + e) % 2 ^ 64 =
        1 + (m / 10 * 9 + m % 10 - 1) * 10 + e := Nat.mod_eq_of_lt (by omega)
    have hne : 1 + (m / 10 * 9 + m % 10 - 1) * 10 + e ≠ 0 := by omega
    have hx : (1 + (m / 10 * 9 + m % 10 - 1) * 10 + e - 1) / 10 = m / 10 * 9 + m % 10 - 1 := by
      omega
    have hex : (1 + (m / 10 * 9 + m % 10 - 1) * 10 + e - 1) % 10 = e := by omega
    have hq : (m / 10 * 9 + m % 10 - 1) / 9 * 10 + ((m / 10 * 9 + m % 10 - 1) % 9 + 1) = m := by
      omega
    simp only [if_pos he, hc, decompressAmount, if_neg hne, hx, hex, hq]
    exact hback
  · -- nine zeros: the mantissa is stored whole
    obtain rfl : e = 9 := by omega
    have hc : (1 + (m - 1) * 10 + 9) % 2 ^ 64 = 1 + (m - 1) * 10 + 9 := Nat.mod_eq_of_lt (by omega)
    have hne : 1 + (m - 1) * 10 + 9 ≠ 0 := by omega
    have hx : (1 + (m - 1) * 10 + 9 - 1) / 10 + 1 = m := by omega
    have hex : (1 + (m - 1) * 10 + 9 - 1) % 10 = 9 := by omega
    simp only [hc, decompressAmount, if_neg hne, hex, lt_irrefl, if_false, hx]
    exact hback

/-- The amount a code stands for in exact arithmetic: `DecompressAmount`'s
mantissa times ten to its exponent, before `uint64_t` wraps it. -/
def exactDecompressAmount (x : Nat) : Nat :=
  if x = 0 then 0
  else
    let x := x - 1
    let e := x % 10
    let x := x / 10
    let n :=
      if e < 9 then
        let d := x % 9 + 1
        let x := x / 9
        x * 10 + d
      else x + 1
    n * 10 ^ e

theorem decompressAmount_eq_mod (x : Nat) :
    decompressAmount x = exactDecompressAmount x % 2 ^ 64 := by
  unfold decompressAmount exactDecompressAmount
  split <;> rfl

/-- On a mantissa times a power of ten, the loop of `CompressAmount` strips
exactly those zeros, when the mantissa ends in a nonzero digit or the count
reaches nine with the last of them. -/
theorem stripZeros_mul_pow {m : Nat} :
    ∀ e k, k + e ≤ 9 → (m % 10 ≠ 0 ∨ k + e = 9) → stripZeros (m * 10 ^ e) k = (m, k + e)
  | 0, k, _, hstop => by
    rw [stripZeros, dif_neg (by omega)]
    simp
  | e + 1, k, hle, hstop => by
    have hdiv : m * 10 ^ (e + 1) / 10 = m * 10 ^ e := by
      rw [Nat.pow_succ, ← Nat.mul_assoc, Nat.mul_div_cancel _ (by decide)]
    have hzero : m * 10 ^ (e + 1) % 10 = 0 := by
      rw [Nat.pow_succ, ← Nat.mul_assoc, Nat.mul_mod_left]
    rw [stripZeros, dif_pos ⟨hzero, by omega⟩, hdiv,
      stripZeros_mul_pow e (k + 1) (by omega) (by omega)]
    congr 1
    omega

/-- Decompressing, then compressing, gives the code back, for every code of
`uint64_t` whose exact amount does not wrap. -/
theorem compressAmount_decompressAmount {x : Nat} (hx : x < 2 ^ 64)
    (hv : exactDecompressAmount x < 2 ^ 64) : compressAmount (decompressAmount x) = x := by
  rw [decompressAmount_eq_mod, Nat.mod_eq_of_lt hv]
  by_cases h0 : x = 0
  · subst h0
    rfl
  unfold exactDecompressAmount
  rw [if_neg h0]
  dsimp only
  by_cases he : (x - 1) % 10 < 9
  · -- the code holds the last digit of the mantissa and the exponent
    rw [if_pos he]
    have hm : ((x - 1) / 10 / 9 * 10 + ((x - 1) / 10 % 9 + 1)) % 10 ≠ 0 := by omega
    have hpos : ((x - 1) / 10 / 9 * 10 + ((x - 1) / 10 % 9 + 1)) * 10 ^ ((x - 1) % 10) ≠ 0 :=
      Nat.mul_ne_zero (by omega) (by positivity)
    have hd : ((x - 1) / 10 / 9 * 10 + ((x - 1) / 10 % 9 + 1)) % 10 = (x - 1) / 10 % 9 + 1 := by
      omega
    have hn : ((x - 1) / 10 / 9 * 10 + ((x - 1) / 10 % 9 + 1)) / 10 = (x - 1) / 10 / 9 := by
      omega
    unfold compressAmount
    rw [if_neg hpos, stripZeros_mul_pow _ 0 (by omega) (.inl hm)]
    dsimp only
    rw [Nat.zero_add, if_pos he, hd, hn, Nat.mod_eq_of_lt (by omega)]
    omega
  · -- nine zeros: the code holds the whole mantissa
    rw [if_neg he]
    have he9 : (x - 1) % 10 = 9 := by omega
    have hpos : ((x - 1) / 10 + 1) * 10 ^ ((x - 1) % 10) ≠ 0 :=
      Nat.mul_ne_zero (by omega) (by positivity)
    unfold compressAmount
    rw [if_neg hpos, stripZeros_mul_pow _ 0 (by omega) (.inr (by omega))]
    dsimp only
    rw [Nat.zero_add, if_neg he, Nat.mod_eq_of_lt (by omega)]
    omega

/-- **Amount compression is a bijection on its domain.**  Every amount up to
`MAX_MONEY` comes back from its code, and every code whose exact amount fits
`uint64_t` comes back from its amount. -/
theorem compressAmount_bijective :
    (∀ n : Nat, (n : Int) ≤ MAX_MONEY → decompressAmount (compressAmount n) = n) ∧
      ∀ x : Nat, x < 2 ^ 64 → exactDecompressAmount x < 2 ^ 64 →
        compressAmount (decompressAmount x) = x := by
  refine ⟨fun n hn => decompressAmount_compressAmount ?_, fun x hx hv =>
    compressAmount_decompressAmount hx hv⟩
  unfold MAX_MONEY COIN at hn
  omega

theorem compressAmount_bijective_coin :
    decompressAmount (compressAmount 100000000) = 100000000 ∧
      compressAmount (decompressAmount 9) = 9 :=
  ⟨compressAmount_bijective.1 _ (by decide), compressAmount_bijective.2 _ (by decide) (by decide)⟩

/-! ## Public keys -/

/-- `CPubKey::GetLen(chHeader)`: the length a key with this first byte has. -/
def pubKeyGetLen (chHeader : UInt8) : Nat :=
  if chHeader = 2 ∨ chHeader = 3 then 33
  else if chHeader = 4 ∨ chHeader = 6 ∨ chHeader = 7 then 65
  else 0

/-- `CPubKey::Set` then `IsValid()`: the bytes are as long as their first
byte announces. -/
def pubKeyIsValid : List UInt8 → Bool
  | [] => false
  | vch@(chHeader :: _) => pubKeyGetLen chHeader ≠ 0 && pubKeyGetLen chHeader = vch.length

section Keys

variable (ecPubkeyParse : List UInt8 → Option (List UInt8))

/-- `CPubKey::IsFullyValid()`: libsecp256k1 parses the key. -/
def pubKeyIsFullyValid (vch : List UInt8) : Bool := pubKeyIsValid vch && (ecPubkeyParse vch).isSome

/-- `CPubKey::Decompress()`: the uncompressed serialization of the point, or
`none` for the `false` return. -/
def pubKeyDecompress (vch : List UInt8) : Option (List UInt8) :=
  if pubKeyIsValid vch then ecPubkeyParse vch else none

/-- The documented behaviour of `secp256k1_ec_pubkey_parse` and
`secp256k1_ec_pubkey_serialize` on an uncompressed key (header `0x04`) that
parses: the point is rebuilt from its X coordinate and the parity of Y, and
serializes back to the same bytes. -/
def Secp256k1Recovers : Prop :=
  ∀ pubkey : List UInt8, pubkey.length = 65 → pubkey[0]? = some 4 →
    (ecPubkeyParse pubkey).isSome →
      ecPubkeyParse (UInt8.ofNat (2 + (pubkey[64]?.getD 0).toNat % 2) :: (pubkey.drop 1).take 32) =
        some pubkey

/-! ## Scripts -/

/-- `IsToKeyID(script, hash)`: the key hash of a pay-to-key-hash script. -/
def isToKeyID (script : CScript) : Option (List UInt8) :=
  if script.length = 25 ∧ script[0]? = some OP_DUP ∧ script[1]? = some OP_HASH160 ∧
      script[2]? = some 20 ∧ script[23]? = some OP_EQUALVERIFY ∧ script[24]? = some OP_CHECKSIG then
    some ((script.drop 3).take 20)
  else none

/-- `IsToScriptID(script, hash)`: the script hash of a pay-to-script-hash
script. -/
def isToScriptID (script : CScript) : Option (List UInt8) :=
  if script.length = 23 ∧ script[0]? = some OP_HASH160 ∧ script[1]? = some 20 ∧
      script[22]? = some OP_EQUAL then
    some ((script.drop 2).take 20)
  else none

/-- `IsToPubKey(script, pubkey)`: the key of a pay-to-key script, compressed
or, if it is fully valid, uncompressed. -/
def isToPubKey (script : CScript) : Option (List UInt8) :=
  if script.length = 35 ∧ script[0]? = some 33 ∧ script[34]? = some OP_CHECKSIG ∧
      (script[1]? = some 0x02 ∨ script[1]? = some 0x03) then
    some ((script.drop 1).take 33)
  else if script.length = 67 ∧ script[0]? = some 65 ∧ script[66]? = some OP_CHECKSIG ∧
      script[1]? = some 0x04 then
    let pubkey := (script.drop 1).take 65
    if pubKeyIsFullyValid ecPubkeyParse pubkey then some pubkey else none
  else none

/-- `CompressScript(script, out)`: `none` for the `false` return. -/
def compressScript (script : CScript) : Option (List UInt8) :=
  match isToKeyID script with
  | some hash => some (0x00 :: hash)
  | none =>
    match isToScriptID script with
    | some hash => some (0x01 :: hash)
    | none =>
      match isToPubKey ecPubkeyParse script with
      | some pubkey =>
        if pubkey[0]? = some 0x02 ∨ pubkey[0]? = some 0x03 then
          some (pubkey[0]?.getD 0 :: (pubkey.drop 1).take 32)
        else if pubkey[0]? = some 0x04 then
          some ((0x04 ||| (pubkey[64]?.getD 0 &&& 0x01)) :: (pubkey.drop 1).take 32)
        else none
      | none => none

/-- `GetSpecialScriptSize(nSize)`. -/
def getSpecialScriptSize (nSize : Nat) : Nat :=
  if nSize = 0 ∨ nSize = 1 then 20
  else if nSize = 2 ∨ nSize = 3 ∨ nSize = 4 ∨ nSize = 5 then 32
  else 0

/-- `DecompressScript(script, nSize, in)`: the rebuilt script, or `none` for
the `false` return, which leaves the script as it was. -/
def decompressScript (nSize : Nat) (input : List UInt8) : Option CScript :=
  if nSize = 0 then
    some ([OP_DUP, OP_HASH160, 20] ++ input.take 20 ++ [OP_EQUALVERIFY, OP_CHECKSIG])
  else if nSize = 1 then
    some ([OP_HASH160, 20] ++ input.take 20 ++ [OP_EQUAL])
  else if nSize = 2 ∨ nSize = 3 then
    some ([33, UInt8.ofNat nSize] ++ input.take 32 ++ [OP_CHECKSIG])
  else if nSize = 4 ∨ nSize = 5 then do
    let pubkey ← pubKeyDecompress ecPubkeyParse (UInt8.ofNat (nSize - 2) :: input.take 32)
    some ([65] ++ pubkey ++ [OP_CHECKSIG])
  else none

/-- `ScriptCompression::nSpecialScripts`. -/
def nSpecialScripts : Nat := 6

/-- `ScriptCompression::Ser`. -/
def scriptCompressionSer (script : CScript) : List UInt8 :=
  match compressScript ecPubkeyParse script with
  | some compr => compr
  | none => writeVarInt ((script.length + nSpecialScripts) % 2 ^ 32) ++ script

/-- `ScriptCompression::Unser`, reading into `script`. -/
def scriptCompressionUnser (script : CScript) : StreamReader CScript := do
  let nSize ← readVarInt UINT32_MAX
  if nSize < nSpecialScripts then
    let vch ← readBytes EOD (getSpecialScriptSize nSize)
    pure ((decompressScript ecPubkeyParse nSize vch).getD script)
  else
    let nSize := nSize - nSpecialScripts
    if nSize > MAX_SCRIPT_SIZE then
      -- an overly long script is replaced by a short invalid one
      streamIgnore nSize
      pure (script ++ [OP_RETURN])
    else readBytes EOD nSize

/-- `TxOutCompression` writing: the compressed amount of the `int64_t` value
as a `uint64_t`, then the compressed script. -/
def txOutCompressionSer (out : CTxOut) : List UInt8 :=
  writeVarInt (compressAmount (out.nValue % 2 ^ 64).toNat) ++ scriptCompressionSer ecPubkeyParse out.scriptPubKey

/-- `TxOutCompression` reading into `out`. -/
def txOutCompressionUnser (out : CTxOut) : StreamReader CTxOut := do
  let v ← readVarInt UINT64_MAX
  let nValue := int64OfLE (decompressAmount v)
  let scriptPubKey ← scriptCompressionUnser ecPubkeyParse out.scriptPubKey
  pure ⟨nValue, scriptPubKey⟩

/-! ## Reading compressed scripts back -/

omit ecPubkeyParse in
/-- A list whose first and last entries are fixed is those entries around
its middle. -/
theorem eq_frame {α : Type} {L pre post : List α} {m : Nat}
    (hlen : L.length = pre.length + m + post.length)
    (hpre : ∀ i < pre.length, L[i]? = pre[i]?)
    (hpost : ∀ j < post.length, L[pre.length + m + j]? = post[j]?) :
    L = pre ++ (L.drop pre.length).take m ++ post := by
  apply List.ext_getElem?
  intro i
  rw [List.append_assoc]
  by_cases h1 : i < pre.length
  · rw [List.getElem?_append_left h1, hpre i h1]
  rw [List.getElem?_append_right (by omega)]
  by_cases h2 : i < pre.length + m
  · -- the middle is read from `L` itself
    rw [List.getElem?_append_left (by simp; omega), List.getElem?_take_of_lt (by omega),
      List.getElem?_drop, Nat.add_sub_cancel' (by omega)]
  · have hmid : ((L.drop pre.length).take m).length = m := by simp; omega
    rw [List.getElem?_append_right (by omega), hmid]
    by_cases h3 : i - pre.length - m < post.length
    · rw [← hpost _ h3]
      congr 1
      omega
    · rw [List.getElem?_eq_none (by omega), List.getElem?_eq_none (by omega)]

omit ecPubkeyParse in
/-- A pay-to-key-hash script is its hash between the fixed opcodes. -/
theorem isToKeyID_eq_some {script hash : List UInt8} (h : isToKeyID script = some hash) :
    hash.length = 20 ∧ script = [OP_DUP, OP_HASH160, 20] ++ hash ++ [OP_EQUALVERIFY, OP_CHECKSIG] := by
  unfold isToKeyID at h
  split at h
  · rename_i hs
    obtain ⟨hlen, h0, h1, h2, h23, h24⟩ := hs
    cases h
    refine ⟨by simp [hlen], eq_frame (by simp [hlen]) ?_ ?_⟩
    · intro i hi
      rcases (by simp at hi; omega : i = 0 ∨ i = 1 ∨ i = 2) with rfl | rfl | rfl <;> simp [h0, h1, h2]
    · intro j hj
      rcases (by simp at hj; omega : j = 0 ∨ j = 1) with rfl | rfl <;> simp [h23, h24]
  · cases h

omit ecPubkeyParse in
/-- A pay-to-script-hash script is its hash between the fixed opcodes. -/
theorem isToScriptID_eq_some {script hash : List UInt8} (h : isToScriptID script = some hash) :
    hash.length = 20 ∧ script = [OP_HASH160, 20] ++ hash ++ [OP_EQUAL] := by
  unfold isToScriptID at h
  split at h
  · rename_i hs
    obtain ⟨hlen, h0, h1, h22⟩ := hs
    cases h
    refine ⟨by simp [hlen], eq_frame (by simp [hlen]) ?_ ?_⟩
    · intro i hi
      rcases (by simp at hi; omega : i = 0 ∨ i = 1) with rfl | rfl <;> simp [h0, h1]
    · intro j hj
      rcases (by simp at hj; omega : j = 0) with rfl
      simp [h22]
  · cases h

/-- A pay-to-key script is its key between the push and `OP_CHECKSIG`: a
compressed key, or an uncompressed one that libsecp256k1 parses. -/
theorem isToPubKey_eq_some {script pubkey : List UInt8}
    (h : isToPubKey ecPubkeyParse script = some pubkey) :
    (script = [33] ++ pubkey ++ [OP_CHECKSIG] ∧ pubkey.length = 33 ∧
      (pubkey[0]? = some 2 ∨ pubkey[0]? = some 3)) ∨
    (script = [65] ++ pubkey ++ [OP_CHECKSIG] ∧ pubkey.length = 65 ∧ pubkey[0]? = some 4 ∧
      (ecPubkeyParse pubkey).isSome) := by
  unfold isToPubKey at h
  split at h
  · -- the compressed form
    rename_i hs
    obtain ⟨hlen, h0, h34, h1⟩ := hs
    cases h
    refine .inl ⟨eq_frame (by simp [hlen]) ?_ ?_, by simp [hlen], ?_⟩
    · intro i hi
      rcases (by simp at hi; omega : i = 0) with rfl
      simp [h0]
    · intro j hj
      rcases (by simp at hj; omega : j = 0) with rfl
      simp [h34]
    · simpa using h1
  · split at h
    · -- the uncompressed form, kept only when it parses
      rename_i hs
      obtain ⟨hlen, h0, h66, h1⟩ := hs
      simp only [pubKeyIsFullyValid, Bool.and_eq_true] at h
      split at h
      · rename_i hvalid
        cases h
        refine .inr ⟨eq_frame (by simp [hlen]) ?_ ?_, by simp [hlen], by simpa using h1, hvalid.2⟩
        · intro i hi
          rcases (by simp at hi; omega : i = 0) with rfl
          simp [h0]
        · intro j hj
          rcases (by simp at hj; omega : j = 0) with rfl
          simp [h66]
      · cases h
    · cases h

omit ecPubkeyParse in
/-- The type byte of an uncompressed key: four, plus the parity of Y. -/
theorem toNat_parityHeader (b : UInt8) : ((0x04 : UInt8) ||| (b &&& 0x01)).toNat = 4 + b.toNat % 2 := by
  have hpar : b.toNat % 2 < 2 ^ 2 := by omega
  rw [UInt8.toNat_or, UInt8.toNat_and, show (0x01 : UInt8).toNat = 1 from rfl, Nat.and_one_is_mod,
    show (0x04 : UInt8).toNat = 2 ^ 2 from rfl, Nat.or_comm, Nat.or_two_pow_eq_add_of_lt hpar]
  omega

omit ecPubkeyParse in
/-- A compressed key read back: its header byte and the 32 bytes of X. -/
theorem decompressScript_compressed {b : UInt8} {x : List UInt8} (hb : b = 2 ∨ b = 3)
    (hx : x.length = 32) (ecPubkeyParse : List UInt8 → Option (List UInt8)) :
    decompressScript ecPubkeyParse b.toNat x = some ([33] ++ (b :: x) ++ [OP_CHECKSIG]) := by
  rcases hb with rfl | rfl <;> simp [decompressScript, List.take_of_length_le (le_of_eq hx)]

/-- An uncompressed key read back: libsecp256k1 rebuilds it from X and the
parity of Y. -/
theorem decompressScript_uncompressed (hec : Secp256k1Recovers ecPubkeyParse) {pubkey : List UInt8}
    (hlen : pubkey.length = 65) (h0 : pubkey[0]? = some 4) (hparse : (ecPubkeyParse pubkey).isSome) :
    decompressScript ecPubkeyParse (4 + (pubkey[64]?.getD 0).toNat % 2) ((pubkey.drop 1).take 32) =
      some ([65] ++ pubkey ++ [OP_CHECKSIG]) := by
  have hx : ((pubkey.drop 1).take 32).length = 32 := by simp [hlen]
  have hhead : UInt8.ofNat (4 + (pubkey[64]?.getD 0).toNat % 2 - 2) =
      UInt8.ofNat (2 + (pubkey[64]?.getD 0).toNat % 2) := by
    congr 1
    omega
  -- the rebuilt key is a valid compressed one, so `Decompress` asks the parser
  have hvalid : pubKeyIsValid (UInt8.ofNat (2 + (pubkey[64]?.getD 0).toNat % 2) ::
      (pubkey.drop 1).take 32) = true := by
    rcases Nat.mod_two_eq_zero_or_one (pubkey[64]?.getD 0).toNat with h | h <;>
      · rw [h]
        simp [pubKeyIsValid, pubKeyGetLen, hlen]
  have h45 : ¬ (4 + (pubkey[64]?.getD 0).toNat % 2 = 0 ∨ 4 + (pubkey[64]?.getD 0).toNat % 2 = 1 ∨
      (4 + (pubkey[64]?.getD 0).toNat % 2 = 2 ∨ 4 + (pubkey[64]?.getD 0).toNat % 2 = 3)) := by omega
  simp only [decompressScript, List.take_of_length_le (le_of_eq hx), hhead, pubKeyDecompress, hvalid,
    if_true, hec pubkey hlen h0 hparse]
  rw [if_neg (by omega), if_neg (by omega), if_neg (by omega), if_pos (by omega)]
  rfl

/-- What `CompressScript` writes: a type byte below six and as many bytes as
`GetSpecialScriptSize` gives it, which `DecompressScript` turns back into the
script. -/
theorem compressScript_eq_some (hec : Secp256k1Recovers ecPubkeyParse) {script compr : List UInt8}
    (h : compressScript ecPubkeyParse script = some compr) :
    ∃ nSize payload, nSize < nSpecialScripts ∧ compr = UInt8.ofNat nSize :: payload ∧
      payload.length = getSpecialScriptSize nSize ∧
      decompressScript ecPubkeyParse nSize payload = some script := by
  unfold compressScript at h
  split at h
  · -- pay to a key hash
    rename_i hash hkey
    obtain ⟨hlen, rfl⟩ := isToKeyID_eq_some hkey
    cases h
    exact ⟨0, hash, by decide, rfl, hlen, by simp [decompressScript, List.take_of_length_le (le_of_eq hlen)]⟩
  split at h
  · -- pay to a script hash
    rename_i hash hscript
    obtain ⟨hlen, rfl⟩ := isToScriptID_eq_some hscript
    cases h
    exact ⟨1, hash, by decide, rfl, hlen, by simp [decompressScript, List.take_of_length_le (le_of_eq hlen)]⟩
  split at h
  · rename_i pubkey hpub
    rcases isToPubKey_eq_some ecPubkeyParse hpub with ⟨rfl, hlen, h0⟩ | ⟨rfl, hlen, h0, hparse⟩
    · -- a compressed key is written as it is
      obtain ⟨b, x, rfl⟩ : ∃ b x, pubkey = b :: x := List.exists_cons_of_length_eq_add_one hlen
      have hb : b = 2 ∨ b = 3 := by simpa using h0
      have hx : x.length = 32 := by simpa using hlen
      rw [if_pos (by simpa using h0)] at h
      cases h
      refine ⟨b.toNat, x, by rcases hb with rfl | rfl <;> decide,
        by simp [List.take_of_length_le (le_of_eq hx)], ?_, ?_⟩
      · rcases hb with rfl | rfl <;> simp [getSpecialScriptSize, hx]
      · simpa [List.take_of_length_le (le_of_eq hx)] using decompressScript_compressed hb hx ecPubkeyParse
    · -- an uncompressed key keeps X and the parity of Y
      have hn23 : ¬ (pubkey[0]? = some 2 ∨ pubkey[0]? = some 3) := by simp [h0]
      rw [if_neg hn23, if_pos h0] at h
      cases h
      have hpar : (pubkey[64]?.getD 0).toNat % 2 < 2 := Nat.mod_lt _ (by decide)
      refine ⟨4 + (pubkey[64]?.getD 0).toNat % 2, (pubkey.drop 1).take 32, by unfold nSpecialScripts; omega,
        ?_, ?_, decompressScript_uncompressed ecPubkeyParse hec hlen h0 hparse⟩
      · rw [← toNat_parityHeader, UInt8.ofNat_toNat]
      · rcases Nat.mod_two_eq_zero_or_one (pubkey[64]?.getD 0).toNat with h | h <;>
        · rw [h]
          simp [getSpecialScriptSize, hlen]
  · cases h

/-- **Script round trip.**  Every script of at most `MAX_SCRIPT_SIZE` bytes
reads back from its compressed form, whatever the script read into held,
and the read stops where the form ends. -/
theorem scriptCompressionUnser_ser (hec : Secp256k1Recovers ecPubkeyParse) {script : CScript}
    (hlen : script.length ≤ MAX_SCRIPT_SIZE) (script₀ rest : List UInt8) :
    (scriptCompressionUnser ecPubkeyParse script₀).run (scriptCompressionSer ecPubkeyParse script ++ rest) =
      .ok (script, rest) := by
  unfold scriptCompressionSer
  split
  · -- a special script: its type byte is a one-group VarInt
    rename_i compr hc
    obtain ⟨nSize, payload, hlt, rfl, hpl, hdec⟩ := compressScript_eq_some ecPubkeyParse hec hc
    unfold nSpecialScripts at hlt
    have hstream : (UInt8.ofNat nSize :: payload) ++ rest = writeVarInt nSize ++ (payload ++ rest) := by
      rw [writeVarInt_of_le (by omega)]
      rfl
    rw [hstream, scriptCompressionUnser, StateT.run_bind,
      readVarInt_writeVarInt (by unfold UINT32_MAX; omega), except_ok_bind,
      if_pos (by unfold nSpecialScripts; omega), StateT.run_bind, readBytes_append EOD rest hpl,
      except_ok_bind, hdec]
    rfl
  · -- any other script: its length plus six, then its bytes
    unfold MAX_SCRIPT_SIZE at hlen
    have hsize : (script.length + nSpecialScripts) % 2 ^ 32 = script.length + nSpecialScripts := by
      unfold nSpecialScripts
      omega
    have hlarge : ¬ script.length + nSpecialScripts < nSpecialScripts := by omega
    have hfits : ¬ script.length > MAX_SCRIPT_SIZE := by
      unfold MAX_SCRIPT_SIZE
      omega
    rw [hsize, List.append_assoc, scriptCompressionUnser, StateT.run_bind,
      readVarInt_writeVarInt (by unfold UINT32_MAX nSpecialScripts; omega), except_ok_bind,
      if_neg hlarge]
    simp only [Nat.add_sub_cancel]
    rw [if_neg hfits]
    exact readBytes_append EOD rest rfl

omit ecPubkeyParse in
/-- A compressed amount fits `uint64_t`. -/
theorem compressAmount_lt (n : Nat) : compressAmount n < 2 ^ 64 := by
  unfold compressAmount
  split
  · decide
  · split
    split <;> exact Nat.mod_lt _ (Nat.two_pow_pos 64)

/-- **Output round trip.**  An output with an amount in `MoneyRange` and a
script of at most `MAX_SCRIPT_SIZE` bytes reads back from its compressed
form, and the read stops where the form ends. -/
theorem txOutCompressionUnser_ser (hec : Secp256k1Recovers ecPubkeyParse) {out : CTxOut}
    (hvalue : moneyRange out.nValue = true) (hlen : out.scriptPubKey.length ≤ MAX_SCRIPT_SIZE)
    (out₀ : CTxOut) (rest : List UInt8) :
    (txOutCompressionUnser ecPubkeyParse out₀).run (txOutCompressionSer ecPubkeyParse out ++ rest) =
      .ok (out, rest) := by
  obtain ⟨hlo, hhi⟩ := moneyRange_iff.mp hvalue
  unfold MAX_MONEY COIN at hhi
  -- a money amount is its own `uint64_t`, far below the wrap of the compressed form
  have hamount : decompressAmount (compressAmount (out.nValue % 2 ^ 64).toNat) =
      (out.nValue % 2 ^ 64).toNat :=
    decompressAmount_compressAmount (by omega)
  have hint : int64OfLE (out.nValue % 2 ^ 64).toNat = out.nValue := by
    unfold int64OfLE
    rw [if_pos (by omega)]
    omega
  have hcode := compressAmount_lt (out.nValue % 2 ^ 64).toNat
  rw [txOutCompressionSer, List.append_assoc, txOutCompressionUnser, StateT.run_bind,
    readVarInt_writeVarInt (by unfold UINT64_MAX; omega), except_ok_bind, StateT.run_bind,
    scriptCompressionUnser_ser ecPubkeyParse hec hlen, except_ok_bind, hamount, hint]
  rfl

end Keys

end Veribase
