import Veribase.Primitives.Transaction
import Veribase.Lib.Bytes

/-!
# Scripts as byte strings

`script/script.h`.  A script is its bytes; `GetScriptOp` reads one
instruction, an opcode byte followed, for the push opcodes up to
`OP_PUSHDATA4`, by the pushed data, with its length in the opcode itself or in
the 1, 2 or 4 little-endian bytes after it.  A truncated push makes it fail.
`IsPushOnly` runs it over the script and accepts when every opcode is at
most `OP_16`.  `CScript() << b` writes the shortest push of `b`.

The two output shapes the verifier singles out are recognised on the bytes:
pay-to-script-hash is `OP_HASH160 <20 bytes> OP_EQUAL`, and a witness program
is a version opcode followed by one push of 2 to 40 bytes.
-/

namespace Veribase

open ByteStream

/-! ## Opcodes -/

/-- `OP_0`. -/
@[match_pattern, reducible] def OP_0 : UInt8 := 0x00

/-- `OP_PUSHDATA1`. -/
@[match_pattern, reducible] def OP_PUSHDATA1 : UInt8 := 0x4c

/-- `OP_PUSHDATA2`. -/
@[match_pattern, reducible] def OP_PUSHDATA2 : UInt8 := 0x4d

/-- `OP_PUSHDATA4`. -/
@[match_pattern, reducible] def OP_PUSHDATA4 : UInt8 := 0x4e

/-- `OP_1`. -/
@[match_pattern, reducible] def OP_1 : UInt8 := 0x51

/-- `OP_16`. -/
@[match_pattern, reducible] def OP_16 : UInt8 := 0x60

/-- `OP_RETURN`. -/
@[match_pattern, reducible] def OP_RETURN : UInt8 := 0x6a

/-- `OP_DUP`. -/
@[match_pattern, reducible] def OP_DUP : UInt8 := 0x76

/-- `OP_EQUAL`. -/
@[match_pattern, reducible] def OP_EQUAL : UInt8 := 0x87

/-- `OP_EQUALVERIFY`. -/
@[match_pattern, reducible] def OP_EQUALVERIFY : UInt8 := 0x88

/-- `OP_HASH160`. -/
@[match_pattern, reducible] def OP_HASH160 : UInt8 := 0xa9

/-- `OP_CHECKSIG`. -/
@[match_pattern, reducible] def OP_CHECKSIG : UInt8 := 0xac

/-- `MAX_SCRIPT_SIZE`. -/
def MAX_SCRIPT_SIZE : Nat := 10000

/-! ## Reading instructions -/

/-- The operand length of a push opcode: the opcode itself below
`OP_PUSHDATA1`, otherwise the 1, 2 or 4 bytes after it. -/
def pushSize (opcode : UInt8) : Reader Unit Nat :=
  if opcode < OP_PUSHDATA1 then pure opcode.toNat
  else if opcode == OP_PUSHDATA1 then leValue <$> readBytes () 1
  else if opcode == OP_PUSHDATA2 then leValue <$> readBytes () 2
  else leValue <$> readBytes () 4

/-- The operand of an instruction: the pushed data for a push opcode, none
for any other. -/
def operand (opcode : UInt8) : Reader Unit (List UInt8) :=
  if opcode ≤ OP_PUSHDATA4 then pushSize opcode >>= readBytes () else pure []

/-- `GetScriptOp(pc, end, opcodeRet, pvchRet)`: the next opcode and its
operand; the error is the `false` return. -/
def getOp : Reader Unit (UInt8 × List UInt8) := do
  let opcode ← readByte ()
  let data ← operand opcode
  pure (opcode, data)

/-- The loop of `IsPushOnly`, with `fuel` bounding the instructions. -/
def isPushOnlyFrom : Nat → List UInt8 → Bool
  | 0, _ => true
  | _ + 1, [] => true
  | fuel + 1, pc@(_ :: _) =>
      match getOp.run pc with
      | .error () => false
      | .ok ((opcode, _), rest) => if opcode > OP_16 then false else isPushOnlyFrom fuel rest

/-- `CScript::IsPushOnly()`.  Every instruction takes a byte, so the length
of the script bounds the loop. -/
def isPushOnly (script : CScript) : Bool := isPushOnlyFrom script.length script

theorem consumes_pushSize (opcode : UInt8) : Consumes (pushSize opcode) 0 := by
  unfold pushSize
  split
  · exact consumes_pure _
  · split
    · exact ((consumes_readBytes () 1).map leValue).mono (by omega)
    · split
      · exact ((consumes_readBytes () 2).map leValue).mono (by omega)
      · exact ((consumes_readBytes () 4).map leValue).mono (by omega)

theorem consumes_operand (opcode : UInt8) : Consumes (operand opcode) 0 := by
  unfold operand
  split
  · exact (consumes_pushSize opcode).bind fun n => (consumes_readBytes () n).mono (Nat.zero_le n)
  · exact consumes_pure _

/-- Every instruction takes at least its opcode byte. -/
theorem consumes_getOp : Consumes getOp 1 :=
  ((consumes_readByte ()).bind fun opcode => (consumes_operand opcode).bind fun _ =>
    consumes_pure _).mono (by omega)

/-! ## Writing pushes -/

/-- `CScript() << b`: the shortest push of `b`. -/
def pushData (b : List UInt8) : CScript :=
  (if b.length < OP_PUSHDATA1.toNat then [UInt8.ofNat b.length]
  else if b.length ≤ 0xff then [OP_PUSHDATA1, UInt8.ofNat b.length]
  else if b.length ≤ 0xffff then OP_PUSHDATA2 :: leBytes 2 b.length
  else OP_PUSHDATA4 :: leBytes 4 b.length) ++ b

/-! ## Numbers -/

/-- The bytes of `n` from the least significant, without trailing zeros;
`fuel` bounds their number. -/
def minimalLEBytes : Nat → Nat → List UInt8
  | 0, _ => []
  | fuel + 1, n => if n = 0 then [] else UInt8.ofNat (n % 256) :: minimalLEBytes fuel (n / 256)

/-- `CScriptNum::serialize(value)` of an `int64_t`: the magnitude in minimal
little-endian bytes with the sign in the top bit of the last one, which gets
a byte of its own when the magnitude needs that bit. -/
def scriptNumSerialize (value : Int) : List UInt8 :=
  let result := minimalLEBytes 8 value.natAbs
  match result.getLast? with
  | none => []
  | some last =>
      if last &&& 0x80 != 0 then result ++ [if value < 0 then 0x80 else 0]
      else if value < 0 then result.dropLast ++ [last ||| 0x80]
      else result

/-- `CScript() << n` for an integer: `OP_1NEGATE` and `OP_1` to `OP_16` as
opcodes, zero as `OP_0`, any other value as the push of its serialization. -/
def pushInt64 (n : Int) : CScript :=
  if n == -1 || (1 ≤ n && n ≤ 16) then [UInt8.ofInt (n + (OP_1.toNat - 1))]
  else if n == 0 then [OP_0]
  else pushData (scriptNumSerialize n)

/-! ## Output shapes -/

/-- `CScript::IsPayToScriptHash()`. -/
def isPayToScriptHash (script : CScript) : Bool :=
  script.length == 23 && script[0]? == some OP_HASH160 && script[1]? == some 0x14 &&
    script[22]? == some OP_EQUAL

/-- `DecodeOP_N(opcode)` for `OP_0` and `OP_1` to `OP_16`. -/
def decodeOP_N (opcode : UInt8) : Nat :=
  if opcode == OP_0 then 0 else opcode.toNat - (OP_1.toNat - 1)

/-- `CScript::IsWitnessProgram(version, program)`: the version and the
program, when the script is one. -/
def isWitnessProgram (script : CScript) : Option (Nat × List UInt8) :=
  if script.length < 4 || script.length > 42 then none
  else
    match script with
    | op0 :: op1 :: program =>
        if op0 != OP_0 && (op0 < OP_1 || op0 > OP_16) then none
        else if op1.toNat + 2 == script.length then some (decodeOP_N op0, program) else none
    | _ => none

/-- `GetScriptForDestination(ScriptHash(h))`: `OP_HASH160 <h> OP_EQUAL`. -/
def scriptForScriptHash (h : List UInt8) : CScript := [OP_HASH160] ++ pushData h ++ [OP_EQUAL]

end Veribase
