import Veribase.Primitives.Uint256

/-!
# Transactions

The parts of `primitives/transaction.h` and `amount.h` that block validation
reads.  A `CTransaction` carries the `hash` member it caches at construction;
nothing here recomputes it.  Amounts are `CAmount` (`int64_t`) values kept as
integers, so that an overflow shows up as a value outside the `int64_t`
range instead of silently wrapping.

Two predicates classify a transaction.  A coinbase has exactly one input,
whose outpoint is null, and at least one output.  A coinstake (ppcoin) has a
non-null first input, at least two outputs and an empty first output.
-/

namespace Veribase

/-! ## Amounts -/

/-- `COIN`. -/
def COIN : Int := 100000000

/-- `CENT`. -/
def CENT : Int := 1000000

/-- `MAX_MONEY`. -/
def MAX_MONEY : Int := 21000000 * COIN

/-- `MoneyRange(nValue)`. -/
def moneyRange (nValue : Int) : Bool := 0 ≤ nValue && nValue ≤ MAX_MONEY

theorem moneyRange_iff {nValue : Int} : moneyRange nValue = true ↔ 0 ≤ nValue ∧ nValue ≤ MAX_MONEY := by
  simp [moneyRange]

/-- The range of `int64_t`. -/
def int64Range (x : Int) : Prop := -2 ^ 63 ≤ x ∧ x < 2 ^ 63

/-! ## Outpoints, inputs, outputs -/

/-- `COutPoint`: a transaction hash and an output index. -/
structure COutPoint where
  hash : uint256
  n : UInt32
deriving DecidableEq

/-- `COutPoint::NULL_INDEX`. -/
def COutPoint.NULL_INDEX : UInt32 := 0xFFFFFFFF

/-- `COutPoint::IsNull()`. -/
def COutPoint.isNull (o : COutPoint) : Bool := o.hash.isNull && o.n == COutPoint.NULL_INDEX

/-- `CScript`, as its bytes. -/
abbrev CScript := List UInt8

/-- `CTxIn`. -/
structure CTxIn where
  prevout : COutPoint
  scriptSig : CScript
  nSequence : UInt32
  /-- `scriptWitness.stack`. -/
  scriptWitness : List (List UInt8)
deriving DecidableEq

/-- `CTxOut`. -/
structure CTxOut where
  nValue : Int
  scriptPubKey : CScript
deriving DecidableEq

/-- `CTxOut::IsEmpty()`. -/
def CTxOut.isEmpty (o : CTxOut) : Bool := o.nValue == 0 && o.scriptPubKey.isEmpty

/-! ## Transactions -/

/-- `CTransaction`, with its cached `hash`. -/
structure CTransaction where
  nVersion : Int32
  /-- `nTime` (ppcoin). -/
  nTime : UInt32
  vin : List CTxIn
  vout : List CTxOut
  nLockTime : UInt32
  /-- `hash`, computed when the transaction is built. -/
  hash : uint256
deriving DecidableEq

namespace CTransaction

/-- `GetHash()`. -/
def getHash (tx : CTransaction) : uint256 := tx.hash

/-- `IsCoinBase()`. -/
def isCoinBase (tx : CTransaction) : Bool :=
  match tx.vin with
  | [txin] => txin.prevout.isNull && 1 ≤ tx.vout.length
  | _ => false

/-- `IsCoinStake()`: the coinstake is marked with an empty first output. -/
def isCoinStake (tx : CTransaction) : Bool :=
  match tx.vin, tx.vout with
  | txin :: _, o0 :: _ :: _ => !txin.prevout.isNull && o0.isEmpty
  | _, _ => false

/-- `GetValueOut()`: the sum of the outputs, throwing as soon as an output or
a partial sum leaves the money range. -/
def getValueOut (tx : CTransaction) : Except String Int :=
  tx.vout.foldlM (fun nValueOut txout =>
    if !moneyRange txout.nValue || !moneyRange (nValueOut + txout.nValue) then
      throw "GetValueOut: value out of range"
    else pure (nValueOut + txout.nValue)) 0

end CTransaction

end Veribase
