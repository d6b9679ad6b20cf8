import Veribase.Serialize.Compressor
import Veribase.Validation.ConnectBlock

/-!
# Undo data

`undo.h`.  When a block is connected, every coin its transactions spend is
kept in a `CTxUndo` per transaction, and the records of a block are written
to the undo file as a `CBlockUndo`.  `DisconnectBlock` reads them back to put
the spent coins into the view again.

`TxInUndoFormatter::Ser` writes the height and the coinbase flag as the
VarInt `nHeight * 2 + fCoinBase`, then `nTime`, then a dummy byte when the
height is not zero, then the compressed output.  `Unser` reads the code with
another layout, `nHeight << 2 | fCoinStake << 1 | fCoinBase`, and reads the
dummy only when the height it decoded is not zero.  For every height of two
or more the record reads back with half the height and with the coinstake
flag set to the last bit of the height (`txInUndoUnser_ser`), and a block's
undo data reads back with every coin so changed (`cBlockUndoUnser_ser`).

The coin database writes a coin with `Coin::Serialize`, whose code is
`nHeight * 2 + fCoinBase` with the coinstake flag and `nTime` after the
output; `Coin::Unserialize` reads the same layout, and every unspent coin
with a height below `2^31` reads back as itself (`coinUnser_ser`).
-/

namespace Veribase

open ByteStream

/-- `CTxUndo`: the coins the inputs of one transaction spent. -/
structure CTxUndo where
  vprevout : List Coin
deriving DecidableEq

/-- `CBlockUndo`: the records of every transaction of a block but the
coinbase. -/
structure CBlockUndo where
  vtxundo : List CTxUndo
deriving DecidableEq

/-- The 31-bit field `nHeight` of a `Coin`. -/
def Coin.heightField (c : Coin) : Nat := (c.nHeight % 2 ^ 31).toNat

/-- What `TxInUndoFormatter::Unser` gives for a coin that `Ser` wrote at a
height of two or more: half the height, and the last bit of the height as
the coinstake flag. -/
def Coin.undoReadBack (c : Coin) : Coin :=
  { c with nHeight := c.nHeight / 2, fCoinStake := c.nHeight % 2 == 1 }

section Formatter

variable (ecPubkeyParse : List UInt8 → Option (List UInt8))

/-- `TxInUndoFormatter::Ser`. -/
def txInUndoSer (txout : Coin) : List UInt8 :=
  writeVarInt ((txout.heightField * 2 + txout.fCoinBase.toNat) % 2 ^ 32) ++
    writeVarInt txout.nTime.toNat ++
    -- required to keep the older undo format
    (if txout.heightField > 0 then [0] else []) ++
    txOutCompressionSer ecPubkeyParse txout.out

/-- `TxInUndoFormatter::Unser`, reading into `txout`. -/
def txInUndoUnser (txout : Coin) : StreamReader Coin := do
  let nCode ← readVarInt UINT32_MAX
  let nHeight := nCode >>> 2
  let fCoinBase := nCode &&& 1 != 0
  let fCoinStake := nCode &&& 2 != 0
  let nTime ← readVarInt UINT32_MAX
  if nHeight > 0 then
    -- older versions stored the version number of the last spend here
    let _nVersionDummy ← readVarInt UINT32_MAX
    pure ()
  let out ← txOutCompressionUnser ecPubkeyParse txout.out
  pure ⟨out, nHeight, fCoinBase, fCoinStake, UInt32.ofNat nTime⟩

/-- `CTxUndo` written: `VectorFormatter<TxInUndoFormatter>`. -/
def CTxUndo.serialize (u : CTxUndo) : List UInt8 :=
  writeCompactSize u.vprevout.length ++ u.vprevout.flatMap (txInUndoSer ecPubkeyParse)

/-- `CTxUndo` read: every record into a fresh `Coin()`. -/
def CTxUndo.unserialize : StreamReader CTxUndo :=
  CTxUndo.mk <$> readVector (txInUndoUnser ecPubkeyParse Coin.empty)

/-- `CBlockUndo` written: a vector of `CTxUndo`. -/
def CBlockUndo.serialize (u : CBlockUndo) : List UInt8 :=
  writeCompactSize u.vtxundo.length ++ u.vtxundo.flatMap (CTxUndo.serialize ecPubkeyParse)

/-- `CBlockUndo` read. -/
def CBlockUndo.unserialize : StreamReader CBlockUndo :=
  CBlockUndo.mk <$> readVector (CTxUndo.unserialize ecPubkeyParse)

/-! ## The height code -/

omit ecPubkeyParse in
/-- The bit `Unser` reads as the coinstake flag is the last bit of the
height `Ser` wrote. -/
theorem heightCode_and_two (h : Nat) (b : Bool) : (h * 2 + b.toNat) &&& 2 = h % 2 * 2 := by
  have hand := Nat.and_two_pow (h * 2 + b.toNat) 1
  rw [pow_one] at hand
  rw [hand, Nat.testBit_eq_decide_div_mod_eq, pow_one]
  have hdiv : (h * 2 + b.toNat) / 2 = h := by
    cases b <;> simp
    omega
  rw [hdiv]
  rcases Nat.mod_two_eq_zero_or_one h with h2 | h2 <;> simp [h2]

omit ecPubkeyParse in
/-- The bit `Unser` reads as the coinbase flag is the one `Ser` wrote. -/
theorem heightCode_and_one (h : Nat) (b : Bool) : (h * 2 + b.toNat) &&& 1 = b.toNat := by
  rw [Nat.and_one_is_mod]
  cases b <;> simp

/-- **Undo record read back.**  A coin written at a height of two or more,
with an amount in `MoneyRange` and a script of at most `MAX_SCRIPT_SIZE`
bytes, reads back with half its height and the last bit of its height as
the coinstake flag, and the read stops where the record ends. -/
theorem txInUndoUnser_ser (hec : Secp256k1Recovers ecPubkeyParse) {c : Coin}
    (hvalue : moneyRange c.out.nValue = true) (hscript : c.out.scriptPubKey.length ≤ MAX_SCRIPT_SIZE)
    (hlo : 2 ≤ c.nHeight) (hhi : c.nHeight < 2 ^ 30) (txout₀ : Coin) (rest : List UInt8) :
    (txInUndoUnser ecPubkeyParse txout₀).run (txInUndoSer ecPubkeyParse c ++ rest) =
      .ok (c.undoReadBack, rest) := by
  obtain ⟨out, nHeight, fCoinBase, fCoinStake, nTime⟩ := c
  dsimp only at hvalue hscript hlo hhi
  -- the field holds the height, and the code fits `uint32_t`
  have hfield : (nHeight % 2 ^ 31).toNat = nHeight.toNat := by omega
  have hcode : (nHeight.toNat * 2 + fCoinBase.toNat) % 2 ^ 32 = nHeight.toNat * 2 + fCoinBase.toNat := by
    cases fCoinBase <;> simp <;> omega
  have hcodeMax : nHeight.toNat * 2 + fCoinBase.toNat ≤ UINT32_MAX := by
    unfold UINT32_MAX
    cases fCoinBase <;> simp <;> omega
  have hshift : (nHeight.toNat * 2 + fCoinBase.toNat) >>> 2 = nHeight.toNat / 2 := by
    rw [Nat.shiftRight_eq_div_pow]
    cases fCoinBase <;> simp <;> omega
  have hdummy : writeVarInt 0 = [0] := writeVarInt_of_le (by decide)
  have hpos : nHeight.toNat / 2 > 0 := by omega
  have htime : nTime.toNat ≤ UINT32_MAX := by
    unfold UINT32_MAX
    have := nTime.toNat_lt
    omega
  simp only [txInUndoSer, Coin.heightField, hfield, hcode, if_pos (show nHeight.toNat > 0 by omega),
    ← hdummy, List.append_assoc]
  rw [txInUndoUnser, StateT.run_bind, readVarInt_writeVarInt hcodeMax, except_ok_bind]
  simp only [hshift, StateT.run_bind, readVarInt_writeVarInt htime, except_ok_bind, if_pos hpos]
  simp only [readVarInt_writeVarInt (show 0 ≤ UINT32_MAX by decide), except_ok_bind,
    StateT.run_pure, txOutCompressionUnser_ser ecPubkeyParse hec hvalue hscript]
  -- the decoded fields against the coin read back
  have hcb : (nHeight.toNat * 2 + fCoinBase.toNat &&& 1 != 0) = fCoinBase := by
    rw [heightCode_and_one]
    cases fCoinBase <;> rfl
  have hcs : (nHeight.toNat * 2 + fCoinBase.toNat &&& 2 != 0) = (nHeight % 2 == 1) := by
    rw [heightCode_and_two]
    rcases Int.emod_two_eq_zero_or_one nHeight with h2 | h2
    · have : nHeight.toNat % 2 = 0 := by omega
      simp [this, h2]
    · have : nHeight.toNat % 2 = 1 := by omega
      simp [this, h2]
  have hheight : ((nHeight.toNat / 2 : Nat) : Int) = nHeight / 2 := by omega
  simp only [hcb, hcs, hheight, UInt32.ofNat_toNat, Coin.undoReadBack]
  rfl

/-- **Undo records do not round-trip.**  A coin spent at a height of two or
more, with an amount in `MoneyRange` and a script of at most
`MAX_SCRIPT_SIZE` bytes, is read back from its undo record with another
height: half of it. -/
theorem txInUndo_readBack_halvesHeight (hec : Secp256k1Recovers ecPubkeyParse) {c : Coin}
    (hvalue : moneyRange c.out.nValue = true) (hscript : c.out.scriptPubKey.length ≤ MAX_SCRIPT_SIZE)
    (hlo : 2 ≤ c.nHeight) (hhi : c.nHeight < 2 ^ 30) (txout₀ : Coin) (rest : List UInt8) :
    (txInUndoUnser ecPubkeyParse txout₀).run (txInUndoSer ecPubkeyParse c ++ rest) =
      .ok (c.undoReadBack, rest) ∧ c.undoReadBack.nHeight ≠ c.nHeight := by
  refine ⟨txInUndoUnser_ser ecPubkeyParse hec hvalue hscript hlo hhi txout₀ rest, ?_⟩
  show c.nHeight / 2 ≠ c.nHeight
  omega

/-- The coins the read-back lemmas cover: an amount in `MoneyRange`, a
script of at most `MAX_SCRIPT_SIZE` bytes, and a height from two up to
`2^30`. -/
def UndoCoinInRange (c : Coin) : Prop :=
  moneyRange c.out.nValue = true ∧ c.out.scriptPubKey.length ≤ MAX_SCRIPT_SIZE ∧ 2 ≤ c.nHeight ∧
    c.nHeight < 2 ^ 30

/-- A transaction's undo record reads back with every coin as
`txInUndoUnser_ser` gives it. -/
theorem cTxUndoUnser_ser (hec : Secp256k1Recovers ecPubkeyParse) {u : CTxUndo}
    (hlen : u.vprevout.length ≤ MAX_SIZE) (hcoins : ∀ c ∈ u.vprevout, UndoCoinInRange c)
    (rest : List UInt8) :
    (CTxUndo.unserialize ecPubkeyParse).run (u.serialize ecPubkeyParse ++ rest) =
      .ok (⟨u.vprevout.map Coin.undoReadBack⟩, rest) := by
  have hread := readVector_flatMap hlen (fun c hc rest =>
    have ⟨hvalue, hscript, hlo, hhi⟩ := hcoins c hc
    txInUndoUnser_ser ecPubkeyParse hec hvalue hscript hlo hhi Coin.empty rest) rest
  rw [CTxUndo.unserialize, StateT.run_map, CTxUndo.serialize, hread]
  rfl

/-- A block's undo data reads back with every coin as `txInUndoUnser_ser`
gives it. -/
theorem cBlockUndoUnser_ser (hec : Secp256k1Recovers ecPubkeyParse) {u : CBlockUndo}
    (hlen : u.vtxundo.length ≤ MAX_SIZE)
    (hrecords : ∀ t ∈ u.vtxundo, t.vprevout.length ≤ MAX_SIZE ∧ ∀ c ∈ t.vprevout, UndoCoinInRange c)
    (rest : List UInt8) :
    (CBlockUndo.unserialize ecPubkeyParse).run (u.serialize ecPubkeyParse ++ rest) =
      .ok (⟨u.vtxundo.map fun t => ⟨t.vprevout.map Coin.undoReadBack⟩⟩, rest) := by
  have hread := readVector_flatMap hlen (fun t ht rest =>
    cTxUndoUnser_ser ecPubkeyParse hec (hrecords t ht).1 (hrecords t ht).2 rest) rest
  rw [CBlockUndo.unserialize, StateT.run_map, CBlockUndo.serialize, hread]
  rfl

/-! ## The coin database record -/

/-- `Coin::Serialize`: the VarInt `nHeight * 2 + fCoinBase` in a
`uint32_t`, the compressed output, then (ppcoin) the coinstake flag and
`nTime` as VarInts. -/
def coinSer (c : Coin) : List UInt8 :=
  writeVarInt ((c.heightField * 2 + c.fCoinBase.toNat) % 2 ^ 32) ++
    txOutCompressionSer ecPubkeyParse c.out ++
    writeVarInt (if c.fCoinStake then 1 else 0) ++
    writeVarInt c.nTime.toNat

/-- `Coin::Unserialize`, into the coin `coin`. -/
def coinUnser (coin : Coin) : StreamReader Coin := do
  let code ← readVarInt UINT32_MAX
  let nHeight := code >>> 1
  let fCoinBase := code &&& 1 != 0
  let out ← txOutCompressionUnser ecPubkeyParse coin.out
  let nFlag ← readVarInt UINT32_MAX
  let fCoinStake := nFlag &&& 1 != 0
  let nTime ← readVarInt UINT32_MAX
  pure ⟨out, nHeight, fCoinBase, fCoinStake, UInt32.ofNat nTime⟩

/-- **The coin record round-trips.**  An unspent coin with a height below
`2^31`, an amount in `MoneyRange` and a script of at most `MAX_SCRIPT_SIZE`
bytes reads back from its `Coin::Serialize` record as itself, and the read
stops where the record ends. -/
theorem coinUnser_ser (hec : Secp256k1Recovers ecPubkeyParse) {c : Coin}
    (hvalue : moneyRange c.out.nValue = true) (hscript : c.out.scriptPubKey.length ≤ MAX_SCRIPT_SIZE)
    (hlo : 0 ≤ c.nHeight) (hhi : c.nHeight < 2 ^ 31) (coin₀ : Coin) (rest : List UInt8) :
    (coinUnser ecPubkeyParse coin₀).run (coinSer ecPubkeyParse c ++ rest) = .ok (c, rest) := by
  obtain ⟨out, nHeight, fCoinBase, fCoinStake, nTime⟩ := c
  dsimp only at hvalue hscript hlo hhi
  -- the 31-bit field holds the height, and the code fits `uint32_t`
  have hfield : (nHeight % 2 ^ 31).toNat = nHeight.toNat := by omega
  have hcode : (nHeight.toNat * 2 + fCoinBase.toNat) % 2 ^ 32 = nHeight.toNat * 2 + fCoinBase.toNat := by
    cases fCoinBase <;> simp <;> omega
  have hcodeMax : nHeight.toNat * 2 + fCoinBase.toNat ≤ UINT32_MAX := by
    unfold UINT32_MAX
    cases fCoinBase <;> simp <;> omega
  have hflagMax : (if fCoinStake then 1 else 0) ≤ UINT32_MAX := by
    unfold UINT32_MAX
    split <;> omega
  have htime : nTime.toNat ≤ UINT32_MAX := by
    unfold UINT32_MAX
    have := nTime.toNat_lt
    omega
  simp only [coinSer, Coin.heightField, hfield, hcode, List.append_assoc]
  rw [coinUnser, StateT.run_bind, readVarInt_writeVarInt hcodeMax, except_ok_bind]
  simp only [StateT.run_bind, txOutCompressionUnser_ser ecPubkeyParse hec hvalue hscript, except_ok_bind,
    readVarInt_writeVarInt hflagMax, readVarInt_writeVarInt htime, StateT.run_pure]
  -- each field decoded against the coin written
  have hheight : (((nHeight.toNat * 2 + fCoinBase.toNat) >>> 1 : Nat) : Int) = nHeight := by
    rw [Nat.shiftRight_eq_div_pow]
    cases fCoinBase <;> simp <;> omega
  have hcb : (nHeight.toNat * 2 + fCoinBase.toNat &&& 1 != 0) = fCoinBase := by
    rw [heightCode_and_one]
    cases fCoinBase <;> rfl
  have hcs : ((if fCoinStake then 1 else 0) &&& 1 != 0) = fCoinStake := by
    cases fCoinStake <;> rfl
  rw [hheight, hcb, hcs, UInt32.ofNat_toNat]
  rfl

/-- A coinbase output of fifty coins to `OP_TRUE` at height seven. -/
theorem coinUnser_ser_sample :
    moneyRange (50 * COIN) = true ∧ [OP_1].length ≤ MAX_SCRIPT_SIZE ∧ (0 : Int) ≤ 7 ∧ (7 : Int) < 2 ^ 31 ∧
      (coinUnser (fun _ => none) Coin.empty).run
          (coinSer (fun _ => none) ⟨⟨50 * COIN, [OP_1]⟩, 7, true, false, 1600000000⟩ ++ []) =
        .ok (⟨⟨50 * COIN, [OP_1]⟩, 7, true, false, 1600000000⟩, []) :=
  ⟨by decide, by decide, by decide, by decide,
    coinUnser_ser (fun _ => none) (fun _ _ _ h => by simp at h) (by decide) (by decide) (by decide) (by decide)
      Coin.empty []⟩

end Formatter

/-- The coin of the failing input: fifty coins to `OP_TRUE`, created at
height two by a plain transaction. -/
theorem txInUndo_readBack_height_two :
    (txInUndoUnser (fun _ => none) Coin.empty).run
        (txInUndoSer (fun _ => none) ⟨⟨50 * COIN, [OP_1]⟩, 2, false, false, 0⟩ ++ []) =
      .ok ((⟨⟨50 * COIN, [OP_1]⟩, 2, false, false, 0⟩ : Coin).undoReadBack, []) ∧
    (⟨⟨50 * COIN, [OP_1]⟩, 2, false, false, 0⟩ : Coin).undoReadBack.nHeight ≠ 2 :=
  txInUndo_readBack_halvesHeight (fun _ => none) (fun _ _ _ h => by simp at h) (by decide) (by decide)
    (by decide) (by decide) Coin.empty []

end Veribase
