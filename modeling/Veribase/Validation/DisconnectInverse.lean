import Veribase.Validation.Disconnect
import Veribase.Coins.CoinsViewCache

/-!
# Disconnecting a block undoes connecting it

`DisconnectBlock`, given the undo data `ConnectBlock` recorded as it stands
in memory, gives back the view the block was connected on, with
`DISCONNECT_OK` (`disconnectBlock_connectUndo`): beside
`connectDisconnect_height_two`, the lost height is the undo file's.

`setCoin` is the one-entry update of `SpendCoin` and `AddCoin`.  The output
loop spends what `AddCoins` added (`spendOutputs_addCoinsFrom`), the input
loop puts back what `UpdateCoins` spent (`restoreInputs_spendInputsUndo`),
and the transaction loop is an induction from the first transaction, the
disconnect running over the reverse (`disconnectTxs_updateCoinsLoop`).  The
view must be `Restorable`; the coinbase must come first and only there, and
its outputs replace no coin of the view (the pre-BIP30 overwrite) and fit the
`uint32_t` output index.
-/

namespace Veribase

/-- A coin `ApplyTxInUndo` puts back as it was: unspent, for the assertion of
`AddCoin`; spendable, or `AddCoin` drops it; and with a height, so that the
branch for undo records without metadata is not taken, that the 31-bit field
`nHeight` of `coins.h` holds. -/
structure Coin.Restorable (c : Coin) : Prop where
  unspent : c.isSpent = false
  spendable : isUnspendable c.out.scriptPubKey = false
  height : 0 < c.nHeight ∧ c.nHeight < 2 ^ 31

namespace CCoinsViewCache

/-- The view with the entry of `o` replaced by `x`: what `SpendCoin` and
`AddCoin` do to one outpoint. -/
def setCoin (view : CCoinsViewCache) (o : COutPoint) (x : Option Coin) : CCoinsViewCache :=
  { view with coins := Function.update view.coins o x }

/-- Every coin the view holds is restorable. -/
def Restorable (view : CCoinsViewCache) : Prop :=
  ∀ o c, view.coins o = some c → c.Restorable

variable {view view' : CCoinsViewCache} {o o' : COutPoint} {x y : Option Coin} {c : Coin}

@[simp] theorem setCoin_coins : (view.setCoin o x).coins = Function.update view.coins o x := rfl

theorem setCoin_self (h : view.coins o = x) : view.setCoin o x = view := by
  subst h
  simp [setCoin]

@[simp] theorem setCoin_setCoin : (view.setCoin o x).setCoin o y = view.setCoin o y := by
  simp [setCoin]

theorem setCoin_comm (h : o ≠ o') :
    (view.setCoin o x).setCoin o' y = (view.setCoin o' y).setCoin o x := by
  simp [setCoin, Function.update_comm h]

/-- The entry updates of the model, written as `setCoin`. -/
theorem setCoin_eq_ite :
    view.setCoin o x = { view with coins := fun o' => if o' = o then x else view.coins o' } := by
  simp only [setCoin, mk.injEq, and_true]
  funext o'
  exact Function.update_apply _ _ _ _

theorem spendCoin_eq_setCoin (h : view.coins o = some c) :
    view.spendCoin o = some (view.setCoin o none) := by
  rw [spendCoin_of_coins h, setCoin_eq_ite]

/-- `CCoinsViewCache.addCoin_eq_ok`, with the entry set written as `setCoin`. -/
theorem addCoin_eq_ok_setCoin {possible_overwrite : Bool}
    (h : view.addCoin o c possible_overwrite = .ok view') :
    c.isSpent = false ∧
      (isUnspendable c.out.scriptPubKey = true ∧ view' = view ∨
        isUnspendable c.out.scriptPubKey = false ∧
          (possible_overwrite = true ∨ view.coins o = none) ∧
          view' = view.setCoin o (some c)) := by
  rw [setCoin_eq_ite]
  exact CCoinsViewCache.addCoin_eq_ok h

theorem addCoin_eq_setCoin {possible_overwrite : Bool} (hc : c.Restorable)
    (hfresh : possible_overwrite = true ∨ view.coins o = none) :
    view.addCoin o c possible_overwrite = .ok (view.setCoin o (some c)) := by
  rw [addCoin_of_fresh hc.unspent hc.spendable hfresh, setCoin_eq_ite]

theorem addCoin_of_unspendable {possible_overwrite : Bool} (hunspent : c.isSpent = false)
    (hun : isUnspendable c.out.scriptPubKey = true) :
    view.addCoin o c possible_overwrite = .ok view := by
  simp [addCoin, hunspent, hun]

theorem Restorable.setCoin (h : view.Restorable) (hx : ∀ c, x = some c → c.Restorable) :
    (view.setCoin o x).Restorable := by
  intro o' c' hc'
  by_cases ho : o' = o
  · subst ho
    exact hx c' (by simpa using hc')
  · exact h o' c' (by simpa [Function.update_of_ne ho] using hc')

/-- `AddCoin` of a coin with a height keeps the view restorable. -/
theorem Restorable.addCoin {possible_overwrite : Bool} (h : view.Restorable)
    (hheight : 0 < c.nHeight ∧ c.nHeight < 2 ^ 31)
    (hadd : view.addCoin o c possible_overwrite = .ok view') : view'.Restorable := by
  obtain ⟨hunspent, ⟨-, rfl⟩ | ⟨hspendable, -, rfl⟩⟩ := addCoin_eq_ok_setCoin hadd
  · exact h
  · exact h.setCoin fun _ hc => Option.some.inj hc ▸ ⟨hunspent, hspendable, hheight⟩

end CCoinsViewCache

open CCoinsViewCache

/-! ## The outputs -/

section Outputs

variable {txid : uint256} {coinOf : CTxOut → Coin} {overwrite : Bool}

/-- A coin set before the loop of `AddCoins` stays, and the loop runs the
same without it, on the entries it touches: those it does not overwrite,
either for want of leave or because its output indices pass by. -/
theorem addCoinsFrom_setCoin :
    ∀ (outs : List CTxOut) (i : Nat) (view view' : CCoinsViewCache) (o : COutPoint) (c : Coin),
      view.coins o = none →
      (overwrite = false ∨
        ∀ n, i ≤ n → n < i + outs.length → o ≠ ⟨txid, UInt32.ofNat n⟩) →
      addCoinsFrom txid coinOf overwrite i outs (view.setCoin o (some c)) = .ok view' →
      view'.coins o = some c ∧
        addCoinsFrom txid coinOf overwrite i outs view = .ok (view'.setCoin o none)
  | [], i, view, view', o, c, hnone, _, hrun => by
    cases hrun
    simp [addCoinsFrom, setCoin_self hnone]
  | out :: rest, i, view, view', o, c, hnone, hleave, hrun => by
    obtain ⟨view₁, hadd, hrest⟩ := Fault.bind_eq_ok.mp hrun
    have hleave' : overwrite = false ∨ ∀ n, i + 1 ≤ n → n < i + 1 + rest.length →
        o ≠ ⟨txid, UInt32.ofNat n⟩ := by
      rcases hleave with h | h
      · exact .inl h
      · exact .inr fun n h₁ h₂ => h n (by omega) (by simp at h₂ ⊢; omega)
    obtain ⟨hunspent, ⟨hun, rfl⟩ | ⟨hspendable, hfresh, rfl⟩⟩ := addCoin_eq_ok_setCoin hadd
    · -- an unspendable output is dropped on both sides
      obtain ⟨hkeep, hrun'⟩ :=
        addCoinsFrom_setCoin rest (i + 1) view view' o c hnone hleave' hrest
      refine ⟨hkeep, ?_⟩
      simp only [addCoinsFrom, addCoin_of_unspendable hunspent hun, Fault.ok_bind, hrun']
    · -- the output's entry is another one, so the two updates commute
      have hne : o ≠ ⟨txid, UInt32.ofNat i⟩ := by
        rcases hleave with hno | h
        · rintro rfl
          simp [hno] at hfresh
        · exact h i le_rfl (by simp)
      have hfresh' : overwrite = true ∨ view.coins ⟨txid, UInt32.ofNat i⟩ = none := by
        rcases hfresh with h | h
        · exact .inl h
        · exact .inr (by simpa [Function.update_of_ne (Ne.symm hne)] using h)
      rw [setCoin_comm hne] at hrest
      obtain ⟨hkeep, hrun'⟩ := addCoinsFrom_setCoin rest (i + 1) _ view' o c
        (by simpa [Function.update_of_ne hne] using hnone) hleave' hrest
      refine ⟨hkeep, ?_⟩
      simp only [addCoinsFrom, addCoin_of_fresh hunspent hspendable hfresh', Fault.ok_bind]
      rw [← setCoin_eq_ite, hrun']

/-- The output loop of `DisconnectBlock` spends exactly what the loop of
`AddCoins` added, each output found as the block made it: a coinbase's
outputs must not replace coins of the view, nor their indices wrap. -/
theorem spendOutputs_addCoinsFrom (tx : CTransaction) (nHeight : Int) :
    ∀ (outs : List CTxOut) (i : Nat) (view view' : CCoinsViewCache) (f : Bool),
      (tx.isCoinBase = true →
        (∀ n, view.coins ⟨tx.getHash, n⟩ = none) ∧ i + outs.length ≤ UInt32.size) →
      addCoinsFrom tx.getHash
        (fun out => ⟨out, nHeight, tx.isCoinBase, tx.isCoinStake, tx.nTime⟩)
        tx.isCoinBase i outs view = .ok view' →
      spendOutputs tx nHeight i outs view' f = (view, f)
  | [], i, view, view', f, _, hrun => by
    cases hrun
    rfl
  | out :: rest, i, view, view', f, hcb, hrun => by
    obtain ⟨view₁, hadd, hrest⟩ := Fault.bind_eq_ok.mp hrun
    have hcb' : tx.isCoinBase = true →
        (∀ n, view.coins ⟨tx.getHash, n⟩ = none) ∧ i + 1 + rest.length ≤ UInt32.size := by
      intro h
      obtain ⟨hf, hl⟩ := hcb h
      exact ⟨hf, by simp at hl; omega⟩
    obtain ⟨-, ⟨hun, rfl⟩ | ⟨hspendable, hfresh, rfl⟩⟩ := addCoin_eq_ok_setCoin hadd
    · -- an unspendable output was never added, and is skipped
      simp only at hun
      simp only [spendOutputs, hun, Bool.not_true, Bool.false_eq_true, if_false]
      exact spendOutputs_addCoinsFrom tx nHeight rest (i + 1) _ view' f hcb' hrest
    · simp only at hspendable
      have hnone : view.coins ⟨tx.getHash, UInt32.ofNat i⟩ = none := by
        cases hcbv : tx.isCoinBase with
        | true => exact (hcb hcbv).1 _
        | false => simpa [hcbv] using hfresh
      -- the later outputs leave this one alone
      have hleave : tx.isCoinBase = false ∨ ∀ n, i + 1 ≤ n → n < i + 1 + rest.length →
          (⟨tx.getHash, UInt32.ofNat i⟩ : COutPoint) ≠ ⟨tx.getHash, UInt32.ofNat n⟩ := by
        cases hcbv : tx.isCoinBase with
        | false => exact .inl rfl
        | true =>
          refine .inr fun n h₁ h₂ heq => ?_
          have hl := (hcb hcbv).2
          simp only [List.length_cons] at hl
          have := congrArg UInt32.toNat (COutPoint.mk.inj heq).2
          rw [UInt32.toNat_ofNat', UInt32.toNat_ofNat'] at this
          simp only [UInt32.size] at hl
          omega
      obtain ⟨hkeep, hrun'⟩ :=
        addCoinsFrom_setCoin rest (i + 1) view view' _ _ hnone hleave hrest
      simp only [spendOutputs, hspendable, Bool.not_false, if_true, accessCoin, hkeep,
        Option.getD_some, spendCoin_eq_setCoin hkeep, beq_self_eq_true, Bool.and_self,
        Bool.and_true]
      exact spendOutputs_addCoinsFrom tx nHeight rest (i + 1) view _ f hcb' hrun'

end Outputs

/-! ## The inputs -/

section Inputs

variable (params : Params)

/-- `ApplyTxInUndo` of a restorable coin over an outpoint the view does not
hold sets it, cleanly. -/
theorem applyTxInUndo_of_restorable {undo : Coin} (view : CCoinsViewCache) (out : COutPoint)
    (hundo : undo.Restorable) (hnone : view.coins out = none) :
    applyTxInUndo params undo view out = .ok (.DISCONNECT_OK, view.setCoin out (some undo)) := by
  simp [applyTxInUndo, haveCoin, hnone, hundo.height.1.ne', addCoin_eq_setCoin hundo (.inr hnone)]

/-- The input loop of `DisconnectBlock` runs its list as two halves. -/
theorem restoreInputs_append :
    ∀ (xs ys : List (COutPoint × Coin)) (view view' : CCoinsViewCache) (f f' : Bool),
      restoreInputs params xs view f = .ok (some (view', f')) →
      restoreInputs params (xs ++ ys) view f = restoreInputs params ys view' f'
  | [], ys, view, view', f, f', h => by
    cases h
    rfl
  | (out, undo) :: xs, ys, view, view', f, f', h => by
    obtain ⟨⟨res, view₁⟩, happly, hrest⟩ := Fault.bind_eq_ok.mp h
    simp only [List.cons_append, restoreInputs, happly, Fault.ok_bind]
    dsimp only at hrest
    by_cases hres : res = .DISCONNECT_FAILED
    · simp [hres] at hrest
    · rw [if_neg hres] at hrest ⊢
      exact restoreInputs_append xs ys view₁ view' _ f' hrest

/-- What spending one input does: the view held the coin, records it, and
goes on without it. -/
theorem spendInputsUndo_cons_eq_ok {txin : CTxIn} {rest : List CTxIn} {view view' : CCoinsViewCache}
    {vprevout : List Coin} (h : spendInputsUndo (txin :: rest) view = .ok (view', vprevout)) :
    ∃ c vp, view.coins txin.prevout = some c ∧ vprevout = c :: vp ∧
      spendInputsUndo rest (view.setCoin txin.prevout none) = .ok (view', vp) := by
  unfold spendInputsUndo at h
  split at h
  · rename_i spent hspend
    obtain ⟨⟨view₁, vp⟩, hrest, h⟩ := Fault.bind_eq_ok.mp h
    simp only [Fault.pure_eq, Except.ok.injEq, Prod.mk.injEq] at h
    obtain ⟨rfl, rfl⟩ := h
    cases hc : view.coins txin.prevout with
    | none => simp [spendCoin, haveCoin, hc] at hspend
    | some c =>
      rw [spendCoin_eq_setCoin hc, Option.some.injEq] at hspend
      subst hspend
      exact ⟨c, vp, rfl, by simp [accessCoin, hc], hrest⟩
  · cases h

/-- Spending the inputs records the coins, one for each input. -/
theorem spendInputsUndo_length :
    ∀ (L : List CTxIn) (view view' : CCoinsViewCache) (vprevout : List Coin),
      spendInputsUndo L view = .ok (view', vprevout) → vprevout.length = L.length
  | [], view, view', vprevout, h => by
    cases h
    rfl
  | txin :: rest, view, view', vprevout, h => by
    obtain ⟨_, vp, -, rfl, hrest⟩ := spendInputsUndo_cons_eq_ok h
    simp [spendInputsUndo_length rest _ _ vp hrest]

/-- The input loop of `DisconnectBlock`, over the inputs and their records
from the last, puts back every coin `UpdateCoins` spent, cleanly. -/
theorem restoreInputs_spendInputsUndo :
    ∀ (L : List CTxIn) (view view' : CCoinsViewCache) (vprevout : List Coin) (f : Bool),
      view.Restorable → spendInputsUndo L view = .ok (view', vprevout) →
      restoreInputs params ((L.map (·.prevout)).zip vprevout).reverse view' f =
        .ok (some (view, f))
  | [], view, view', vprevout, f, _, h => by
    cases h
    rfl
  | txin :: rest, view, view', vprevout, f, hview, h => by
    obtain ⟨c, vp, hc, rfl, hrest⟩ := spendInputsUndo_cons_eq_ok h
    -- the last inputs first, back to the view without this input's coin
    have hback := restoreInputs_spendInputsUndo rest _ view' vp f (hview.setCoin (by simp)) hrest
    simp only [List.map_cons, List.zip_cons_cons, List.reverse_cons]
    rw [restoreInputs_append params _ _ view' _ f f hback]
    have happly := applyTxInUndo_of_restorable params (view.setCoin txin.prevout none) txin.prevout
      (hview _ c hc) (by simp)
    simp [restoreInputs, happly, setCoin_self hc]

end Inputs

/-! ## One transaction, and the block -/

/-- What a successful `UpdateCoins` did: a coinbase only added its outputs,
with an empty record; any other transaction spent its inputs into its record
first. -/
theorem updateCoinsUndo_eq_ok {tx : CTransaction} {view view' : CCoinsViewCache} {nHeight : Int}
    {txundo : CTxUndo} (h : updateCoinsUndo tx view nHeight = .ok (view', txundo)) :
    tx.isCoinBase = true ∧ txundo = ⟨[]⟩ ∧ addCoins view tx nHeight = .ok view' ∨
      tx.isCoinBase = false ∧ ∃ view₁,
        spendInputsUndo tx.vin view = .ok (view₁, txundo.vprevout) ∧
          addCoins view₁ tx nHeight = .ok view' := by
  cases hcb : tx.isCoinBase with
  | true =>
    simp only [updateCoinsUndo, hcb, if_true, Fault.pure_eq, Fault.ok_bind] at h
    obtain ⟨view₁, hadd, h⟩ := Fault.bind_eq_ok.mp h
    simp only [Except.ok.injEq, Prod.mk.injEq] at h
    obtain ⟨rfl, rfl⟩ := h
    exact .inl ⟨rfl, rfl, hadd⟩
  | false =>
    simp only [updateCoinsUndo, hcb, Bool.false_eq_true, if_false] at h
    obtain ⟨⟨view₁, vp⟩, hspend, h⟩ := Fault.bind_eq_ok.mp h
    obtain ⟨view₂, hadd, h⟩ := Fault.bind_eq_ok.mp h
    simp only [Fault.pure_eq, Except.ok.injEq, Prod.mk.injEq] at h
    obtain ⟨rfl, rfl⟩ := h
    exact .inr ⟨rfl, view₁, hspend, hadd⟩

namespace CCoinsViewCache

theorem Restorable.spendInputsUndo :
    ∀ {L : List CTxIn} {view view' : CCoinsViewCache} {vprevout : List Coin},
      view.Restorable → spendInputsUndo L view = .ok (view', vprevout) → view'.Restorable
  | [], view, view', vprevout, hview, h => by
    cases h
    exact hview
  | txin :: rest, view, view', vprevout, hview, h => by
    obtain ⟨_, _, -, -, hrest⟩ := spendInputsUndo_cons_eq_ok h
    exact Restorable.spendInputsUndo (hview.setCoin (by simp)) hrest

theorem Restorable.addCoinsFrom {txid : uint256} {coinOf : CTxOut → Coin} {overwrite : Bool}
    (hheight : ∀ out, 0 < (coinOf out).nHeight ∧ (coinOf out).nHeight < 2 ^ 31) :
    ∀ {outs : List CTxOut} {i : Nat} {view view' : CCoinsViewCache},
      view.Restorable → addCoinsFrom txid coinOf overwrite i outs view = .ok view' →
        view'.Restorable
  | [], i, view, view', hview, h => by
    cases h
    exact hview
  | out :: rest, i, view, view', hview, h => by
    obtain ⟨view₁, hadd, hrest⟩ := Fault.bind_eq_ok.mp h
    exact Restorable.addCoinsFrom hheight (hview.addCoin (hheight out) hadd) hrest

/-- `UpdateCoins` at a height keeps the view restorable. -/
theorem Restorable.updateCoinsUndo {tx : CTransaction} {view view' : CCoinsViewCache}
    {nHeight : Int} {txundo : CTxUndo} (hview : view.Restorable)
    (hheight : 0 < nHeight ∧ nHeight < 2 ^ 31)
    (h : updateCoinsUndo tx view nHeight = .ok (view', txundo)) : view'.Restorable := by
  rcases updateCoinsUndo_eq_ok h with ⟨-, -, hadd⟩ | ⟨-, view₁, hspend, hadd⟩
  · exact Restorable.addCoinsFrom (fun _ => hheight) hview hadd
  · exact Restorable.addCoinsFrom (fun _ => hheight) (hview.spendInputsUndo hspend) hadd

end CCoinsViewCache

section Block

variable (params : Params) (nHeight : Int) (vtxundo : List CTxUndo)

/-- One transaction taken back: the step of `DisconnectBlock` for the
transaction at position `i` leaves the view `UpdateCoins` found, the coinbase
at position `0` by its outputs alone, any other by its record at `i - 1`. -/
theorem disconnectTxs_updateCoinsUndo {tx : CTransaction} {i : Nat} {view view₁ : CCoinsViewCache}
    {txundo : CTxUndo} (hview : view.Restorable)
    (hconnect : updateCoinsUndo tx view nHeight = .ok (view₁, txundo))
    (hpos : tx.isCoinBase = true ∧ i = 0 ∧ (∀ n, view.coins ⟨tx.getHash, n⟩ = none) ∧
        tx.vout.length ≤ UInt32.size ∨
      tx.isCoinBase = false ∧ 0 < i ∧ vtxundo[i - 1]? = some txundo)
    (rest : List (CTransaction × Nat)) (f : Bool) :
    disconnectTxs params nHeight vtxundo ((tx, i) :: rest) view₁ f =
      disconnectTxs params nHeight vtxundo rest view f := by
  rcases hpos with ⟨hcb, rfl, hfresh, hsize⟩ | ⟨hcb, hi, hundo⟩
  · -- the coinbase spends nothing, and its outputs go
    obtain ⟨-, -, hadd⟩ | ⟨hncb, -⟩ := updateCoinsUndo_eq_ok hconnect
    · have hout := spendOutputs_addCoinsFrom tx nHeight tx.vout 0 view view₁ f
        (fun _ => ⟨hfresh, by simpa using hsize⟩) hadd
      simp [disconnectTxs, hout]
    · simp [hcb] at hncb
  · -- another transaction loses its outputs and gets its inputs back
    obtain ⟨hcb', -⟩ | ⟨-, view₂, hspend, hadd⟩ := updateCoinsUndo_eq_ok hconnect
    · simp [hcb] at hcb'
    have hout := spendOutputs_addCoinsFrom tx nHeight tx.vout 0 view₂ view₁ f
      (by simp [hcb]) hadd
    have hlen := spendInputsUndo_length tx.vin view view₂ _ hspend
    have hback := restoreInputs_spendInputsUndo params tx.vin view view₂ _ f hview hspend
    simp [disconnectTxs, hout, hi, Fault.index_of_getElem? hundo, hlen, hback]

/-- The transaction loop: every transaction from position `n > 0` taken back,
from the last, leaves the view the loop of `ConnectBlock` started from, and
the records of the loop follow those it was given, one for each
transaction. -/
theorem disconnectTxs_updateCoinsLoop (hheight : 0 < nHeight ∧ nHeight < 2 ^ 31) :
    ∀ (txs : List CTransaction) (n : Nat) (view view' : CCoinsViewCache) (acc : List CTxUndo)
      (undo : CBlockUndo),
      0 < n → acc.length = n - 1 → (∀ tx ∈ txs, tx.isCoinBase = false) →
      view.Restorable →
      updateCoinsLoop nHeight (txs.zipIdx n) view acc = .ok (view', undo) →
      (∃ more, undo.vtxundo = acc ++ more ∧ more.length = txs.length) ∧
        ∀ ys f, disconnectTxs params nHeight undo.vtxundo ((txs.zipIdx n).reverse ++ ys) view' f =
          disconnectTxs params nHeight undo.vtxundo ys view f
  | [], n, view, view', acc, undo, _, _, _, _, h => by
    cases h
    exact ⟨⟨[], by simp, rfl⟩, fun ys f => rfl⟩
  | tx :: rest, n, view, view', acc, undo, hn, hacc, hcb, hview, h => by
    simp only [List.zipIdx_cons, updateCoinsLoop] at h
    obtain ⟨⟨view₁, txundo⟩, hconnect, h⟩ := Fault.bind_eq_ok.mp h
    simp only [hn, if_true] at h
    obtain ⟨⟨more, hundo, hmore⟩, hback⟩ :=
      disconnectTxs_updateCoinsLoop hheight rest (n + 1) view₁ view' (acc ++ [txundo]) undo
        (by omega) (by simp; omega) (fun t ht => hcb t (by simp [ht]))
        (hview.updateCoinsUndo hheight hconnect) h
    refine ⟨⟨txundo :: more, by simp [hundo], by simp [hmore]⟩, fun ys f => ?_⟩
    -- the record of this transaction sits at `n - 1`, after those it was given
    have hget : undo.vtxundo[n - 1]? = some txundo := by
      rw [hundo, List.append_assoc, List.getElem?_append_right (by omega)]
      simp [hacc]
    simp only [List.zipIdx_cons, List.reverse_cons, List.append_assoc, List.singleton_append]
    rw [hback]
    exact disconnectTxs_updateCoinsUndo params nHeight undo.vtxundo hview hconnect
      (.inr ⟨hcb tx (by simp), hn, hget⟩) ys f

end Block

/-- **Disconnecting undoes connecting.**  A block whose coinbase comes first
and only there, connected on a restorable view, is disconnected with the
undo data its connection recorded into the same view with `DISCONNECT_OK`,
the best block moved to its parent; the coinbase's outputs must replace no
coin of the view and fit in the output index. -/
theorem disconnectBlock_connectUndo (params : Params) {block : CBlock} {coinbase : CTransaction}
    {rest : List CTransaction} {nHeight : Int} (hashPrevBlock : uint256)
    {view view' : CCoinsViewCache} {blockUndo : CBlockUndo}
    (hvtx : block.vtx = coinbase :: rest) (hcb : coinbase.isCoinBase = true)
    (hrest : ∀ tx ∈ rest, tx.isCoinBase = false)
    (hfresh : ∀ n, view.coins ⟨coinbase.getHash, n⟩ = none)
    (hsize : coinbase.vout.length ≤ UInt32.size)
    (hheight : 0 < nHeight ∧ nHeight < 2 ^ 31) (hview : view.Restorable)
    (hconnect : connectUndo block nHeight view = .ok (view', blockUndo)) :
    disconnectBlock params block nHeight hashPrevBlock (some blockUndo) view' =
      .ok (.DISCONNECT_OK, { view with hashBlock := hashPrevBlock }) := by
  simp only [connectUndo, hvtx, List.zipIdx_cons, updateCoinsLoop] at hconnect
  obtain ⟨⟨view₁, cbundo⟩, hcbConnect, hconnect⟩ := Fault.bind_eq_ok.mp hconnect
  simp only [Nat.lt_irrefl, if_false] at hconnect
  obtain ⟨⟨more, hundo, hmore⟩, hback⟩ :=
    disconnectTxs_updateCoinsLoop params nHeight hheight rest 1 view₁ view' [] blockUndo
      (by omega) rfl hrest (hview.updateCoinsUndo hheight hcbConnect) hconnect
  -- the coinbase is taken back last, by its outputs alone
  have hcbBack := disconnectTxs_updateCoinsUndo params nHeight blockUndo.vtxundo hview hcbConnect
    (.inl ⟨hcb, rfl, hfresh, hsize⟩) [] true
  have hlen : blockUndo.vtxundo.length + 1 = block.vtx.length := by
    simp [hundo, hmore, hvtx]
  simp only [disconnectBlock, hlen, ne_eq, not_true_eq_false, if_false, hvtx, List.zipIdx_cons,
    List.reverse_cons, hback, hcbBack]
  rfl

theorem heightTwoView_restorable : heightTwoView.Restorable := by
  intro o c h
  by_cases ho : o = heightTwoOutpoint
  · simp only [heightTwoView, ho, if_true, Option.some.injEq] at h
    subst h
    exact ⟨by decide, by decide, by decide⟩
  · simp [heightTwoView, ho] at h

/-- The block of `connectDisconnect_height_two`, disconnected with the undo
data of its connection as it stands in memory: the view comes back whole,
its coin at height two. -/
theorem disconnectBlock_connectUndo_heightTwo :
    ∃ view' blockUndo, connectUndo heightTwoBlock 3 heightTwoView = .ok (view', blockUndo) ∧
      disconnectBlock (vericoinParams uint256.zero uint256.zero uint256.zero []) heightTwoBlock 3
        (smallKey 7) (some blockUndo) view' = .ok (.DISCONNECT_OK, heightTwoView) := by
  have hcbHash : heightTwoCoinbase.getHash = smallKey 2 := rfl
  have hfresh : ∀ n, heightTwoView.coins ⟨heightTwoCoinbase.getHash, n⟩ = none := by
    intro n
    simp [heightTwoView, heightTwoOutpoint, hcbHash, smallKey_one_ne_two.symm]
  cases hconnect : connectUndo heightTwoBlock 3 heightTwoView with
  | error e =>
    -- the connection runs through: the spent coin is there and the outputs are new
    have hspHash : heightTwoSpend.getHash = smallKey 3 := rfl
    have hcbOut : heightTwoCoinbase.vout = [⟨50 * COIN, [OP_1]⟩] := rfl
    have hspOut : heightTwoSpend.vout = [⟨49 * COIN, [OP_1]⟩] := rfl
    have hspIn : heightTwoSpend.vin = [⟨heightTwoOutpoint, [], SEQUENCE_FINAL, []⟩] := rfl
    simp [hcbHash, hspHash, hcbOut, hspOut, hspIn, connectUndo, heightTwoBlock, CBlock.ofHeader,
      updateCoinsLoop, updateCoinsUndo, addCoins, addCoinsFrom, CCoinsViewCache.addCoin,
      spendInputsUndo, CCoinsViewCache.spendCoin, CCoinsViewCache.haveCoin, heightTwoView,
      Fault.check, Coin.isSpent, isUnspendable, smallKey_one_ne_two, smallKey_one_ne_three.symm,
      smallKey_two_ne_three.symm, heightTwoOutpoint, COIN, OP_1, OP_RETURN,
      MAX_SCRIPT_SIZE] at hconnect
  | ok r =>
    refine ⟨r.1, r.2, rfl, ?_⟩
    exact disconnectBlock_connectUndo _ (smallKey 7)
      (show heightTwoBlock.vtx = [heightTwoCoinbase, heightTwoSpend] from rfl) (by decide)
      (by simp) hfresh (by decide) (by decide) heightTwoView_restorable hconnect

end Veribase
