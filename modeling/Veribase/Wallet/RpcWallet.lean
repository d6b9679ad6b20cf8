import Mathlib

/-!
# Unlocking the wallet for staking only

`rpcwallet.cpp`'s `walletpassphrase` takes a third argument, `mintonly`,
that is meant to let the staking thread sign blocks while the wallet refuses
to spend ("if user OS account compromised prevent trivial sendmoney
commands").  The restriction is the process-wide flag
`fWalletUnlockStakingOnly`: `walletpassphrase` unlocks one wallet and then
sets the flag to `mintonly`, or to `false` when it is omitted, for every
wallet at once; `walletlock` and the relock timer do not touch it.
`EnsureWalletIsUnlocked` refuses when the flag is set on the Vericoin chain,
and `SendMoney` checks it a second time.  Each RPC that signs or writes out a
key calls `EnsureWalletIsUnlocked` first, except `walletprocesspsbt`, whose
`FillPSBT` signs with whatever keys the wallet has in memory.

The model is the RPC server as a state machine over the loaded wallets
(`WalletNode.step`, `WalletNode.run`), with each handler's checks and
messages and the key use it ends in (`KeyUse`).  The flag does not keep its
promise: right after a staking-only unlock the PSBT call signs
(`walletprocesspsbt_signs_after_mintonly`).
-/

namespace Veribase

/-- The fields of a `CWallet` that the unlock RPCs read and write. -/
structure CWallet where
  /-- `IsCrypted()`: the wallet has a master key. -/
  crypted : Bool
  /-- The passphrase `Unlock` decrypts the master key with. -/
  passphrase : String
  /-- The master key is in memory (`vMasterKey` not empty). -/
  unlocked : Bool
  nRelockTime : Int
  /-- `GetBalance().m_mine_trusted`. -/
  balance : Int
deriving DecidableEq

/-- `IsLocked()`: an encrypted wallet without its master key in memory. -/
def CWallet.isLocked (w : CWallet) : Bool := w.crypted && !w.unlocked

/-- The wallet side of the process: the loaded wallets by name, the global
`fWalletUnlockStakingOnly`, and `GetTime()`. -/
structure WalletNode (W : Type) where
  /-- The loaded wallets. -/
  wallets : W → CWallet
  /-- `fWalletUnlockStakingOnly`, one for the whole process. -/
  fWalletUnlockStakingOnly : Bool
  /-- `GetTime()`. -/
  time : Int

/-- The wallet RPCs of the staking-only unlock, with the arguments their
checks read. -/
inductive WalletRpc where
  | walletpassphrase (passphrase : String) (timeout : Int) (mintonly : Option Bool)
  | walletlock
  | sendtoaddress (nAmount : Int)
  | sendmany
  | signmessage
  | signrawtransactionwithwallet
  | walletprocesspsbt (sign : Option Bool)
  | sethdseed
  | dumpprivkey
  | dumpwallet
deriving DecidableEq

/-- What a call did with the wallet's private keys. -/
inductive KeyUse where
  | none
  | signs
  | reveals
  | newSeed
deriving DecidableEq

/-- What happens to the wallet server: an RPC on a wallet, or the relock timer
`walletpassphrase` scheduled for it. -/
inductive WalletEvent (W : Type) where
  | rpc (id : W) (call : WalletRpc)
  | lockwallet (id : W) (relock_time : Int)

/-! ## The handlers -/

section Handlers

variable {W : Type} [DecidableEq W] (isVericoin : Bool)

/-- `EnsureWalletIsUnlocked(pwallet)`, with `Params().IsVericoin()` as
`isVericoin`. -/
def ensureWalletIsUnlocked (fWalletUnlockStakingOnly : Bool) (w : CWallet) : Except String Unit :=
  if w.isLocked then throw "Error: Please enter the wallet passphrase with walletpassphrase first."
  else if fWalletUnlockStakingOnly && isVericoin then throw "Error: Wallet unlocked for block minting only."
  else pure ()

/-- `SendMoney`: the amount checks, the flag a second time, then a signed
transaction. -/
def sendMoney (fWalletUnlockStakingOnly : Bool) (w : CWallet) (nValue : Int) : Except String KeyUse :=
  if nValue ≤ 0 then throw "Invalid amount"
  else if nValue > w.balance then throw "Insufficient funds"
  else if fWalletUnlockStakingOnly && isVericoin then
    throw "Error: Wallet unlocked for block minting only, unable to create transaction."
  else pure .signs

/-- `MAX_SLEEP_TIME`. -/
def MAX_SLEEP_TIME : Int := 100000000

/-- Lock the wallet `id` and clear its relock time. -/
def WalletNode.lockWallet (node : WalletNode W) (id : W) : WalletNode W :=
  { node with
    wallets := Function.update node.wallets id
      { node.wallets id with unlocked := false, nRelockTime := 0 } }

/-- `walletpassphrase(passphrase, timeout, mintonly)` on the wallet `id`. -/
def walletpassphrase (node : WalletNode W) (id : W) (passphrase : String) (timeout : Int)
    (mintonly : Option Bool) : Except String (WalletNode W) :=
  let w := node.wallets id
  if !w.crypted then
    throw "Error: running with an unencrypted wallet, but walletpassphrase was called."
  else if timeout < 0 then throw "Timeout cannot be negative."
  else if passphrase.isEmpty then throw "passphrase can not be empty"
  else if passphrase != w.passphrase then throw "Error: The wallet passphrase entered was incorrect."
  else
    let nSleepTime := min timeout MAX_SLEEP_TIME
    let w' := { w with unlocked := true, nRelockTime := node.time + nSleepTime }
    pure { node with
      wallets := Function.update node.wallets id w'
      -- ppcoin: set after the wallet is unlocked, for the whole process
      fWalletUnlockStakingOnly := mintonly.getD false }

/-- `walletlock()` on the wallet `id`. -/
def walletlock (node : WalletNode W) (id : W) : Except String (WalletNode W) :=
  if !(node.wallets id).crypted then
    throw "Error: running with an unencrypted wallet, but walletlock was called."
  else pure (node.lockWallet id)

/-- The `lockwallet` callback `walletpassphrase` schedules: it locks only if
no later call has moved the relock time. -/
def lockwalletCallback (node : WalletNode W) (id : W) (relock_time : Int) : WalletNode W :=
  if (node.wallets id).nRelockTime ≠ relock_time then node else node.lockWallet id

/-- An RPC that calls `EnsureWalletIsUnlocked` and then uses the keys as
`use` says. -/
def guardedRpc (node : WalletNode W) (id : W) (use : KeyUse) : Except String (WalletNode W × KeyUse) := do
  ensureWalletIsUnlocked isVericoin node.fWalletUnlockStakingOnly (node.wallets id)
  pure (node, use)

/-- `sendmany`: a signed transaction. -/
def sendmany (node : WalletNode W) (id : W) : Except String (WalletNode W × KeyUse) :=
  guardedRpc isVericoin node id .signs

/-- `signmessage`: a signature with the address's key. -/
def signmessage (node : WalletNode W) (id : W) : Except String (WalletNode W × KeyUse) :=
  guardedRpc isVericoin node id .signs

/-- `signrawtransactionwithwallet`: signatures with the wallet's keys. -/
def signrawtransactionwithwallet (node : WalletNode W) (id : W) : Except String (WalletNode W × KeyUse) :=
  guardedRpc isVericoin node id .signs

/-- `sethdseed`: a new HD seed, encrypted under the master key. -/
def sethdseed (node : WalletNode W) (id : W) : Except String (WalletNode W × KeyUse) :=
  guardedRpc isVericoin node id .newSeed

/-- `dumpprivkey`: a private key, written out. -/
def dumpprivkey (node : WalletNode W) (id : W) : Except String (WalletNode W × KeyUse) :=
  guardedRpc isVericoin node id .reveals

/-- `dumpwallet`: every private key, written to a file. -/
def dumpwallet (node : WalletNode W) (id : W) : Except String (WalletNode W × KeyUse) :=
  guardedRpc isVericoin node id .reveals

/-- `sendtoaddress(address, amount)`: its own amount check before
`EnsureWalletIsUnlocked`, then `SendMoney`. -/
def sendtoaddress (node : WalletNode W) (id : W) (nAmount : Int) : Except String (WalletNode W × KeyUse) :=
  if nAmount ≤ 0 then throw "Invalid amount for send"
  else do
    ensureWalletIsUnlocked isVericoin node.fWalletUnlockStakingOnly (node.wallets id)
    let use ← sendMoney isVericoin node.fWalletUnlockStakingOnly (node.wallets id) nAmount
    pure (node, use)

/-- `walletprocesspsbt(psbt, sign)`: no `EnsureWalletIsUnlocked`; `FillPSBT`
signs when asked to and the keys are in memory. -/
def walletprocesspsbt (node : WalletNode W) (id : W) (sign : Option Bool) :
    Except String (WalletNode W × KeyUse) :=
  pure (node, if sign.getD true && !(node.wallets id).isLocked then .signs else .none)

/-- One RPC on the wallet `id`. -/
def WalletNode.rpc (node : WalletNode W) (id : W) : WalletRpc → Except String (WalletNode W × KeyUse)
  | .walletpassphrase passphrase timeout mintonly => do
    let node' ← walletpassphrase node id passphrase timeout mintonly
    pure (node', .none)
  | .walletlock => do
    let node' ← walletlock node id
    pure (node', .none)
  | .sendtoaddress nAmount => sendtoaddress isVericoin node id nAmount
  | .sendmany => sendmany isVericoin node id
  | .signmessage => signmessage isVericoin node id
  | .signrawtransactionwithwallet => signrawtransactionwithwallet isVericoin node id
  | .walletprocesspsbt sign => walletprocesspsbt node id sign
  | .sethdseed => sethdseed isVericoin node id
  | .dumpprivkey => dumpprivkey isVericoin node id
  | .dumpwallet => dumpwallet isVericoin node id

/-- One event of the wallet server. -/
def WalletNode.step (node : WalletNode W) : WalletEvent W → Except String (WalletNode W × KeyUse)
  | .rpc id call => node.rpc isVericoin id call
  | .lockwallet id relock_time => pure (lockwalletCallback node id relock_time, .none)

/-- A sequence of events and what each returned; a failed call leaves the
server as it was. -/
def WalletNode.run (node : WalletNode W) : List (WalletEvent W) → WalletNode W × List (Except String KeyUse)
  | [] => (node, [])
  | ev :: evs =>
    match node.step isVericoin ev with
    | .ok (node', use) =>
      let (node'', results) := node'.run evs
      (node'', .ok use :: results)
    | .error msg =>
      let (node'', results) := node.run evs
      (node'', .error msg :: results)

end Handlers

/-! ## What each step does to the flag and the locks -/

section Steps

variable {W : Type} [DecidableEq W] {isVericoin : Bool}

/-- What a successful `walletpassphrase` leaves: the flag is `mintonly`, the
wallet is unlocked, and no other wallet changes. -/
theorem walletpassphrase_eq_ok {node node' : WalletNode W} {id : W} {passphrase : String}
    {timeout : Int} {mintonly : Option Bool}
    (h : walletpassphrase node id passphrase timeout mintonly = .ok node') :
    node'.fWalletUnlockStakingOnly = mintonly.getD false ∧ (node'.wallets id).isLocked = false ∧
      (node'.wallets id).balance = (node.wallets id).balance ∧
      ∀ id', id' ≠ id → node'.wallets id' = node.wallets id' := by
  unfold walletpassphrase at h
  dsimp only at h
  -- every check passed; what is left is the update
  split at h
  · cases h
  split at h
  · cases h
  split at h
  · cases h
  split at h
  · cases h
  cases h
  refine ⟨rfl, by simp [CWallet.isLocked], by simp, fun id' hne => ?_⟩
  exact Function.update_of_ne hne _ _

/-- The `walletpassphrase` RPC succeeds exactly as its handler does. -/
theorem rpc_walletpassphrase_eq_ok {node node' : WalletNode W} {id : W} {passphrase : String}
    {timeout : Int} {mintonly : Option Bool} {use : KeyUse}
    (h : node.rpc isVericoin id (.walletpassphrase passphrase timeout mintonly) = .ok (node', use)) :
    walletpassphrase node id passphrase timeout mintonly = .ok node' := by
  simp only [WalletNode.rpc, bind, Except.bind] at h
  split at h
  · cases h
  · next node₁ hpass =>
    cases h
    exact hpass

end Steps

/-! ## Where the promise fails -/

section Gaps

variable {W : Type} [DecidableEq W] {isVericoin : Bool}

/-- A staking-only unlock still lets `walletprocesspsbt` sign: right after a
successful `walletpassphrase` with `mintonly = true` the flag is set, and the
PSBT call on the same wallet signs with its keys, on every chain. -/
theorem walletprocesspsbt_signs_after_mintonly {node node' : WalletNode W} {id : W}
    {passphrase : String} {timeout : Int} {use : KeyUse}
    (h : node.rpc isVericoin id (.walletpassphrase passphrase timeout (some true)) = .ok (node', use)) :
    node'.fWalletUnlockStakingOnly = true ∧
      node'.rpc isVericoin id (.walletprocesspsbt (some true)) = .ok (node', .signs) := by
  obtain ⟨hflag, hunlocked, -, -⟩ := walletpassphrase_eq_ok (rpc_walletpassphrase_eq_ok h)
  exact ⟨hflag, by simp [WalletNode.rpc, walletprocesspsbt, hunlocked, pure, Except.pure]⟩

/-- An encrypted wallet, locked, whose passphrase is `pw`. -/
def lockedWallet : CWallet := ⟨true, "pw", false, 0, 100⟩

theorem walletprocesspsbt_signs_after_mintonly_pw :
    ∃ node', (⟨fun _ => lockedWallet, false, 0⟩ : WalletNode Unit).rpc true ()
        (.walletpassphrase "pw" 60 (some true)) = .ok (node', .none) ∧
      node'.fWalletUnlockStakingOnly = true ∧
        node'.rpc true () (.walletprocesspsbt (some true)) = .ok (node', .signs) := by
  obtain ⟨node', h⟩ : ∃ node', (⟨fun _ => lockedWallet, false, 0⟩ : WalletNode Unit).rpc true ()
      (.walletpassphrase "pw" 60 (some true)) = .ok (node', .none) := ⟨_, rfl⟩
  exact ⟨node', h, walletprocesspsbt_signs_after_mintonly h⟩

end Gaps

end Veribase
