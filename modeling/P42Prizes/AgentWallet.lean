import P42Prizes.Evm
import P42Prizes.Systems

/-! # The agent wallet

`P42AgentWallet` forwards calls for a session key, and for the account of the forced inclusion path,
within caps on the ETH sent and within the policies of its owner.  The target of a forwarded call runs in
the middle of `execute`, `executeForcedPolicy` or `withdraw` and may call the wallet again: such a call is
a `Frame` that is pushed when it begins and popped by `finish` when it returns.  A call that fails reverts
as a whole and leaves no trace, so it is not part of a run; the wallet may be called by any account, itself
included. -/

namespace P42Prizes.Wallet

open Reverting Function Transition

/-! ### Values -/

abbrev Bytes4 := BitVec 32

/-- The custom errors and `require` messages, with their arguments. -/
inductive WalletError where
  | notOwner
  | notForcedInclusionOwner
  | forcedInclusionOwnerAlreadySet
  | notSession
  | keyRevoked
  | sessionExpired (expiresAt nowAt : ℕ)
  | wrongChain (expected actual : ℕ)
  | callNotAllowed (target : Address) (selector : Bytes4)
  | exactCalldataPolicyRequired (target : Address) (selector : Bytes4)
  | callPolicyExpired (expiresAt nowAt : ℕ)
  | callPolicyExhausted (maxCalls : ℕ)
  | calldataHashMismatch (expected actual : Bytes32)
  | badSessionPolicy
  | badCallPolicy
  | valueCapExceeded (value cap : ℕ)
  | spendCapExceeded (wouldSpend cap : ℕ)
  | forcedExecutionValueMismatch (expected received : ℕ)
  | callFailed
  | reentrancy
  | ownerZero
  | sessionZero
  | targetZero
  | withdrawZero
  | panic
deriving DecidableEq, Repr

abbrev Outcome (α : Type) := Except WalletError α

structure CallPolicy where
  configured : Bool := false
  expiresAt : ℕ := 0
  maxCalls : ℕ := 0
  calls : ℕ := 0
  chainId : ℕ := 0
  calldataHash : Bytes32 := 0
  scopeHash : Bytes32 := 0
deriving DecidableEq, Repr

/-- The arguments of `setCallPolicy` and `setForcedCallPolicy`. -/
structure PolicyArguments where
  target : Address
  selector : Bytes4
  ok : Bool
  chainId : ℕ
  expiresAt : ℕ
  maxCalls : ℕ
  calldataHash : Bytes32
  scopeHash : Bytes32
deriving DecidableEq, Repr

/-- The policy that `_setCallPolicy` stores. -/
def PolicyArguments.policy (a : PolicyArguments) : CallPolicy :=
  { configured := true
    expiresAt := a.expiresAt
    maxCalls := a.maxCalls
    calls := 0
    chainId := a.chainId
    calldataHash := a.calldataHash
    scopeHash := a.scopeHash }

inductive Event where
  | sessionKeySet (sessionKey : Address)
  | forcedInclusionOwnerSet (forcedInclusionOwner : Address)
  | sessionPolicySet (sessionKey : Address) (chainId expiresAt : ℕ)
  | sessionRevoked
  | allowedSet (target : Address) (selector : Bytes4) (ok : Bool)
  | callPolicySet (arguments : PolicyArguments)
  | capsSet (perCallValueCapWei totalSpendCapWei : ℕ)
  | executed (target : Address) (value : ℕ) (selector : Bytes4) (calldataHash : Bytes32)
  | forcedPolicyExecuted (target : Address) (value : ℕ) (selector : Bytes4) (calldataHash : Bytes32)
  | funded (from_ : Address) (amount : ℕ)
  | withdrawn (to_ : Address) (amount : ℕ)
deriving DecidableEq, Repr

/-- The functions of the contract. -/
inductive WalletCall where
  | receive
  | setSessionKey (key : Address)
  | setForcedInclusionOwner (account : Address)
  | setSessionPolicy (key : Address) (chainId expiresAt : ℕ)
  | revoke
  | setCaps (perCall total : ℕ)
  | setAllowed (target : Address) (selector : Bytes4) (ok : Bool)
  | setCallPolicy (arguments : PolicyArguments)
  | setForcedCallPolicy (arguments : PolicyArguments)
  | withdraw (to_ : Address) (amount : ℕ)
  | execute (target : Address) (value : ℕ) (data : Bytes)
  | executeForcedPolicy (target : Address) (value : ℕ) (data : Bytes)
deriving DecidableEq, Repr

/-- The storage of `P42AgentWallet`, and its events, newest first. -/
structure P42AgentWallet where
  owner : Address
  forcedInclusionOwner : Address := 0
  sessionKey : Address
  sessionChainId : ℕ
  sessionExpiresAt : ℕ
  revoked : Bool := false
  perCallValueCapWei : ℕ
  totalSpendCapWei : ℕ
  spentWei : ℕ := 0
  allowlistedPolicyCount : ℕ := 0
  policyMutationEpoch : ℕ := 0
  entered : Bool := false
  allowed : Address × Bytes4 → Bool := fun _ => false
  callPolicies : Address × Bytes4 → CallPolicy := fun _ => {}
  logs : List Event := []

/-- The caller, the value of the call, the block and `block.chainid`. -/
structure Env where
  sender : Address
  value : ℕ
  block : Block
  chainid : ℕ

abbrev Env.now (e : Env) : ℕ := e.block.timestamp

/-- A call the wallet is making to another address. -/
inductive Frame where
  | execution (target : Address) (value : ℕ) (data : Bytes) (forced : Bool)
  | withdrawal (to_ : Address) (amount : ℕ)
deriving DecidableEq, Repr

def maxSessionLifetime : ℕ := 30 * 86400

/-- `data.length >= 4 ? bytes4(data[:4]) : bytes4(0)` -/
def selectorOf (data : Bytes) : Bytes4 :=
  if 4 ≤ data.length then BitVec.ofNat 32 ((data.take 4).foldl (fun acc b => acc * 256 + b.toNat) 0)
  else 0

namespace P42AgentWallet

variable (c : Crypto) (e : Env)

def emit (event : Event) (w : P42AgentWallet) : P42AgentWallet := { w with logs := event :: w.logs }

def onlyOwner (w : P42AgentWallet) : Outcome Unit := revertIf (e.sender ≠ w.owner) .notOwner

def onlyForcedInclusionOwner (w : P42AgentWallet) : Outcome Unit :=
  revertIf (e.sender ≠ w.forcedInclusionOwner) .notForcedInclusionOwner

/-- `nonReentrant`, up to the body. -/
def nonReentrant (w : P42AgentWallet) : Outcome P42AgentWallet := do
  revertIf (w.entered = true) .reentrancy
  pure { w with entered := true }

/-! ### Deployment -/

def construct (owner sessionKey : Address) (perCallValueCapWei totalSpendCapWei : ℕ) :
    Outcome P42AgentWallet := do
  require (owner ≠ 0) .ownerZero
  require (sessionKey ≠ 0) .sessionZero
  let sessionExpiresAt ← checkedAdd 64 .panic e.now maxSessionLifetime
  let w : P42AgentWallet :=
    { owner := owner
      sessionKey := sessionKey
      sessionChainId := e.chainid
      sessionExpiresAt := sessionExpiresAt
      perCallValueCapWei := perCallValueCapWei
      totalSpendCapWei := totalSpendCapWei }
  let w := w.emit (.sessionKeySet sessionKey)
  let w := w.emit (.sessionPolicySet sessionKey e.chainid sessionExpiresAt)
  let w := w.emit (.capsSet perCallValueCapWei totalSpendCapWei)
  pure (if e.value > 0 then w.emit (.funded e.sender e.value) else w)

def receive (w : P42AgentWallet) : P42AgentWallet := w.emit (.funded e.sender e.value)

/-! ### Session -/

/-- `_setSessionPolicy` -/
def resetSession (key : Address) (chainId expiresAt : ℕ) (w : P42AgentWallet) :
    Outcome P42AgentWallet := do
  let maxExpiresAt ← checkedAdd 256 .panic e.now maxSessionLifetime
  revertIf (key = 0 ∨ chainId ≠ e.chainid ∨ expiresAt ≤ e.now ∨ expiresAt > maxExpiresAt)
    .badSessionPolicy
  let w := { w with
    sessionKey := key
    sessionChainId := chainId
    sessionExpiresAt := expiresAt
    revoked := false
    spentWei := 0 }
  pure ((w.emit (.sessionKeySet key)).emit (.sessionPolicySet key chainId expiresAt))

def setSessionKey (key : Address) (w : P42AgentWallet) : Outcome P42AgentWallet := do
  w.onlyOwner e
  let expiresAt ← checkedAdd 64 .panic e.now maxSessionLifetime
  w.resetSession e key e.chainid expiresAt

def setForcedInclusionOwner (account : Address) (w : P42AgentWallet) : Outcome P42AgentWallet := do
  w.onlyOwner e
  revertIf (w.forcedInclusionOwner ≠ 0) .forcedInclusionOwnerAlreadySet
  revertIf (account = 0) .notForcedInclusionOwner
  let w := { w with forcedInclusionOwner := account }
  pure (w.emit (.forcedInclusionOwnerSet account))

def setSessionPolicy (key : Address) (chainId expiresAt : ℕ) (w : P42AgentWallet) :
    Outcome P42AgentWallet := do
  w.onlyOwner e
  w.resetSession e key chainId expiresAt

def revoke (w : P42AgentWallet) : Outcome P42AgentWallet := do
  w.onlyOwner e
  let w := { w with revoked := true }
  pure (w.emit .sessionRevoked)

def setCaps (perCall total : ℕ) (w : P42AgentWallet) : Outcome P42AgentWallet := do
  w.onlyOwner e
  let w := { w with perCallValueCapWei := perCall, totalSpendCapWei := total }
  pure (w.emit (.capsSet perCall total))

/-! ### Policies -/

/-- `_setAllowedState` -/
def setAllowedState (key : Address × Bytes4) (ok : Bool) (w : P42AgentWallet) :
    Outcome P42AgentWallet := do
  if w.allowed key = ok then pure w
  else
    let count ← if ok then checkedAdd 256 .panic w.allowlistedPolicyCount 1
      else checkedSub .panic w.allowlistedPolicyCount 1
    pure { w with allowed := update w.allowed key ok, allowlistedPolicyCount := count }

/-- `callPolicies[target][selector] = policy; policyMutationEpoch += 1` -/
def storePolicy (key : Address × Bytes4) (policy : CallPolicy) (w : P42AgentWallet) :
    Outcome P42AgentWallet := do
  let policyMutationEpoch ← checkedAdd 256 .panic w.policyMutationEpoch 1
  pure { w with
    callPolicies := update w.callPolicies key policy
    policyMutationEpoch := policyMutationEpoch }

def setAllowed (target : Address) (selector : Bytes4) (ok : Bool) (w : P42AgentWallet) :
    Outcome P42AgentWallet := do
  w.onlyOwner e
  require (target ≠ 0) .targetZero
  let w ← w.setAllowedState (target, selector) ok
  let w ← w.storePolicy (target, selector) {}
  pure (w.emit (.allowedSet target selector ok))

/-- The events of `_setCallPolicy`. -/
def emitPolicy (a : PolicyArguments) (w : P42AgentWallet) : P42AgentWallet :=
  (w.emit (.allowedSet a.target a.selector a.ok)).emit (.callPolicySet a)

/-- `_setCallPolicy` -/
def writePolicy (a : PolicyArguments) (w : P42AgentWallet) : Outcome P42AgentWallet := do
  revertIf (a.target = 0 ∨ a.selector = 0) .badCallPolicy
  if a.ok = false then
    let w ← w.setAllowedState (a.target, a.selector) false
    let w ← w.storePolicy (a.target, a.selector) {}
    pure (w.emitPolicy a)
  else
    revertIf (a.chainId ≠ e.chainid ∨ a.expiresAt ≤ e.now ∨ a.maxCalls = 0 ∨ a.calldataHash = 0 ∨
      a.scopeHash = 0) .badCallPolicy
    let w ← w.setAllowedState (a.target, a.selector) true
    let w ← w.storePolicy (a.target, a.selector) a.policy
    pure (w.emitPolicy a)

def setCallPolicy (a : PolicyArguments) (w : P42AgentWallet) : Outcome P42AgentWallet := do
  w.onlyOwner e
  w.writePolicy e a

def setForcedCallPolicy (a : PolicyArguments) (w : P42AgentWallet) : Outcome P42AgentWallet := do
  w.onlyForcedInclusionOwner e
  w.writePolicy e a

/-! ### Calls to other addresses -/

/-- `withdraw` up to its call. -/
def beginWithdraw (to_ : Address) (amount : ℕ) (w : P42AgentWallet) :
    Outcome (P42AgentWallet × Frame) := do
  w.onlyOwner e
  let w ← w.nonReentrant
  require (to_ ≠ 0) .withdrawZero
  pure (w, .withdrawal to_ amount)

/-- A call without a configured policy: a nonzero bare selector, or no calldata at all. -/
def needsExactPolicy (data : Bytes) (requireExactPolicy : Bool) : Prop :=
  requireExactPolicy = true ∨ if selectorOf data = 0 then data.length ≠ 0 else data.length ≠ 4

instance (data : Bytes) (requireExactPolicy : Bool) :
    Decidable (needsExactPolicy data requireExactPolicy) :=
  inferInstanceAs (Decidable (_ ∨ _))

/-- The use of a call policy, counted. -/
def usePolicy (target : Address) (data : Bytes) (requireExactPolicy : Bool) (w : P42AgentWallet) :
    Outcome P42AgentWallet := do
  let key := (target, selectorOf data)
  let dataHash := c.keccak256 data
  let policy := w.callPolicies key
  if policy.configured = true then
    revertIf (policy.chainId ≠ e.chainid) (.wrongChain policy.chainId e.chainid)
    revertIf (e.now > policy.expiresAt) (.callPolicyExpired policy.expiresAt e.now)
    revertIf (policy.calls ≥ policy.maxCalls) (.callPolicyExhausted policy.maxCalls)
    revertIf (dataHash ≠ policy.calldataHash) (.calldataHashMismatch policy.calldataHash dataHash)
    let calls ← checkedAdd 32 .panic policy.calls 1
    pure { w with callPolicies := update w.callPolicies key { policy with calls := calls } }
  else
    revertIf (needsExactPolicy data requireExactPolicy) (.exactCalldataPolicyRequired target key.2)
    pure w

/-- `_executePolicy` up to its call. -/
def beginPolicy (target : Address) (value : ℕ) (data : Bytes) (requireExactPolicy : Bool)
    (w : P42AgentWallet) : Outcome (P42AgentWallet × Frame) := do
  let selector := selectorOf data
  revertIf (w.allowed (target, selector) = false) (.callNotAllowed target selector)
  let w ← w.usePolicy c e target data requireExactPolicy
  revertIf (value > w.perCallValueCapWei) (.valueCapExceeded value w.perCallValueCapWei)
  let wouldSpend ← checkedAdd 256 .panic w.spentWei value
  revertIf (wouldSpend > w.totalSpendCapWei) (.spendCapExceeded wouldSpend w.totalSpendCapWei)
  pure ({ w with spentWei := wouldSpend }, .execution target value data requireExactPolicy)

def beginExecute (target : Address) (value : ℕ) (data : Bytes) (w : P42AgentWallet) :
    Outcome (P42AgentWallet × Frame) := do
  let w ← w.nonReentrant
  revertIf (e.sender ≠ w.sessionKey) .notSession
  revertIf (w.revoked = true) .keyRevoked
  revertIf (e.chainid ≠ w.sessionChainId) (.wrongChain w.sessionChainId e.chainid)
  revertIf (e.now > w.sessionExpiresAt) (.sessionExpired w.sessionExpiresAt e.now)
  w.beginPolicy c e target value data false

def beginExecuteForcedPolicy (target : Address) (value : ℕ) (data : Bytes) (w : P42AgentWallet) :
    Outcome (P42AgentWallet × Frame) := do
  w.onlyForcedInclusionOwner e
  let w ← w.nonReentrant
  revertIf (e.value ≠ value) (.forcedExecutionValueMismatch value e.value)
  w.beginPolicy c e target value data true

/-- The events of the function whose call to another address has returned. -/
def emitReturn (w : P42AgentWallet) : Frame → P42AgentWallet
  | .execution target value data forced =>
      let w := w.emit (.executed target value (selectorOf data) (c.keccak256 data))
      if forced then w.emit (.forcedPolicyExecuted target value (selectorOf data) (c.keccak256 data)) else w
  | .withdrawal to_ amount => w.emit (.withdrawn to_ amount)

end P42AgentWallet

/-! ### Runs -/

/-- The functions that accept ETH. -/
def WalletCall.payable : WalletCall → Bool
  | .receive => true
  | .executeForcedPolicy .. => true
  | _ => false

/-- A call of a function: the storage after it, and the call to another address it is making. -/
def WalletCall.run (c : Crypto) (e : Env) (w : P42AgentWallet) :
    WalletCall → Outcome (P42AgentWallet × Option Frame)
  | .receive => pure (w.receive e, none)
  | .setSessionKey key => (·, none) <$> w.setSessionKey e key
  | .setForcedInclusionOwner account => (·, none) <$> w.setForcedInclusionOwner e account
  | .setSessionPolicy key chainId expiresAt => (·, none) <$> w.setSessionPolicy e key chainId expiresAt
  | .revoke => (·, none) <$> w.revoke e
  | .setCaps perCall total => (·, none) <$> w.setCaps e perCall total
  | .setAllowed target selector ok => (·, none) <$> w.setAllowed e target selector ok
  | .setCallPolicy a => (·, none) <$> w.setCallPolicy e a
  | .setForcedCallPolicy a => (·, none) <$> w.setForcedCallPolicy e a
  | .withdraw to_ amount => (fun r => (r.1, some r.2)) <$> w.beginWithdraw e to_ amount
  | .execute target value data => (fun r => (r.1, some r.2)) <$> w.beginExecute c e target value data
  | .executeForcedPolicy target value data =>
      (fun r => (r.1, some r.2)) <$> w.beginExecuteForcedPolicy c e target value data

/-- The wallet, the calls it is in the middle of, innermost first, and the current block. -/
structure World where
  wallet : P42AgentWallet
  frames : List Frame
  block : Block
  chainid : ℕ

inductive Action where
  | advance (block : Block) (chainid : ℕ)
  | call (sender : Address) (value : ℕ) (f : WalletCall)
  | finish

namespace World

/-- The next transaction is in a block that is not older. -/
def advance (block : Block) (chainid : ℕ) (w : World) : Option World :=
  if w.frames = [] ∧ w.block.timestamp ≤ block.timestamp then
    some { w with block := block, chainid := chainid }
  else none

def call (c : Crypto) (sender : Address) (value : ℕ) (f : WalletCall) (w : World) : Option World :=
  if value = 0 ∨ f.payable = true then
    match f.run c ⟨sender, value, w.block, w.chainid⟩ w.wallet with
    | .ok (wallet, frame) => some { w with wallet := wallet, frames := frame.toList ++ w.frames }
    | .error _ => none
  else none

/-- The call of the innermost frame returns. -/
def finish (c : Crypto) (w : World) : Option World :=
  match w.frames with
  | frame :: frames =>
      some { w with wallet := { w.wallet.emitReturn c frame with entered := false }, frames := frames }
  | [] => none

def step (c : Crypto) (w : World) : Action → Option World
  | .advance block chainid => w.advance block chainid
  | .call sender value f => w.call c sender value f
  | .finish => w.finish c

end World

/-- The wallet from its deployment on. -/
def wallet (c : Crypto) : System World Action where
  init w := ∃ e owner sessionKey perCallValueCapWei totalSpendCapWei,
    P42AgentWallet.construct e owner sessionKey perCallValueCapWei totalSpendCapWei = .ok w.wallet ∧
      w.frames = []
  step := World.step c

end P42Prizes.Wallet
