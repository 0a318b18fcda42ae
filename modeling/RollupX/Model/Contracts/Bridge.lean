import RollupX.Library.Bytes
import RollupX.Library.CallFrames

/-! The bridge contract (`contracts/contracts/bridge/ZKRollupBridge.sol`), with the parts of
`Ownable2Step`, `ReentrancyGuard` and `MerkleProof` it is built on. -/

namespace RollupX.Contracts

abbrev Bytes32 := BitVec 256

abbrev Uint256 := BitVec 256

abbrev EthAddress := BitVec 160

/-- Why a call is reverted. -/
inductive Revert where
  | zeroDepositAmount
  | transferFailed
  | alreadyWithdrawn
  | invalidMerkleProof
  | notSequencer
  | invalidNewRoot
  | daProviderNotEnabled
  | daProviderAlreadySet
  | bridgeFrozen
  | invalidProof
  | unknownVerifier (verifierId : UInt8)
  | ownableUnauthorizedAccount (account : EthAddress)
  | reentrancyGuardReentrantCall
  | message (text : String)
  | arithmeticOverflow
  | nonPayable
  | externalCall
  | empty
  deriving DecidableEq, Repr

structure CommittedBatch where
  batchId : Uint256
  daId : UInt8
  verifierId : UInt8
  daCommitment : Bytes32
  oldRoot : Bytes32
  newRoot : Bytes32
  deriving DecidableEq, Repr

inductive BridgeEvent where
  | deposit (sender receiver : EthAddress) (amount : Uint256)
  | depositERC20 (token sender receiver : EthAddress) (amount : Uint256)
  | withdrawal (receiver : EthAddress) (amount : Uint256) (withdrawalId : Bytes32)
  | sequencerUpdated (newSequencer : EthAddress)
  | bridgeFrozen (reason : String)
  | bridgeUnfrozen
  | daProviderSet (daId : UInt8) (provider : EthAddress) (enabled : Bool)
  | verifierSet (verifierId : UInt8) (verifierAddress : EthAddress)
  | batchCommitted (batch : CommittedBatch)
  | batchSoftCommitted (batchId : Uint256) (stateRoot : Bytes32) (timestamp : Uint256)
  | batchDataPointer (batchId : Uint256) (daMeta : List UInt8)
  | forcedTransactionEnqueued (txHash : Bytes32) (deadlineBlock : Uint256)
  | optimisticRootFinalized (root : Bytes32)
  | ownershipTransferStarted (previousOwner newOwner : EthAddress)
  | ownershipTransferred (previousOwner newOwner : EthAddress)
  deriving DecidableEq, Repr

/-- The storage of the contract, its balance, and the events it has emitted. -/
structure Bridge where
  owner : EthAddress
  pendingOwner : EthAddress
  entered : Bool
  balance : ℕ
  latestStateRoot : Bytes32
  verifiers : UInt8 → EthAddress
  sequencer : EthAddress
  nextBatchId : Uint256
  batchCommitment : Uint256 → Bytes32
  batchNewRoot : Uint256 → Bytes32
  daProviders : UInt8 → EthAddress
  daEnabled : UInt8 → Bool
  nullifiers : Bytes32 → Bool
  forcedInclusionDelay : Uint256
  forcedTxTimestamps : Bytes32 → Uint256
  forcedTxQueue : List Bytes32
  forcedHead : ℕ
  isFrozen : Bool
  optimisticMode : Bool
  challengePeriod : Uint256
  pendingStateRoot : Bytes32
  pendingTimestamp : Uint256
  events : List BridgeEvent

def Bridge.deploy (sender verifier : EthAddress) (genesisRoot : Bytes32)
    (forcedInclusionDelay : Uint256) : Bridge where
  owner := sender
  pendingOwner := 0
  entered := false
  balance := 0
  latestStateRoot := genesisRoot
  verifiers := Function.update (fun _ => 0) 0 verifier
  sequencer := 0
  nextBatchId := 1
  batchCommitment _ := 0
  batchNewRoot _ := 0
  daProviders _ := 0
  daEnabled _ := false
  nullifiers _ := false
  forcedInclusionDelay := forcedInclusionDelay
  forcedTxTimestamps _ := 0
  forcedTxQueue := []
  forcedHead := 0
  isFrozen := false
  optimisticMode := false
  challengePeriod := 604800
  pendingStateRoot := 0
  pendingTimestamp := 0
  events := [.ownershipTransferred 0 sender]

structure Block where
  number : Uint256
  timestamp : Uint256
  deriving DecidableEq, Repr

structure Msg where
  sender : EthAddress
  value : ℕ
  deriving DecidableEq, Repr

/-- The points of a Groth16 proof as the verifier takes them. -/
structure ProofPoints where
  a : Uint256 × Uint256
  b : (Uint256 × Uint256) × (Uint256 × Uint256)
  c : Uint256 × Uint256
  deriving DecidableEq, Repr

/-- What the data availability provider and the verifier answer during one call. Their
functions are `view`, so they change nothing; `none` and `false` of `validateDA` stand for a
revert. -/
structure External where
  computeCommitment : EthAddress → List UInt8 → List UInt8 → Option Bytes32
  validateDA : EthAddress → Bytes32 → List UInt8 → Bool
  mode : EthAddress → Option UInt8
  verifyProof : EthAddress → ProofPoints → List Uint256 → Option Bool

namespace Bridge

def emit (σ : Bridge) (event : BridgeEvent) : Bridge :=
  { σ with events := σ.events ++ [event] }

def checkedAdd (x y : Uint256) : Except Revert Uint256 :=
  if x.toNat + y.toNat < 2 ^ 256 then .ok (x + y) else .error .arithmeticOverflow

def require (condition : Bool) (revert : Revert) : Except Revert Unit :=
  if condition then .ok () else .error revert

def nonPayable (msg : Msg) : Except Revert Unit :=
  require (msg.value == 0) .nonPayable

def onlyOwner (σ : Bridge) (msg : Msg) : Except Revert Unit := do
  nonPayable msg
  require (σ.owner == msg.sender) (.ownableUnauthorizedAccount msg.sender)

/-! ## Bridging -/

def deposit (σ : Bridge) (msg : Msg) (receiver : EthAddress) : Except Revert Bridge := do
  require (msg.value != 0) .zeroDepositAmount
  pure ({ σ with balance := σ.balance + msg.value }.emit
    (.deposit msg.sender receiver (BitVec.ofNat 256 msg.value)))

/-- `depositERC20` up to the call of the token. -/
def depositERC20 (_ : Bridge) (msg : Msg) (amount : Uint256) : Except Revert Unit := do
  nonPayable msg
  require (amount != 0) .zeroDepositAmount

def hashPair (keccak256 : List UInt8 → Bytes32) (x y : Bytes32) : Bytes32 :=
  if x < y then keccak256 (Bytes.be 32 x.toNat ++ Bytes.be 32 y.toNat)
  else keccak256 (Bytes.be 32 y.toNat ++ Bytes.be 32 x.toNat)

def merkleVerify (keccak256 : List UInt8 → Bytes32) (proof : List Bytes32)
    (root leaf : Bytes32) : Bool :=
  proof.foldl (hashPair keccak256) leaf == root

/-- `withdraw` up to and with the sending of the amount. -/
def withdraw (keccak256 : List UInt8 → Bytes32) (σ : Bridge) (msg : Msg)
    (merkleProof : List Bytes32) (receiver : EthAddress) (amount : Uint256)
    (withdrawalId : Bytes32) : Except Revert Bridge := do
  nonPayable msg
  require (!σ.entered) .reentrancyGuardReentrantCall
  require (!σ.nullifiers withdrawalId) .alreadyWithdrawn
  let leaf := keccak256 (Bytes.be 20 receiver.toNat ++ Bytes.be 32 amount.toNat ++
    Bytes.be 32 withdrawalId.toNat)
  require (merkleVerify keccak256 merkleProof σ.latestStateRoot leaf) .invalidMerkleProof
  require (amount.toNat ≤ σ.balance) .transferFailed
  pure { σ with
    entered := true
    nullifiers := Function.update σ.nullifiers withdrawalId true
    balance := σ.balance - amount.toNat }

/-! ## Administration -/

def setOptimisticMode (σ : Bridge) (msg : Msg) (mode : Bool) : Except Revert Bridge := do
  σ.onlyOwner msg
  pure { σ with optimisticMode := mode }

def setChallengePeriod (σ : Bridge) (msg : Msg) (period : Uint256) : Except Revert Bridge := do
  σ.onlyOwner msg
  pure { σ with challengePeriod := period }

def setSequencer (σ : Bridge) (msg : Msg) (newSequencer : EthAddress) :
    Except Revert Bridge := do
  σ.onlyOwner msg
  pure ({ σ with sequencer := newSequencer }.emit (.sequencerUpdated newSequencer))

def setDAProvider (σ : Bridge) (msg : Msg) (daId : UInt8) (provider : EthAddress)
    (enabled : Bool) : Except Revert Bridge := do
  σ.onlyOwner msg
  require (!(σ.daProviders daId != 0 && σ.daEnabled daId && σ.daProviders daId != provider))
    .daProviderAlreadySet
  pure ({ σ with
      daProviders := Function.update σ.daProviders daId provider
      daEnabled := Function.update σ.daEnabled daId enabled }.emit
    (.daProviderSet daId provider enabled))

def setVerifier (σ : Bridge) (msg : Msg) (verifierId : UInt8) (verifierAddress : EthAddress) :
    Except Revert Bridge := do
  σ.onlyOwner msg
  pure ({ σ with verifiers := Function.update σ.verifiers verifierId verifierAddress }.emit
    (.verifierSet verifierId verifierAddress))

def transferOwnership (σ : Bridge) (msg : Msg) (newOwner : EthAddress) :
    Except Revert Bridge := do
  σ.onlyOwner msg
  pure ({ σ with pendingOwner := newOwner }.emit (.ownershipTransferStarted σ.owner newOwner))

def changeOwner (σ : Bridge) (newOwner : EthAddress) : Bridge :=
  { σ with pendingOwner := 0, owner := newOwner }.emit (.ownershipTransferred σ.owner newOwner)

def acceptOwnership (σ : Bridge) (msg : Msg) : Except Revert Bridge := do
  nonPayable msg
  require (σ.pendingOwner == msg.sender) (.ownableUnauthorizedAccount msg.sender)
  pure (σ.changeOwner msg.sender)

def renounceOwnership (σ : Bridge) (msg : Msg) : Except Revert Bridge := do
  σ.onlyOwner msg
  pure (σ.changeOwner 0)

/-! ## Censorship resistance -/

def unfreeze (σ : Bridge) (msg : Msg) : Except Revert Bridge := do
  σ.onlyOwner msg
  require σ.isFrozen .empty
  pure ({ σ with isFrozen := false }.emit .bridgeUnfrozen)

/-- The oldest forced transaction has passed its deadline. -/
def deadlineMissed (σ : Bridge) (block : Block) : Bool :=
  match σ.forcedTxQueue[σ.forcedHead]? with
  | none => false
  | some oldestTxHash => σ.forcedTxTimestamps oldestTxHash < block.number

def freeze (σ : Bridge) (block : Block) (msg : Msg) : Except Revert Bridge := do
  nonPayable msg
  require (σ.deadlineMissed block) (.message "No censorship detected")
  pure ({ σ with isFrozen := true }.emit (.bridgeFrozen "Censorship proven via freeze()"))

def forceTransaction (σ : Bridge) (block : Block) (msg : Msg) (txHash : Bytes32) :
    Except Revert Bridge := do
  nonPayable msg
  require (!σ.isFrozen) .bridgeFrozen
  let deadline ← checkedAdd block.number σ.forcedInclusionDelay
  pure ({ σ with
      forcedTxTimestamps := Function.update σ.forcedTxTimestamps txHash deadline
      forcedTxQueue := σ.forcedTxQueue ++ [txHash] }.emit
    (.forcedTransactionEnqueued txHash deadline))

/-! ## Committing batches -/

def requireSequencer (σ : Bridge) (msg : Msg) : Except Revert Unit := do
  require (!σ.isFrozen) .bridgeFrozen
  require (!(σ.sequencer != 0 && msg.sender != σ.sequencer)) .notSequencer

/-- The arguments of `commitBatch`. -/
structure CommitArgs where
  daId : UInt8
  verifierId : UInt8
  batchData : List UInt8
  daMeta : List UInt8
  newRoot : Bytes32
  proof : List UInt8
  deriving DecidableEq, Repr

/-- The `i`-th word of 32 bytes. -/
def proofWord (proof : List UInt8) (i : ℕ) : Uint256 :=
  BitVec.ofNat 256 (Bytes.ofBe ((proof.drop (32 * i)).take 32))

/-- The proof's points. The two halves of each coordinate of `b` are swapped. -/
def decodeProof (verifierId : UInt8) (proof : List UInt8) : Except Revert ProofPoints :=
  if verifierId = 0 then
    if proof.length = 256 then
      .ok
        { a := (proofWord proof 0, proofWord proof 1)
          b := ((proofWord proof 3, proofWord proof 2), (proofWord proof 5, proofWord proof 4))
          c := (proofWord proof 6, proofWord proof 7) }
    else .error (.message "Invalid proof length")
  else .ok ⟨(0, 0), ((0, 0), (0, 0)), (0, 0)⟩

def publicInputs (oldRoot newRoot daCommitment : Bytes32) : List Uint256 :=
  [oldRoot, newRoot, daCommitment &&& BitVec.ofNat 256 (2 ^ 128 - 1), daCommitment >>> 128]

def ofOption {α : Type} (result : Option α) : Except Revert α :=
  match result with
  | none => .error .externalCall
  | some x => .ok x

/-- What both modes do with a batch: it gets the next id, is recorded and announced. -/
def recordBatch (σ : Bridge) (daMode verifierId : UInt8) (daMeta : List UInt8)
    (daCommitment oldRoot newRoot : Bytes32) : Except Revert Bridge := do
  let batchId := σ.nextBatchId
  let nextBatchId ← checkedAdd batchId 1
  pure (({ σ with
        nextBatchId := nextBatchId
        batchCommitment := Function.update σ.batchCommitment batchId daCommitment
        batchNewRoot := Function.update σ.batchNewRoot batchId newRoot }.emit
      (.batchDataPointer batchId daMeta)).emit
    (.batchCommitted ⟨batchId, daMode, verifierId, daCommitment, oldRoot, newRoot⟩))

def finalizeBatch (σ : Bridge) (oldRoot newRoot daCommitment : Bytes32)
    (daMode verifierId : UInt8) (daMeta : List UInt8) : Except Revert Bridge := do
  require (newRoot != 0) .invalidNewRoot
  { σ with latestStateRoot := newRoot }.recordBatch daMode verifierId daMeta daCommitment
    oldRoot newRoot

def commitBatch (σ : Bridge) (block : Block) (msg : Msg) (ext : External)
    (args : CommitArgs) : Except Revert Bridge := do
  nonPayable msg
  σ.requireSequencer msg
  require (!σ.deadlineMissed block) .bridgeFrozen
  let provider := σ.daProviders args.daId
  require (!(provider == 0 || !σ.daEnabled args.daId)) .daProviderNotEnabled
  let daCommitment ← ofOption (ext.computeCommitment provider args.batchData args.daMeta)
  require (ext.validateDA provider daCommitment args.daMeta) .externalCall
  let oldRoot := σ.latestStateRoot
  let verifier := σ.verifiers args.verifierId
  require (verifier != 0) (.unknownVerifier args.verifierId)
  let points ← decodeProof args.verifierId args.proof
  if !σ.optimisticMode then
    let valid ← ofOption (ext.verifyProof verifier points
      (publicInputs oldRoot args.newRoot daCommitment))
    require valid .invalidProof
    let σ := σ.emit (.batchSoftCommitted σ.nextBatchId args.newRoot block.timestamp)
    let daMode ← ofOption (ext.mode provider)
    σ.finalizeBatch oldRoot args.newRoot daCommitment daMode args.verifierId args.daMeta
  else
    require (args.newRoot != 0) .invalidNewRoot
    let σ := σ.emit (.batchSoftCommitted σ.nextBatchId args.newRoot block.timestamp)
    let daMode ← ofOption (ext.mode provider)
    { σ with pendingStateRoot := args.newRoot, pendingTimestamp := block.timestamp }.recordBatch
      daMode args.verifierId args.daMeta daCommitment oldRoot args.newRoot

def verifyFraudProof (_ : Bridge) (msg : Msg) : Except Revert Bridge := do
  nonPayable msg
  throw (.message "FraudProofNotImplemented")

def finalizeOptimisticRoot (σ : Bridge) (block : Block) (msg : Msg) : Except Revert Bridge := do
  nonPayable msg
  require σ.optimisticMode (.message "Not in optimistic mode")
  require (σ.pendingStateRoot != 0) (.message "No pending root")
  let elapsed ← checkedAdd σ.pendingTimestamp σ.challengePeriod
  require (elapsed ≤ block.timestamp) (.message "Challenge period not elapsed")
  pure ({ σ with latestStateRoot := σ.pendingStateRoot, pendingStateRoot := 0 }.emit
    (.optimisticRootFinalized σ.pendingStateRoot))

end Bridge

/-! ## Calls -/

/-- The functions that return before anything else can call the bridge. -/
inductive BridgeCall where
  | deposit (receiver : EthAddress)
  | setOptimisticMode (mode : Bool)
  | setChallengePeriod (period : Uint256)
  | setSequencer (newSequencer : EthAddress)
  | setDAProvider (daId : UInt8) (provider : EthAddress) (enabled : Bool)
  | setVerifier (verifierId : UInt8) (verifierAddress : EthAddress)
  | transferOwnership (newOwner : EthAddress)
  | acceptOwnership
  | renounceOwnership
  | unfreeze
  | freeze
  | forceTransaction (txHash : Bytes32)
  | commitBatch (ext : External) (args : Bridge.CommitArgs)
  | verifyFraudProof
  | finalizeOptimisticRoot

def Bridge.call (σ : Bridge) (block : Block) (msg : Msg) : BridgeCall → Except Revert Bridge
  | .deposit receiver => σ.deposit msg receiver
  | .setOptimisticMode mode => σ.setOptimisticMode msg mode
  | .setChallengePeriod period => σ.setChallengePeriod msg period
  | .setSequencer newSequencer => σ.setSequencer msg newSequencer
  | .setDAProvider daId provider enabled => σ.setDAProvider msg daId provider enabled
  | .setVerifier verifierId verifierAddress => σ.setVerifier msg verifierId verifierAddress
  | .transferOwnership newOwner => σ.transferOwnership msg newOwner
  | .acceptOwnership => σ.acceptOwnership msg
  | .renounceOwnership => σ.renounceOwnership msg
  | .unfreeze => σ.unfreeze msg
  | .freeze => σ.freeze block msg
  | .forceTransaction txHash => σ.forceTransaction block msg txHash
  | .commitBatch ext args => σ.commitBatch block msg ext args
  | .verifyFraudProof => σ.verifyFraudProof msg
  | .finalizeOptimisticRoot => σ.finalizeOptimisticRoot block msg

/-- A call of a function that has handed control to a token or to the receiver of ether,
either of which may call the bridge again. -/
inductive OpenCall where
  | depositERC20 (block : Block) (token sender receiver : EthAddress) (amount : Uint256)
  | withdraw (block : Block) (receiver : EthAddress) (amount : Uint256)
      (withdrawalId : Bytes32)

def OpenCall.block : OpenCall → Block
  | .depositERC20 block _ _ _ _ => block
  | .withdraw block _ _ _ => block

/-- What is left of the function after the call it has made. -/
def OpenCall.finish : OpenCall → Bridge → Bridge
  | .depositERC20 _ token sender receiver amount, σ =>
    σ.emit (.depositERC20 token sender receiver amount)
  | .withdraw _ receiver amount withdrawalId, σ =>
    { σ with entered := false }.emit (.withdrawal receiver amount withdrawalId)

inductive BridgeStepLabel where
  | call (block : Block) (msg : Msg) (call : BridgeCall)
  | depositERC20 (block : Block) (msg : Msg) (token receiver : EthAddress) (amount : Uint256)
  | withdraw (block : Block) (msg : Msg) (merkleProof : List Bytes32) (receiver : EthAddress)
      (amount : Uint256) (withdrawalId : Bytes32)
  | succeed
  | fail

abbrev BridgeMachine := CallFrames Bridge OpenCall

/-- All calls of one transaction are in one block. -/
def inBlock (c : BridgeMachine) (block : Block) : Bool :=
  match c.stack with
  | [] => true
  | (_, k) :: _ => k.block == block

/-- A call of the bridge, or the return of the innermost call that the bridge has made. A
call that reverts changes nothing. -/
def bridgeStep (keccak256 : List UInt8 → Bytes32) (c : BridgeMachine) :
    BridgeStepLabel → Option BridgeMachine
  | .call block msg call =>
    if inBlock c block then
      match c.current.call block msg call with
      | .error _ => some c
      | .ok σ => some (c.update σ)
    else none
  | .depositERC20 block msg token receiver amount =>
    if inBlock c block then
      match c.current.depositERC20 msg amount with
      | .error _ => some c
      | .ok () =>
        some (c.enter c.current (.depositERC20 block token msg.sender receiver amount))
    else none
  | .withdraw block msg merkleProof receiver amount withdrawalId =>
    if inBlock c block then
      match c.current.withdraw keccak256 msg merkleProof receiver amount withdrawalId with
      | .error _ => some c
      | .ok σ => some (c.enter σ (.withdraw block receiver amount withdrawalId))
    else none
  | .succeed => c.leave OpenCall.finish
  | .fail => c.rollback

end RollupX.Contracts
