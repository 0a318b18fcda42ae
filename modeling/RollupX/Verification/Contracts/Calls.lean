import RollupX.Library.Fallible
import RollupX.Library.Run
import RollupX.Model.Contracts.Bridge

/-! What a call of the bridge has checked and done when it goes through, stated once for
every entry point, and the bridge's machine over states that carry more than the bridge. -/

namespace RollupX.Contracts

open Fallible

theorem require_ok {condition : Bool} {revert : Revert} {u : Unit}
    (h : Bridge.require condition revert = .ok u) : condition = true := by
  cases condition with
  | true => rfl
  | false => simp [Bridge.require] at h

theorem require_of_true {condition : Bool} (revert : Revert) (h : condition = true) :
    Bridge.require condition revert = .ok () := by
  rw [Bridge.require, if_pos h]

theorem toNat_checkedAdd {x y z : Uint256} (h : Bridge.checkedAdd x y = .ok z) :
    z.toNat = x.toNat + y.toNat := by
  unfold Bridge.checkedAdd at h
  split at h
  · rename_i hlt
    cases h
    rw [BitVec.toNat_add, Nat.mod_eq_of_lt hlt]
  · cases h

theorem ofOption_ok {α : Type} {x : Option α} {a : α} (h : Bridge.ofOption x = .ok a) :
    x = some a := by
  cases x with
  | none => cases h
  | some b =>
    cases h
    rfl

variable {σ σ' : Bridge} {block : Block} {msg : Msg}

theorem onlyOwner_ok {u : Unit} (h : σ.onlyOwner msg = .ok u) : σ.owner = msg.sender := by
  obtain ⟨-, -, h⟩ := bind_ok_iff.mp h
  exact eq_of_beq (require_ok h)

def Bridge.addBatch (σ : Bridge) (next : Uint256) (daMeta : List UInt8)
    (batch : CommittedBatch) : Bridge :=
  ({ σ with
      nextBatchId := next
      batchCommitment := Function.update σ.batchCommitment batch.batchId batch.daCommitment
      batchNewRoot := Function.update σ.batchNewRoot batch.batchId batch.newRoot }.emit
    (.batchDataPointer batch.batchId daMeta)).emit (.batchCommitted batch)

/-- What `commitBatch` has checked in both modes before it records the batch. -/
structure CommitChecks (σ : Bridge) (block : Block) (msg : Msg) (ext : External)
    (args : Bridge.CommitArgs) (daCommitment : Bytes32) (points : ProofPoints)
    (next : Uint256) : Prop where
  unfrozen : σ.isFrozen = false
  sequencer : σ.sequencer = 0 ∨ msg.sender = σ.sequencer
  onTime : σ.deadlineMissed block = false
  commitment : ext.computeCommitment (σ.daProviders args.daId) args.batchData args.daMeta =
    some daCommitment
  points : Bridge.decodeProof args.verifierId args.proof = .ok points
  root : args.newRoot ≠ 0
  next : next.toNat = σ.nextBatchId.toNat + 1

/-- The event that both modes emit before the batch is recorded. -/
def Bridge.softCommit (σ : Bridge) (block : Block) (newRoot : Bytes32) : Bridge :=
  σ.emit (.batchSoftCommitted σ.nextBatchId newRoot block.timestamp)

def Bridge.installRoot (σ : Bridge) (root : Bytes32) : Bridge :=
  { σ with latestStateRoot := root }

def Bridge.storeRoot (σ : Bridge) (root : Bytes32) (timestamp : Uint256) : Bridge :=
  { σ with pendingStateRoot := root, pendingTimestamp := timestamp }

/-- What a call that goes through has checked and does. -/
inductive CallEffect (σ : Bridge) (block : Block) (msg : Msg) : BridgeCall → Bridge → Prop where
  | deposit (receiver : EthAddress) :
      CallEffect σ block msg (.deposit receiver)
        ({ σ with balance := σ.balance + msg.value }.emit
          (.deposit msg.sender receiver (BitVec.ofNat 256 msg.value)))
  | setOptimisticMode (mode : Bool) : σ.owner = msg.sender →
      CallEffect σ block msg (.setOptimisticMode mode) { σ with optimisticMode := mode }
  | setChallengePeriod (period : Uint256) : σ.owner = msg.sender →
      CallEffect σ block msg (.setChallengePeriod period) { σ with challengePeriod := period }
  | setSequencer (newSequencer : EthAddress) : σ.owner = msg.sender →
      CallEffect σ block msg (.setSequencer newSequencer)
        ({ σ with sequencer := newSequencer }.emit (.sequencerUpdated newSequencer))
  | setDAProvider (daId : UInt8) (provider : EthAddress) (enabled : Bool) :
      σ.owner = msg.sender →
      CallEffect σ block msg (.setDAProvider daId provider enabled)
        ({ σ with
            daProviders := Function.update σ.daProviders daId provider
            daEnabled := Function.update σ.daEnabled daId enabled }.emit
          (.daProviderSet daId provider enabled))
  | setVerifier (verifierId : UInt8) (verifierAddress : EthAddress) : σ.owner = msg.sender →
      CallEffect σ block msg (.setVerifier verifierId verifierAddress)
        ({ σ with
            verifiers := Function.update σ.verifiers verifierId verifierAddress }.emit
          (.verifierSet verifierId verifierAddress))
  | transferOwnership (newOwner : EthAddress) : σ.owner = msg.sender →
      CallEffect σ block msg (.transferOwnership newOwner)
        ({ σ with pendingOwner := newOwner }.emit (.ownershipTransferStarted σ.owner newOwner))
  | acceptOwnership : σ.pendingOwner = msg.sender →
      CallEffect σ block msg .acceptOwnership (σ.changeOwner msg.sender)
  | renounceOwnership : σ.owner = msg.sender →
      CallEffect σ block msg .renounceOwnership (σ.changeOwner 0)
  | unfreeze : σ.owner = msg.sender → σ.isFrozen = true →
      CallEffect σ block msg .unfreeze ({ σ with isFrozen := false }.emit .bridgeUnfrozen)
  | freeze : σ.deadlineMissed block = true →
      CallEffect σ block msg .freeze
        ({ σ with isFrozen := true }.emit (.bridgeFrozen "Censorship proven via freeze()"))
  | forceTransaction (txHash : Bytes32) (deadline : Uint256) : σ.isFrozen = false →
      deadline.toNat = block.number.toNat + σ.forcedInclusionDelay.toNat →
      CallEffect σ block msg (.forceTransaction txHash)
        ({ σ with
            forcedTxTimestamps := Function.update σ.forcedTxTimestamps txHash deadline
            forcedTxQueue := σ.forcedTxQueue ++ [txHash] }.emit
          (.forcedTransactionEnqueued txHash deadline))
  | commitVerified (ext : External) (args : Bridge.CommitArgs) (daCommitment : Bytes32)
      (points : ProofPoints) (daMode : UInt8) (next : Uint256) :
      CommitChecks σ block msg ext args daCommitment points next →
      σ.optimisticMode = false →
      ext.verifyProof (σ.verifiers args.verifierId) points
        (Bridge.publicInputs σ.latestStateRoot args.newRoot daCommitment) = some true →
      CallEffect σ block msg (.commitBatch ext args)
        (((σ.softCommit block args.newRoot).installRoot args.newRoot).addBatch next args.daMeta
          ⟨σ.nextBatchId, daMode, args.verifierId, daCommitment,
            σ.latestStateRoot, args.newRoot⟩)
  | commitOptimistic (ext : External) (args : Bridge.CommitArgs) (daCommitment : Bytes32)
      (points : ProofPoints) (daMode : UInt8) (next : Uint256) :
      CommitChecks σ block msg ext args daCommitment points next →
      σ.optimisticMode = true →
      CallEffect σ block msg (.commitBatch ext args)
        (((σ.softCommit block args.newRoot).storeRoot args.newRoot block.timestamp).addBatch next
          args.daMeta ⟨σ.nextBatchId, daMode, args.verifierId, daCommitment,
            σ.latestStateRoot, args.newRoot⟩)
  | finalizeOptimisticRoot : msg.value = 0 → σ.optimisticMode = true →
      σ.pendingStateRoot ≠ 0 →
      σ.pendingTimestamp.toNat + σ.challengePeriod.toNat ≤ block.timestamp.toNat →
      CallEffect σ block msg .finalizeOptimisticRoot
        ({ σ with latestStateRoot := σ.pendingStateRoot, pendingStateRoot := 0 }.emit
          (.optimisticRootFinalized σ.pendingStateRoot))

theorem recordBatch_ok {daMode verifierId : UInt8} {daMeta : List UInt8}
    {daCommitment oldRoot newRoot : Bytes32}
    (h : σ.recordBatch daMode verifierId daMeta daCommitment oldRoot newRoot = .ok σ') :
    ∃ next : Uint256, next.toNat = σ.nextBatchId.toNat + 1 ∧
      σ' = σ.addBatch next daMeta
        ⟨σ.nextBatchId, daMode, verifierId, daCommitment, oldRoot, newRoot⟩ := by
  obtain ⟨next, hnext, h⟩ := bind_ok_iff.mp h
  cases h
  exact ⟨next, toNat_checkedAdd hnext, rfl⟩

theorem requireSequencer_ok {u : Unit} (h : σ.requireSequencer msg = .ok u) :
    σ.isFrozen = false ∧ (σ.sequencer = 0 ∨ msg.sender = σ.sequencer) := by
  obtain ⟨_, hfrozen, h⟩ := bind_ok_iff.mp h
  exact ⟨by simpa using require_ok hfrozen, by simpa using require_ok h⟩

theorem commitBatch_effect {ext : External} {args : Bridge.CommitArgs}
    (h : σ.commitBatch block msg ext args = .ok σ') :
    CallEffect σ block msg (.commitBatch ext args) σ' := by
  obtain ⟨-, -, h⟩ := bind_ok_iff.mp h
  obtain ⟨_, hsequencer, h⟩ := bind_ok_iff.mp h
  obtain ⟨_, hdeadline, h⟩ := bind_ok_iff.mp h
  obtain ⟨-, -, h⟩ := bind_ok_iff.mp h
  obtain ⟨daCommitment, hcommitment, h⟩ := bind_ok_iff.mp h
  obtain ⟨-, -, h⟩ := bind_ok_iff.mp h
  obtain ⟨-, -, h⟩ := bind_ok_iff.mp h
  obtain ⟨points, hpoints, h⟩ := bind_ok_iff.mp h
  obtain ⟨hunfrozen, hallowed⟩ := requireSequencer_ok hsequencer
  have honTime : σ.deadlineMissed block = false := by simpa using require_ok hdeadline
  split at h
  · rename_i hmode
    obtain ⟨valid, hvalid, h⟩ := bind_ok_iff.mp h
    obtain ⟨_, htrue, h⟩ := bind_ok_iff.mp h
    obtain ⟨daMode, -, h⟩ := bind_ok_iff.mp h
    obtain ⟨_, hroot, h⟩ := bind_ok_iff.mp h
    obtain ⟨next, hnext, rfl⟩ := recordBatch_ok h
    have hverified := ofOption_ok hvalid
    rw [require_ok htrue] at hverified
    exact .commitVerified ext args daCommitment points daMode next
      ⟨hunfrozen, hallowed, honTime, ofOption_ok hcommitment, hpoints,
        bne_iff_ne.mp (require_ok hroot), hnext⟩ (by simpa using hmode) hverified
  · rename_i hmode
    obtain ⟨_, hroot, h⟩ := bind_ok_iff.mp h
    obtain ⟨daMode, -, h⟩ := bind_ok_iff.mp h
    obtain ⟨next, hnext, rfl⟩ := recordBatch_ok h
    exact .commitOptimistic ext args daCommitment points daMode next
      ⟨hunfrozen, hallowed, honTime, ofOption_ok hcommitment, hpoints,
        bne_iff_ne.mp (require_ok hroot), hnext⟩ (by simpa using hmode)

theorem finalizeOptimisticRoot_effect (h : σ.finalizeOptimisticRoot block msg = .ok σ') :
    CallEffect σ block msg .finalizeOptimisticRoot σ' := by
  obtain ⟨_, hvalue, h⟩ := bind_ok_iff.mp h
  obtain ⟨_, hmode, h⟩ := bind_ok_iff.mp h
  obtain ⟨_, hpending, h⟩ := bind_ok_iff.mp h
  obtain ⟨elapsed, hadd, h⟩ := bind_ok_iff.mp h
  obtain ⟨_, htime, h⟩ := bind_ok_iff.mp h
  have hle : elapsed.toNat ≤ block.timestamp.toNat := by
    simpa [BitVec.le_def] using require_ok htime
  rw [toNat_checkedAdd hadd] at hle
  cases h
  exact .finalizeOptimisticRoot (eq_of_beq (require_ok hvalue)) (require_ok hmode)
    (bne_iff_ne.mp (require_ok hpending)) hle

theorem call_effect {call : BridgeCall} (h : σ.call block msg call = .ok σ') :
    CallEffect σ block msg call σ' := by
  cases call with
  | deposit receiver =>
    obtain ⟨-, -, h⟩ := bind_ok_iff.mp h
    cases h
    exact .deposit receiver
  | setOptimisticMode mode =>
    obtain ⟨_, howner, h⟩ := bind_ok_iff.mp h
    cases h
    exact .setOptimisticMode mode (onlyOwner_ok howner)
  | setChallengePeriod period =>
    obtain ⟨_, howner, h⟩ := bind_ok_iff.mp h
    cases h
    exact .setChallengePeriod period (onlyOwner_ok howner)
  | setSequencer newSequencer =>
    obtain ⟨_, howner, h⟩ := bind_ok_iff.mp h
    cases h
    exact .setSequencer newSequencer (onlyOwner_ok howner)
  | setDAProvider daId provider enabled =>
    obtain ⟨_, howner, h⟩ := bind_ok_iff.mp h
    obtain ⟨-, -, h⟩ := bind_ok_iff.mp h
    cases h
    exact .setDAProvider daId provider enabled (onlyOwner_ok howner)
  | setVerifier verifierId verifierAddress =>
    obtain ⟨_, howner, h⟩ := bind_ok_iff.mp h
    cases h
    exact .setVerifier verifierId verifierAddress (onlyOwner_ok howner)
  | transferOwnership newOwner =>
    obtain ⟨_, howner, h⟩ := bind_ok_iff.mp h
    cases h
    exact .transferOwnership newOwner (onlyOwner_ok howner)
  | acceptOwnership =>
    obtain ⟨-, -, h⟩ := bind_ok_iff.mp h
    obtain ⟨_, hpending, h⟩ := bind_ok_iff.mp h
    cases h
    exact .acceptOwnership (eq_of_beq (require_ok hpending))
  | renounceOwnership =>
    obtain ⟨_, howner, h⟩ := bind_ok_iff.mp h
    cases h
    exact .renounceOwnership (onlyOwner_ok howner)
  | unfreeze =>
    obtain ⟨_, howner, h⟩ := bind_ok_iff.mp h
    obtain ⟨_, hfrozen, h⟩ := bind_ok_iff.mp h
    cases h
    exact .unfreeze (onlyOwner_ok howner) (require_ok hfrozen)
  | freeze =>
    obtain ⟨-, -, h⟩ := bind_ok_iff.mp h
    obtain ⟨_, hmissed, h⟩ := bind_ok_iff.mp h
    cases h
    exact .freeze (require_ok hmissed)
  | forceTransaction txHash =>
    obtain ⟨-, -, h⟩ := bind_ok_iff.mp h
    obtain ⟨_, hfrozen, h⟩ := bind_ok_iff.mp h
    obtain ⟨deadline, hadd, h⟩ := bind_ok_iff.mp h
    cases h
    exact .forceTransaction txHash deadline (by simpa using require_ok hfrozen)
      (toNat_checkedAdd hadd)
  | commitBatch ext args => exact commitBatch_effect h
  | verifyFraudProof =>
    obtain ⟨-, -, h⟩ := bind_ok_iff.mp h
    cases h
  | finalizeOptimisticRoot => exact finalizeOptimisticRoot_effect h

theorem CallEffect.checks {ext : External} {args : Bridge.CommitArgs}
    (h : CallEffect σ block msg (.commitBatch ext args) σ') :
    ∃ daCommitment points next, CommitChecks σ block msg ext args daCommitment points next := by
  cases h with
  | commitVerified _ _ daCommitment points _ next hchecks
  | commitOptimistic _ _ daCommitment points _ next hchecks =>
    exact ⟨_, _, _, hchecks⟩

theorem withdraw_ok {keccak256 : List UInt8 → Bytes32} {merkleProof : List Bytes32}
    {receiver : EthAddress} {amount : Uint256} {withdrawalId : Bytes32}
    (h : σ.withdraw keccak256 msg merkleProof receiver amount withdrawalId = .ok σ') :
    σ.nullifiers withdrawalId = false ∧ amount.toNat ≤ σ.balance ∧
      σ' = { σ with
        entered := true
        nullifiers := Function.update σ.nullifiers withdrawalId true
        balance := σ.balance - amount.toNat } := by
  obtain ⟨-, -, h⟩ := bind_ok_iff.mp h
  obtain ⟨-, -, h⟩ := bind_ok_iff.mp h
  obtain ⟨_, hfresh, h⟩ := bind_ok_iff.mp h
  obtain ⟨-, -, h⟩ := bind_ok_iff.mp h
  obtain ⟨_, hcovered, h⟩ := bind_ok_iff.mp h
  cases h
  exact ⟨by simpa using require_ok hfresh, by simpa using require_ok hcovered, rfl⟩

def BridgeStep (keccak256 : List UInt8 → Bytes32) (c : BridgeMachine)
    (label : BridgeStepLabel) (c' : BridgeMachine) : Prop :=
  bridgeStep keccak256 c label = some c'

def BridgeStepLabel.callBlock : BridgeStepLabel → Option Block
  | .call block _ _ => some block
  | .depositERC20 block _ _ _ _ => some block
  | .withdraw block _ _ _ _ _ => some block
  | .succeed => none
  | .fail => none

/-- What a step does to the bridge unless it undoes a call. -/
inductive StepEffect (σ : Bridge) : BridgeStepLabel → Bridge → Prop where
  | call {block : Block} {msg : Msg} {call : BridgeCall} {σ' : Bridge} :
      CallEffect σ block msg call σ' → σ.call block msg call = .ok σ' →
      StepEffect σ (.call block msg call) σ'
  | depositERC20 (block : Block) (msg : Msg) (token receiver : EthAddress) (amount : Uint256) :
      StepEffect σ (.depositERC20 block msg token receiver amount) σ
  | withdraw (block : Block) (msg : Msg) (merkleProof : List Bytes32) (receiver : EthAddress)
      (amount : Uint256) (withdrawalId : Bytes32) : σ.nullifiers withdrawalId = false →
      amount.toNat ≤ σ.balance →
      StepEffect σ (.withdraw block msg merkleProof receiver amount withdrawalId)
        { σ with
          entered := true
          nullifiers := Function.update σ.nullifiers withdrawalId true
          balance := σ.balance - amount.toNat }
  | succeed (k : OpenCall) : StepEffect σ .succeed (k.finish σ)

def BridgeCall.setsRoot : BridgeCall → Bool
  | .commitBatch _ _ => true
  | .finalizeOptimisticRoot => true
  | _ => false

def BridgeStepLabel.setsRoot : BridgeStepLabel → Bool
  | .call _ _ entry => entry.setsRoot
  | _ => false

def BridgeStepLabel.commitsBatch : BridgeStepLabel → Bool
  | .call _ _ (.commitBatch _ _) => true
  | _ => false

def BridgeStepLabel.goesThrough (σ : Bridge) : BridgeStepLabel → Bool
  | .call block msg entry => (σ.call block msg entry).isOk
  | _ => false

theorem goesThrough_of_ok {call : BridgeCall} (h : σ.call block msg call = .ok σ') :
    (BridgeStepLabel.call block msg call).goesThrough σ = true := by
  rw [BridgeStepLabel.goesThrough, h]
  rfl

/-- The two bridges have the same latest root and the same batches. -/
structure Bridge.SameBatches (σ σ' : Bridge) : Prop where
  latest : σ'.latestStateRoot = σ.latestStateRoot
  next : σ'.nextBatchId = σ.nextBatchId
  commitment : σ'.batchCommitment = σ.batchCommitment
  newRoot : σ'.batchNewRoot = σ.batchNewRoot

theorem Bridge.SameBatches.trans {τ : Bridge} (h : σ.SameBatches τ) (h' : τ.SameBatches σ') :
    σ.SameBatches σ' :=
  ⟨h'.latest.trans h.latest, h'.next.trans h.next, h'.commitment.trans h.commitment,
    h'.newRoot.trans h.newRoot⟩

structure Bridge.SamePending (σ σ' : Bridge) : Prop where
  root : σ'.pendingStateRoot = σ.pendingStateRoot
  timestamp : σ'.pendingTimestamp = σ.pendingTimestamp

theorem StepEffect.keeps_roots {label : BridgeStepLabel} (h : StepEffect σ label σ')
    (hlabel : label.setsRoot = false) : σ.SameBatches σ' ∧ σ.SamePending σ' := by
  cases h with
  | call he =>
    cases he with
    | commitVerified | commitOptimistic | finalizeOptimisticRoot => cases hlabel
    | _ => exact ⟨⟨rfl, rfl, rfl, rfl⟩, ⟨rfl, rfl⟩⟩
  | depositERC20 | withdraw => exact ⟨⟨rfl, rfl, rfl, rfl⟩, ⟨rfl, rfl⟩⟩
  | succeed k => cases k <;> exact ⟨⟨rfl, rfl, rfl, rfl⟩, ⟨rfl, rfl⟩⟩

section Frames

variable {β : Type} (view : β → Bridge) (next : β → BridgeStepLabel → Bridge → β)
  (keccak256 : List UInt8 → Bytes32)

/-- The bridge's machine over states of another type, where `view` gives the bridge of a
state and `next` the state in which a label leaves a new bridge. -/
def frameStep (c : CallFrames β OpenCall) : BridgeStepLabel → Option (CallFrames β OpenCall)
  | .call block msg call =>
    if inBlock (c.map view) block then
      match (view c.current).call block msg call with
      | .error _ => some c
      | .ok σ => some (c.update (next c.current (.call block msg call) σ))
    else none
  | .depositERC20 block msg token receiver amount =>
    if inBlock (c.map view) block then
      match (view c.current).depositERC20 msg amount with
      | .error _ => some c
      | .ok () =>
        some (c.enter
          (next c.current (.depositERC20 block msg token receiver amount) (view c.current))
          (.depositERC20 block token msg.sender receiver amount))
    else none
  | .withdraw block msg merkleProof receiver amount withdrawalId =>
    if inBlock (c.map view) block then
      match (view c.current).withdraw keccak256 msg merkleProof receiver amount
        withdrawalId with
      | .error _ => some c
      | .ok σ =>
        some (c.enter
          (next c.current (.withdraw block msg merkleProof receiver amount withdrawalId) σ)
          (.withdraw block receiver amount withdrawalId))
    else none
  | .succeed => c.leave fun k b => next b .succeed (k.finish (view b))
  | .fail => c.rollback

variable {view next keccak256}

theorem frameStep_step {c c' : CallFrames β OpenCall} {label : BridgeStepLabel}
    (h : frameStep view next keccak256 c label = some c') :
    CallFrames.Step (fun b b' => ∃ σ, StepEffect (view b) label σ ∧ b' = next b label σ)
      (fun k => label.callBlock = some k.block) (label = .succeed) (label = .fail) c c' := by
  cases label with
  | call block msg call =>
    simp only [frameStep] at h
    split at h
    · split at h
      · cases h
        exact .stay
      · rename_i σ hok
        cases h
        exact .update ⟨σ, .call (call_effect hok) hok, rfl⟩
    · cases h
  | depositERC20 block msg token receiver amount =>
    simp only [frameStep] at h
    split at h
    · split at h
      · cases h
        exact .stay
      · cases h
        exact .enter rfl ⟨_, .depositERC20 block msg token receiver amount, rfl⟩
    · cases h
  | withdraw block msg merkleProof receiver amount withdrawalId =>
    simp only [frameStep] at h
    split at h
    · split at h
      · cases h
        exact .stay
      · rename_i σ hok
        obtain ⟨hfresh, hcovered, rfl⟩ := withdraw_ok hok
        cases h
        exact .enter rfl ⟨_, .withdraw block msg merkleProof receiver amount withdrawalId
          hfresh hcovered, rfl⟩
    · cases h
  | succeed =>
    simp only [frameStep, CallFrames.leave] at h
    split at h
    · cases h
    · rename_i saved k rest hstack
      cases h
      exact .leave rfl hstack ⟨_, .succeed k, rfl⟩
  | fail =>
    simp only [frameStep, CallFrames.rollback] at h
    split at h
    · cases h
    · rename_i saved k rest hstack
      cases h
      exact .rollback rfl hstack

theorem map_frameStep (hview : ∀ b label σ, view (next b label σ) = σ)
    (c : CallFrames β OpenCall) (label : BridgeStepLabel) :
    (frameStep view next keccak256 c label).map (CallFrames.map view) =
      bridgeStep keccak256 (c.map view) label := by
  cases label with
  | call block msg call =>
    simp only [frameStep, bridgeStep]
    split
    · cases h : (view c.current).call block msg call <;>
        simp [CallFrames.map, CallFrames.update, h, hview]
    · rfl
  | depositERC20 block msg token receiver amount =>
    simp only [frameStep, bridgeStep]
    split
    · cases h : (view c.current).depositERC20 msg amount <;>
        simp [CallFrames.map, CallFrames.enter, h, hview]
    · rfl
  | withdraw block msg merkleProof receiver amount withdrawalId =>
    simp only [frameStep, bridgeStep]
    split
    · cases h : (view c.current).withdraw keccak256 msg merkleProof receiver amount
          withdrawalId <;>
        simp [CallFrames.map, CallFrames.enter, h, hview]
    · rfl
  | succeed =>
    cases h : c.stack <;> simp [frameStep, bridgeStep, CallFrames.leave, CallFrames.map, h, hview]
  | fail =>
    cases h : c.stack <;> simp [frameStep, bridgeStep, CallFrames.rollback, CallFrames.map, h]

end Frames

theorem BridgeStep.step {keccak256 : List UInt8 → Bytes32} {c c' : BridgeMachine}
    {label : BridgeStepLabel} (h : BridgeStep keccak256 c label c') :
    CallFrames.Step (fun σ σ' => StepEffect σ label σ') (fun k => label.callBlock = some k.block)
      (label = .succeed) (label = .fail) c c' := by
  have hframe := @map_frameStep Bridge id (fun _ _ σ => σ) keccak256 (fun _ _ _ => rfl) c label
  simp only [CallFrames.map_id, Option.map_id, id_eq] at hframe
  refine (frameStep_step (hframe.trans h)).mono ?_
  rintro σ _ ⟨σ', heffect, rfl⟩
  exact heffect

theorem BridgeStep.inBlock {keccak256 : List UInt8 → Bytes32} {c c' : BridgeMachine}
    {label : BridgeStepLabel} (h : BridgeStep keccak256 c label c')
    (hblock : label.callBlock = some block) : inBlock c block = true := by
  unfold BridgeStep at h
  cases label with
  | succeed | fail => cases hblock
  | _ =>
    cases hblock
    simp only [bridgeStep] at h
    split at h
    · assumption
    · cases h

theorem BridgeStep.call_cases {keccak256 : List UInt8 → Bytes32} {c c' : BridgeMachine}
    {call : BridgeCall} (h : BridgeStep keccak256 c (.call block msg call) c') :
    (∃ revert, c.current.call block msg call = .error revert) ∧ c' = c ∨
      ∃ σ, c.current.call block msg call = .ok σ ∧ c' = c.update σ := by
  simp only [BridgeStep, bridgeStep] at h
  split at h
  · split at h
    · rename_i revert hcall
      cases h
      exact .inl ⟨⟨revert, hcall⟩, rfl⟩
    · rename_i σ hcall
      cases h
      exact .inr ⟨σ, hcall, rfl⟩
  · cases h

/-- The bridge's machine with a ghost beside each bridge: `note` says what becomes of the
ghost when a label is carried out, and a call that fails takes its notes back. -/
def ghostStep {γ : Type} (note : γ → Bridge → BridgeStepLabel → γ)
    (keccak256 : List UInt8 → Bytes32) :
    CallFrames (Bridge × γ) OpenCall → BridgeStepLabel →
      Option (CallFrames (Bridge × γ) OpenCall) :=
  frameStep Prod.fst (fun b label σ => (σ, note b.2 b.1 label)) keccak256

section Ghost

variable {γ : Type} {note : γ → Bridge → BridgeStepLabel → γ} {keccak256 : List UInt8 → Bytes32}

def GhostStep (note : γ → Bridge → BridgeStepLabel → γ) (keccak256 : List UInt8 → Bytes32)
    (c : CallFrames (Bridge × γ) OpenCall) (label : BridgeStepLabel)
    (c' : CallFrames (Bridge × γ) OpenCall) : Prop :=
  ghostStep note keccak256 c label = some c'

theorem GhostStep.step {c c' : CallFrames (Bridge × γ) OpenCall} {label : BridgeStepLabel}
    (h : GhostStep note keccak256 c label c') :
    CallFrames.Step (fun b b' => ∃ σ, StepEffect b.1 label σ ∧ b' = (σ, note b.2 b.1 label))
      (fun k => label.callBlock = some k.block) (label = .succeed) (label = .fail) c c' :=
  frameStep_step h

theorem GhostStep.all {P : Bridge → γ → Prop} {c c' : CallFrames (Bridge × γ) OpenCall}
    {label : BridgeStepLabel} (hstep : GhostStep note keccak256 c label c')
    (h : c.All fun b => P b.1 b.2)
    (heffect : ∀ σ, StepEffect c.current.1 label σ → P c.current.1 c.current.2 →
      P σ (note c.current.2 c.current.1 label)) : c'.All fun b => P b.1 b.2 := by
  apply hstep.step.all h
  rintro _ ⟨σ, he, rfl⟩ hP
  exact heffect σ he hP

/-- The runs with a ghost are the runs of the bridge. -/
theorem run_ghostStep_iff {c : CallFrames (Bridge × γ) OpenCall} {labels : List BridgeStepLabel}
    {d : BridgeMachine} :
    Machine.Run (BridgeStep keccak256) (c.map Prod.fst) labels d ↔
      ∃ c', Machine.Run (GhostStep note keccak256) c labels c' ∧ c'.map Prod.fst = d :=
  Machine.run_forget_iff (CallFrames.map Prod.fst) (map_frameStep fun _ _ _ => rfl)

end Ghost

def acceptingExternal : External where
  computeCommitment _ _ _ := some 3
  validateDA _ _ _ := true
  mode _ := some 0
  verifyProof _ _ _ := some true

def ownerCall (timestamp : Uint256) (call : BridgeCall) : BridgeStepLabel :=
  .call ⟨1, timestamp⟩ ⟨1, 0⟩ call

def ownerCallAt (number : Uint256) (call : BridgeCall) : BridgeStepLabel :=
  .call ⟨number, 60 * number⟩ ⟨1, 0⟩ call

def commitRoot (timestamp : Uint256) (newRoot : Bytes32) : BridgeStepLabel :=
  ownerCall timestamp (.commitBatch acceptingExternal
    ⟨0, 0, [], [], newRoot, List.replicate 256 0⟩)

def commitRootAt (number : Uint256) (newRoot : Bytes32) : BridgeStepLabel :=
  ownerCallAt number (.commitBatch acceptingExternal
    ⟨0, 0, [], [], newRoot, List.replicate 256 0⟩)

def optimisticSetup : List BridgeStepLabel :=
  [ownerCall 0 (.setDAProvider 0 9 true), ownerCall 0 (.setOptimisticMode true)]

end RollupX.Contracts
