import Mathlib.Data.List.Range
import RollupX.Verification.Contracts.Calls

/-! How the roots in the bridge's `BatchCommitted` events relate. -/

namespace RollupX.Contracts

open Machine

def BridgeEvent.committed : BridgeEvent → Option CommittedBatch
  | .batchCommitted batch => some batch
  | _ => none

def Bridge.commits (σ : Bridge) : List CommittedBatch :=
  σ.events.filterMap BridgeEvent.committed

/-- Each batch starts from the root that the batch before it ends with, and the first one
from the genesis root. -/
def RootsLinked (genesisRoot : Bytes32) (commits : List CommittedBatch) : Prop :=
  (∀ e ∈ commits, e.batchId.toNat = 1 → e.oldRoot = genesisRoot) ∧
    ∀ e ∈ commits, ∀ e' ∈ commits, e'.batchId.toNat = e.batchId.toNat + 1 →
      e'.oldRoot = e.newRoot

instance (genesisRoot : Bytes32) (commits : List CommittedBatch) :
    Decidable (RootsLinked genesisRoot commits) :=
  inferInstanceAs (Decidable (_ ∧ _))

/-- No root is pending when `commitBatch` is called and does not revert. -/
def FindsNonePending (c : BridgeMachine) (label : BridgeStepLabel) : Prop :=
  label.commitsBatch = true → label.goesThrough c.current = true → c.current.pendingStateRoot = 0

instance (c : BridgeMachine) (label : BridgeStepLabel) : Decidable (FindsNonePending c label) :=
  inferInstanceAs (Decidable (label.commitsBatch = true → label.goesThrough c.current = true →
    c.current.pendingStateRoot = 0))

/-- The root that the next batch should start from. -/
def Bridge.tip (σ : Bridge) : Bytes32 :=
  if σ.pendingStateRoot = 0 then σ.latestStateRoot else σ.pendingStateRoot

/-- Batch ids count up from one, and the old roots followed by the tip are the genesis root
followed by the new roots. -/
structure Bridge.Linked (genesisRoot : Bytes32) (σ : Bridge) : Prop where
  ids : σ.commits.map (fun e => e.batchId.toNat) = List.range' 1 σ.commits.length
  next : σ.nextBatchId.toNat = σ.commits.length + 1
  roots : σ.commits.map CommittedBatch.oldRoot ++ [σ.tip] =
    genesisRoot :: σ.commits.map CommittedBatch.newRoot

variable {genesisRoot : Bytes32} {σ σ' : Bridge}

theorem Bridge.Linked.batchId_getElem (h : σ.Linked genesisRoot) {i : ℕ}
    (hi : i < σ.commits.length) : σ.commits[i].batchId.toNat = i + 1 := by
  have hget := congrArg (fun l => l[i]?) h.ids
  simp only [List.getElem?_map, List.getElem?_eq_getElem hi, Option.map_some] at hget
  rw [List.getElem?_range' hi] at hget
  have hid := Option.some.inj hget
  omega

theorem Bridge.Linked.rootsLinked (h : σ.Linked genesisRoot) :
    RootsLinked genesisRoot σ.commits := by
  have hroots := fun i : ℕ => congrArg (fun l => l[i]?) h.roots
  constructor
  · intro e he hone
    obtain ⟨i, hi, rfl⟩ := List.getElem_of_mem he
    have hid := h.batchId_getElem hi
    obtain rfl : i = 0 := by omega
    have hzero := hroots 0
    simp only [List.getElem?_cons_zero] at hzero
    rw [List.getElem?_append_left (by simpa using hi), List.getElem?_map,
      List.getElem?_eq_getElem hi] at hzero
    exact Option.some.inj hzero
  · intro e he e' he' hsucc
    obtain ⟨i, hi, rfl⟩ := List.getElem_of_mem he
    obtain ⟨j, hj, rfl⟩ := List.getElem_of_mem he'
    have hid := h.batchId_getElem hi
    have hid' := h.batchId_getElem hj
    obtain rfl : j = i + 1 := by omega
    have hstep := hroots (i + 1)
    simp only [List.getElem?_cons_succ] at hstep
    rw [List.getElem?_append_left (by simpa using hj), List.getElem?_map, List.getElem?_map,
      List.getElem?_eq_getElem hj, List.getElem?_eq_getElem hi] at hstep
    exact Option.some.inj hstep

theorem Bridge.linked_deploy (sender verifier : EthAddress) (delay : Uint256) :
    (Bridge.deploy sender verifier genesisRoot delay).Linked genesisRoot :=
  ⟨rfl, rfl, rfl⟩

@[simp] theorem Bridge.commits_emit (σ : Bridge) (event : BridgeEvent) :
    (σ.emit event).commits = σ.commits ++ event.committed.toList := by
  cases h : event.committed <;> simp [commits, emit, List.filterMap_append, h]

/-- The two bridges agree in what the invariant reads. -/
structure Bridge.SameRoots (σ σ' : Bridge) : Prop where
  commits : σ'.commits = σ.commits
  next : σ'.nextBatchId = σ.nextBatchId
  latest : σ'.latestStateRoot = σ.latestStateRoot
  pending : σ'.pendingStateRoot = σ.pendingStateRoot

theorem Bridge.Linked.of_sameRoots (h : σ.Linked genesisRoot) (hs : σ.SameRoots σ') :
    σ'.Linked genesisRoot := by
  have htip : σ'.tip = σ.tip := by
    rw [Bridge.tip, Bridge.tip, hs.pending, hs.latest]
  refine ⟨?_, ?_, ?_⟩
  · rw [hs.commits]
    exact h.ids
  · rw [hs.commits, hs.next]
    exact h.next
  · rw [hs.commits, htip]
    exact h.roots

theorem Bridge.sameRoots_emit {τ : Bridge} {event : BridgeEvent} (hτ : σ.SameRoots τ)
    (hevent : event.committed = none) : σ.SameRoots (τ.emit event) :=
  ⟨by simp [hevent, hτ.commits], hτ.next, hτ.latest, hτ.pending⟩

theorem CallEffect.sameRoots {block : Block} {msg : Msg} {call : BridgeCall}
    (h : CallEffect σ block msg call σ') (hcall : call.setsRoot = false) : σ.SameRoots σ' := by
  cases h with
  | commitVerified | commitOptimistic | finalizeOptimisticRoot => cases hcall
  | setOptimisticMode | setChallengePeriod => exact ⟨rfl, rfl, rfl, rfl⟩
  | _ => exact Bridge.sameRoots_emit ⟨rfl, rfl, rfl, rfl⟩ rfl

/-- What a commitment does to what the invariant reads: one batch is announced, and the new
root becomes the latest or the pending one. -/
structure Commits (σ σ' : Bridge) (newRoot : Bytes32) : Prop where
  announced : ∃ batch : CommittedBatch, σ'.commits = σ.commits ++ [batch] ∧
    batch.batchId = σ.nextBatchId ∧ batch.oldRoot = σ.latestStateRoot ∧
    batch.newRoot = newRoot
  next : σ'.nextBatchId.toNat = σ.nextBatchId.toNat + 1
  set : σ'.latestStateRoot = newRoot ∧ σ'.pendingStateRoot = σ.pendingStateRoot ∨
    σ'.pendingStateRoot = newRoot
  ne_zero : newRoot ≠ 0

@[simp] theorem Bridge.commits_addBatch (σ : Bridge) (next : Uint256) (daMeta : List UInt8)
    (batch : CommittedBatch) : (σ.addBatch next daMeta batch).commits = σ.commits ++ [batch] := by
  simp only [addBatch, commits_emit, BridgeEvent.committed, Option.toList_none, List.append_nil,
    Option.toList_some]
  rfl

theorem Bridge.commits_softCommit (σ : Bridge) (block : Block) (newRoot : Bytes32) :
    (σ.softCommit block newRoot).commits = σ.commits := by
  simp [softCommit, BridgeEvent.committed]

theorem CallEffect.commits {block : Block} {msg : Msg} {ext : External}
    {args : Bridge.CommitArgs} (h : CallEffect σ block msg (.commitBatch ext args) σ') :
    Commits σ σ' args.newRoot := by
  have hsoft := σ.commits_softCommit block args.newRoot
  cases h with
  | commitVerified _ _ _ _ _ _ hchecks =>
    exact ⟨⟨_, (Bridge.commits_addBatch ..).trans (congrArg (fun l => l ++ [_]) hsoft),
      rfl, rfl, rfl⟩, hchecks.next, .inl ⟨rfl, rfl⟩, hchecks.root⟩
  | commitOptimistic _ _ _ _ _ _ hchecks =>
    exact ⟨⟨_, (Bridge.commits_addBatch ..).trans (congrArg (fun l => l ++ [_]) hsoft),
      rfl, rfl, rfl⟩, hchecks.next, .inr rfl, hchecks.root⟩

theorem Bridge.Linked.commitBatch {newRoot : Bytes32} (h : σ.Linked genesisRoot)
    (hnone : σ.pendingStateRoot = 0) (hc : Commits σ σ' newRoot) :
    σ'.Linked genesisRoot := by
  obtain ⟨batch, hcommits, hid, hold, hnew⟩ := hc.announced
  have htip : σ.tip = batch.oldRoot := by rw [Bridge.tip, if_pos hnone, hold]
  have htip' : σ'.tip = newRoot := by
    unfold Bridge.tip
    rcases hc.set with ⟨hlatest, hpending⟩ | hpending
    · rw [hpending, if_pos hnone, hlatest]
    · rw [hpending, if_neg hc.ne_zero]
  refine ⟨?_, ?_, ?_⟩
  · rw [hcommits, List.map_append, h.ids, List.length_append, List.length_singleton,
      List.range'_1_concat, List.map_singleton, hid, h.next, Nat.add_comm 1]
  · rw [hc.next, h.next, hcommits, List.length_append, List.length_singleton]
  · have hroots := h.roots
    rw [htip] at hroots
    rw [hcommits, htip', List.map_append, List.map_singleton, hroots, List.map_append,
      List.map_singleton, hnew]
    rfl

theorem Bridge.Linked.finalizeOptimisticRoot {block : Block} {msg : Msg}
    (h : σ.Linked genesisRoot) (hf : CallEffect σ block msg .finalizeOptimisticRoot σ') :
    σ'.Linked genesisRoot := by
  cases hf with
  | finalizeOptimisticRoot hvalue hmode hne htime =>
    have htip : σ.tip = σ.pendingStateRoot := by rw [Bridge.tip, if_neg hne]
    have hroots := h.roots
    rw [htip] at hroots
    have hcommits := Bridge.commits_emit
      { σ with latestStateRoot := σ.pendingStateRoot, pendingStateRoot := 0 }
      (.optimisticRootFinalized σ.pendingStateRoot)
    simp only [BridgeEvent.committed, Option.toList_none, List.append_nil] at hcommits
    refine ⟨?_, ?_, ?_⟩
    · rw [hcommits]
      exact h.ids
    · rw [hcommits]
      exact h.next
    · rw [hcommits]
      exact hroots

theorem Bridge.Linked.call {block : Block} {msg : Msg} {call : BridgeCall}
    (h : σ.Linked genesisRoot) (he : CallEffect σ block msg call σ')
    (hnone : ∀ ext args, call = .commitBatch ext args → σ.pendingStateRoot = 0) :
    σ'.Linked genesisRoot := by
  cases hset : call.setsRoot with
  | false => exact h.of_sameRoots (he.sameRoots hset)
  | true =>
    cases call with
    | commitBatch ext args => exact h.commitBatch (hnone ext args rfl) he.commits
    | finalizeOptimisticRoot => exact h.finalizeOptimisticRoot he
    | _ => cases hset

theorem OpenCall.finish_sameRoots (k : OpenCall) (σ : Bridge) : σ.SameRoots (k.finish σ) := by
  cases k with
  | depositERC20 | withdraw => exact Bridge.sameRoots_emit ⟨rfl, rfl, rfl, rfl⟩ rfl

theorem BridgeStep.linked {keccak256 : List UInt8 → Bytes32} {c c' : BridgeMachine}
    {label : BridgeStepLabel} (hstep : BridgeStep keccak256 c label c')
    (hnone : FindsNonePending c label) (h : c.All (Bridge.Linked genesisRoot)) :
    c'.All (Bridge.Linked genesisRoot) := by
  apply hstep.step.all h
  intro σ' heffect hσ
  cases heffect with
  | call he hok =>
    refine hσ.call he ?_
    rintro ext args rfl
    exact hnone rfl (goesThrough_of_ok hok)
  | depositERC20 => exact hσ
  | withdraw => exact hσ.of_sameRoots ⟨rfl, rfl, rfl, rfl⟩
  | succeed k => exact hσ.of_sameRoots (k.finish_sameRoots _)

/-- From the deployment on, over any calls and any calls made in the course of them: the
roots of the announced batches are linked if no root is pending whenever `commitBatch` goes
through. -/
theorem rootsLinked_of_nonePending (keccak256 : List UInt8 → Bytes32)
    (sender verifier : EthAddress) (genesisRoot : Bytes32) (delay : Uint256)
    (labels : List BridgeStepLabel) (c : BridgeMachine)
    (hr : Run (BridgeStep keccak256)
      (CallFrames.start (Bridge.deploy sender verifier genesisRoot delay)) labels c)
    (hnone : Along (BridgeStep keccak256) FindsNonePending
      (CallFrames.start (Bridge.deploy sender verifier genesisRoot delay)) labels) :
    RootsLinked genesisRoot c.current.commits := by
  have hc : c.All (Bridge.Linked genesisRoot) := by
    apply hr.invariant _ hnone (CallFrames.all_start (Bridge.linked_deploy sender verifier delay))
    intro d label d' hd hok hstep
    exact hstep.linked hok hd
  exact hc.current.rootsLinked

theorem rootsLinked_finalizedFirst :
    ∃ c, Run (BridgeStep fun _ => 0) (CallFrames.start (Bridge.deploy 1 7 5 10))
        (optimisticSetup ++ [commitRoot 100 11, ownerCall 700000 .finalizeOptimisticRoot,
          ownerCall 700000 (.setOptimisticMode false), commitRoot 700000 12]) c ∧
      c.current.commits.map (fun e => (e.oldRoot, e.newRoot)) = [(5, 11), (11, 12)] ∧
      RootsLinked 5 c.current.commits := by
  obtain ⟨c, hr, hc⟩ := exists_run_of_foldlM (bridgeStep fun _ => 0)
    (CallFrames.start (Bridge.deploy 1 7 5 10))
    (optimisticSetup ++ [commitRoot 100 11, ownerCall 700000 .finalizeOptimisticRoot,
      ownerCall 700000 (.setOptimisticMode false), commitRoot 700000 12])
    (fun c => c.current.commits.map fun e => (e.oldRoot, e.newRoot))
    (b := [(5, 11), (11, 12)]) (by decide +kernel)
  refine ⟨c, hr, hc, rootsLinked_of_nonePending (fun _ => 0) 1 7 5 10 _ c hr ?_⟩
  exact Along.of_check (f := bridgeStep fun _ => 0) (by decide +kernel)

/-- Two roots are committed in optimistic mode without a finalisation between them: both
announcements start from the genesis root. -/
theorem rootsNotLinked_twoPending :
    ∃ c, Run (BridgeStep fun _ => 0) (CallFrames.start (Bridge.deploy 1 7 5 10))
        (optimisticSetup ++ [commitRoot 100 11, commitRoot 200 12]) c ∧
      c.current.commits.map (fun e => (e.batchId, e.oldRoot, e.newRoot)) =
        [(1, 5, 11), (2, 5, 12)] ∧
      ¬RootsLinked 5 c.current.commits := by
  obtain ⟨c, hr, hc⟩ := exists_run_of_foldlM (bridgeStep fun _ => 0)
    (CallFrames.start (Bridge.deploy 1 7 5 10))
    (optimisticSetup ++ [commitRoot 100 11, commitRoot 200 12])
    (fun c => (c.current.commits.map (fun e => (e.batchId, e.oldRoot, e.newRoot)),
      decide (RootsLinked 5 c.current.commits)))
    (b := ([(1, 5, 11), (2, 5, 12)], false)) (by decide +kernel)
  exact ⟨c, hr, congrArg Prod.fst hc, of_decide_eq_false (congrArg Prod.snd hc)⟩

end RollupX.Contracts
