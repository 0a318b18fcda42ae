import RollupX.Verification.Sequencer.ForcedOrder
import RollupX.Verification.Sequencer.Panics

/-! What a trigger leads to. `should_seal` counts transactions and bytes, and `produce_batch`
selects by gas and by the room in a blob. -/

namespace RollupX.Sequencer

open Executor (Address)
open Machine

variable {env : OrchestratorEnv}

def sealPhase (reason : Option TriggerReason) : OrchestratorPhase :=
  (reason.map .triggered).getD .loopTop

def timeoutReason (env : OrchestratorEnv) (normalCount elapsedMs : ℕ) : Option TriggerReason :=
  if env.config.timeoutForDepth normalCount ≤ elapsedMs ∧
      (env.config.minBatchSize ≤ normalCount ∨ 0 < normalCount) then some .timeout
  else none

theorem iterates_checkTimeout {o : Orchestrator} {normalCount : ℕ} {t : Tick}
    (h : o.phase = .checkTimeout normalCount) :
    Iterates (OrchestratorStep env) (.tick t) o
      { o with phase := sealPhase (timeoutReason env normalCount t.elapsedMs) } := by
  refine .head ?_ (.refl _ _)
  simp only [OrchestratorStep, Orchestrator.step, Orchestrator.tick, h, timeoutReason]
  split_ifs <;> rfl

/-- When nothing is added meanwhile, the steps at the top of the loop compute `shouldSeal`. -/
theorem iterates_shouldSeal {o : Orchestrator} {t : Tick} (h : o.phase = .loopTop) :
    Iterates (OrchestratorStep env) (.tick t) o
      { o with phase := sealPhase (shouldSeal env o.queue o.pool t.elapsedMs) } := by
  have htop : OrchestratorStep env o (.tick t) { o with
      phase := if 0 < o.queue.length then .triggered .forcedTransactions else .checkSize } := by
    simp only [OrchestratorStep, Orchestrator.step, Orchestrator.tick, h]
  unfold shouldSeal
  refine .head htop ?_
  by_cases hqueue : 0 < o.queue.length
  · rw [if_pos hqueue, if_pos hqueue]
    exact .refl _ _
  rw [if_neg hqueue, if_neg hqueue]
  have hsize : OrchestratorStep env { o with phase := .checkSize } (.tick t) { o with
      phase := if env.config.targetBatchSizeForDepth o.pool.length ≤ o.pool.length then
          .triggered .sizeThreshold
        else if Executor.eqIgnoreAsciiCase env.daMode "blob" then .checkBlob o.pool.length
        else .checkTimeout o.pool.length } := rfl
  refine .head hsize ?_
  by_cases hfull : env.config.targetBatchSizeForDepth o.pool.length ≤ o.pool.length
  · rw [if_pos hfull, if_pos hfull]
    exact .refl _ _
  rw [if_neg hfull, if_neg hfull]
  by_cases hmode : Executor.eqIgnoreAsciiCase env.daMode "blob" = true
  · have hblob : OrchestratorStep env { o with phase := .checkBlob o.pool.length } (.tick t)
        { o with phase := if env.config.blobFillBytes ≤
              (o.pool.map PooledTransaction.estimatedEncodedBytes).sum ∧
            0 < (o.pool.map PooledTransaction.estimatedEncodedBytes).sum then
            .triggered .sizeThreshold
          else .checkTimeout o.pool.length } := rfl
    rw [if_pos hmode]
    simp only [hmode, true_and]
    refine .head hblob ?_
    by_cases hfilled : env.config.blobFillBytes ≤
          (o.pool.map PooledTransaction.estimatedEncodedBytes).sum ∧
        0 < (o.pool.map PooledTransaction.estimatedEncodedBytes).sum
    · rw [if_pos hfilled, if_pos hfilled]
      exact .refl _ _
    · rw [if_neg hfilled, if_neg hfilled]
      exact iterates_checkTimeout rfl
  · rw [if_neg hmode, if_neg fun hblob => hmode hblob.1]
    exact iterates_checkTimeout rfl

/-- A turn of the loop that finds a reason to seal, up to what `produce_batch` returns. -/
theorem iterates_triggered {o : Orchestrator} {t : Tick} {reason : TriggerReason}
    (h : o.phase = .loopTop)
    (htrigger : shouldSeal env o.queue o.pool t.elapsedMs = some reason) :
    ∃ o', Iterates (OrchestratorStep env) (.tick t) o o' ∧
      Orchestrator.Returns { o with phase := .triggered reason } o'
        (produceBatch env o.inputs o.nextBatchId t.nowSecs) := by
  have hchecks := @iterates_shouldSeal env o t h
  rw [htrigger] at hchecks
  obtain ⟨o', hcall, hreturns⟩ := @iterates_produceBatch env
    { o with phase := .triggered reason } reason t rfl
  exact ⟨o', hchecks.trans hcall, hreturns⟩

/-- The sizes that a configuration sets are at least one. -/
structure BatchConfig.PositiveSizes (c : BatchConfig) : Prop where
  maxBatch : 1 ≤ c.maxBatchSize
  minBatch : 1 ≤ c.minBatchSize
  small : 1 ≤ c.adaptiveSmallBatchSize
  medium : 1 ≤ c.adaptiveMediumBatchSize
  large : 1 ≤ c.adaptiveLargeBatchSize

theorem BatchConfig.PositiveSizes.target {c : BatchConfig} (h : c.PositiveSizes) (depth : ℕ) :
    1 ≤ c.targetBatchSizeForDepth depth := by
  obtain ⟨hmax, -, hsmall, hmedium, hlarge⟩ := h
  simp only [BatchConfig.targetBatchSizeForDepth, BatchConfig.forDepth]
  split_ifs <;> omega

theorem waiting_of_shouldSeal (hsizes : env.config.PositiveSizes) {queue : List ForcedTransaction}
    {pool : List PooledTransaction} {elapsedMs : ℕ} {reason : TriggerReason}
    (h : shouldSeal env queue pool elapsedMs = some reason) : queue ≠ [] ∨ pool ≠ [] := by
  by_contra hnone
  push Not at hnone
  obtain ⟨rfl, rfl⟩ := hnone
  have htarget := hsizes.target 0
  have hmin := hsizes.minBatch
  simp only [shouldSeal, List.length_nil, lt_irrefl, if_false, List.map_nil, List.sum_nil,
    and_false, or_false] at h
  rw [if_neg (by omega), if_neg (by omega)] at h
  cases h

theorem canAddTransaction_nil_iff {c : BatchConfig} {tx : Transaction} :
    canAddTransaction c [] tx = true ↔ tx.gasLimit ≤ c.maxGasLimit := by
  have hlt := tx.gasLimit.toNat_lt
  rw [canAddTransaction, decide_eq_true_eq, UInt64.le_iff_toNat_le, UInt64.le_iff_toNat_le,
    Bytes.toNat_saturatingAdd, List.foldl_nil, UInt64.toNat_zero]
  omega

/-- What a call takes from the pool when it has accepted no forced transaction. -/
def takenAlone (env : OrchestratorEnv) (pool : List PooledTransaction) : List PooledTransaction :=
  (takePooled env [] pool.length pool).1

/-- One of the transactions that a call looks at is within the gas limit by itself. -/
def SomeFits (env : OrchestratorEnv) (queue : List ForcedTransaction)
    (pool : List PooledTransaction) : Prop :=
  (∃ tx ∈ queue, tx.gasLimit ≤ env.config.maxGasLimit) ∨
    ∃ p ∈ takenAlone env pool, p.tx.gasLimit ≤ env.config.maxGasLimit

theorem forced_ne_nil_iff (inputs : BatchInputs) :
    inputs.forced env ≠ [] ↔ ∃ tx ∈ inputs.queue, tx.gasLimit ≤ env.config.maxGasLimit := by
  rw [BatchInputs.forced, selectForced_eq, Ne, Selection.accepted_eq_nil_iff]
  push Not
  simp only [List.map_nil, ne_eq, Bool.not_eq_false, canAddTransaction_nil_iff,
    Transaction.gasLimit]

theorem normal_ne_nil_iff {inputs : BatchInputs} (h : inputs.forced env = []) :
    inputs.normal env ≠ [] ↔
      ∃ p ∈ (takePooled env [] inputs.depth inputs.pool).1,
        p.tx.gasLimit ≤ env.config.maxGasLimit := by
  rw [BatchInputs.normal, BatchInputs.pooled, h, selectNormal_eq, Ne,
    Selection.accepted_eq_nil_iff]
  push Not
  simp only [List.map_nil, List.append_nil, ne_eq, Bool.not_eq_false, canAddTransaction_nil_iff,
    Transaction.gasLimit]

theorem selects_iff (queue : List ForcedTransaction) (pool : List PooledTransaction) :
    ¬((BatchInputs.mk queue pool.length pool).forced env = [] ∧
        (BatchInputs.mk queue pool.length pool).normal env = []) ↔ SomeFits env queue pool := by
  have hforced := @forced_ne_nil_iff env ⟨queue, pool.length, pool⟩
  by_cases hnil : (BatchInputs.mk queue pool.length pool).forced env = []
  · rw [SomeFits, ← hforced, takenAlone, ← normal_ne_nil_iff hnil]
    simp [hnil]
  · rw [SomeFits, ← hforced]
    simp [hnil]

theorem takenAlone_ne_nil (hsizes : env.config.PositiveSizes) {pool : List PooledTransaction}
    (hpool : pool ≠ [])
    (hblob : env.policy.name = "BlobPacking" →
      ∀ p ∈ pool, p.estimatedEncodedBytes ≤ env.config.blobTargetBytes) :
    takenAlone env pool ≠ [] := by
  have htarget := hsizes.target pool.length
  have hmax : maxNormal env [] pool.length = env.config.targetBatchSizeForDepth pool.length := by
    simp [maxNormal]
  rw [takenAlone, takePooled, hmax]
  split_ifs with hname
  · obtain ⟨p, hp⟩ := List.exists_mem_of_ne_nil _ hpool
    intro hnil
    have hnone : (Selection.select (fitsBlob (env.config.targetBatchSizeForDepth pool.length)
        (maxBlobBytes env [])) (blobCandidates pool)).1 = [] := by
      rw [takeBlobPacked_eq] at hnil
      have hperm := byArrival_perm (Selection.select (fitsBlob
        (env.config.targetBatchSizeForDepth pool.length) (maxBlobBytes env []))
        (blobCandidates pool)).1
      rw [show byArrival _ = [] from hnil] at hperm
      exact List.map_eq_nil_iff.mp hperm.nil_eq.symm
    obtain ⟨i, hi⟩ := List.mem_iff_getElem?.mp hp
    have hcandidate : (p, i) ∈ blobCandidates pool := by
      rw [blobCandidates, (List.mergeSort_perm _ _).mem_iff]
      exact List.mem_zipIdx_iff_getElem?.mpr hi
    have hfails := Selection.of_accepted_eq_nil hnone _ hcandidate
    have hbytes := hblob hname p hp
    simp [fitsBlob, maxBlobBytes] at hfails
    omega
  · intro hnil
    rcases List.take_eq_nil_iff.mp hnil with hzero | hnil
    · omega
    · exact hpool hnil

theorem someFits_of_all (hsizes : env.config.PositiveSizes) {queue : List ForcedTransaction}
    {pool : List PooledTransaction} (hwaiting : queue ≠ [] ∨ pool ≠ [])
    (hqueue : ∀ tx ∈ queue, tx.gasLimit ≤ env.config.maxGasLimit)
    (hpool : ∀ p ∈ pool, p.tx.gasLimit ≤ env.config.maxGasLimit ∧
      (env.policy.name = "BlobPacking" → p.estimatedEncodedBytes ≤ env.config.blobTargetBytes)) :
    SomeFits env queue pool := by
  rcases hwaiting with hwaiting | hwaiting
  · obtain ⟨tx, htx⟩ := List.exists_mem_of_ne_nil _ hwaiting
    exact .inl ⟨tx, htx, hqueue tx htx⟩
  · have htaken : takenAlone env pool ≠ [] := takenAlone_ne_nil hsizes hwaiting
      fun hname p hp => (hpool p hp).2 hname
    obtain ⟨p, hp⟩ := List.exists_mem_of_ne_nil _ htaken
    exact .inr ⟨p, hp, (hpool p ((takePooled_sublist ..).1.subset hp)).1⟩

/-- The call seals a batch that is not empty. -/
def Seals (env : OrchestratorEnv) (inputs : BatchInputs) (batchId nowSecs : UInt64) : Prop :=
  ∃ produced batch, produceBatch env inputs batchId nowSecs = some produced ∧
    produced.batch = some batch ∧ batch.transactions ≠ []

theorem schedule_ne_nil {forced : List ForcedTransaction} {normal ordered : List PooledTransaction}
    (hperm : ordered.Perm normal) (h : ¬(forced = [] ∧ normal = [])) :
    schedule forced ordered ≠ [] := by
  rintro hnil
  rw [schedule, List.append_eq_nil_iff, List.map_eq_nil_iff, List.map_eq_nil_iff] at hnil
  refine h ⟨hnil.1, ?_⟩
  rw [hnil.2] at hperm
  exact hperm.nil_eq.symm

theorem seals_iff {hash : List PooledTransaction → Address → ℕ} {policy : SchedulingPolicyType}
    (hpolicy : env.policy = createPolicy hash policy) (queue : List ForcedTransaction)
    (pool : List PooledTransaction) (batchId nowSecs : UInt64) :
    Seals env ⟨queue, pool.length, pool⟩ batchId nowSecs ↔
      SomeFits env queue pool ∧
        Schedulable policy ((BatchInputs.mk queue pool.length pool).normal env) := by
  rw [← selects_iff, ← produceBatch_isSome_iff hpolicy ⟨queue, pool.length, pool⟩ batchId nowSecs,
    Seals]
  have hout := produceBatch_outcome env ⟨queue, pool.length, pool⟩ batchId nowSecs
  generalize produceBatch env ⟨queue, pool.length, pool⟩ batchId nowSecs = result at hout
  cases hout with
  | nothing hforced hnormal => simp [hforced, hnormal]
  | batch hsome horder _ =>
    refine iff_of_true ⟨_, _, rfl, rfl, ?_⟩ ⟨hsome, rfl⟩
    exact schedule_ne_nil (ordered_perm hpolicy horder) hsome
  | orderPanics => simp
  | feesPanic => simp

/-- After a trigger a batch is sealed exactly when one of the transactions at hand is within the
gas limit by itself and the chosen ones can be scheduled. If every waiting transaction fits in a
batch of its own, the first holds. -/
theorem trigger_seals_iff (env : OrchestratorEnv) (hash : List PooledTransaction → Address → ℕ)
    (policy : SchedulingPolicyType) (hpolicy : env.policy = createPolicy hash policy)
    (hsizes : env.config.PositiveSizes) (queue : List ForcedTransaction)
    (pool : List PooledTransaction) (elapsedMs : ℕ) (reason : TriggerReason)
    (htrigger : shouldSeal env queue pool elapsedMs = some reason) (batchId nowSecs : UInt64) :
    (Seals env ⟨queue, pool.length, pool⟩ batchId nowSecs ↔
      SomeFits env queue pool ∧
        Schedulable policy ((BatchInputs.mk queue pool.length pool).normal env)) ∧
    ((∀ tx ∈ queue, tx.gasLimit ≤ env.config.maxGasLimit) →
      (∀ p ∈ pool, p.tx.gasLimit ≤ env.config.maxGasLimit ∧
        (env.policy.name = "BlobPacking" →
          p.estimatedEncodedBytes ≤ env.config.blobTargetBytes)) →
      SomeFits env queue pool) :=
  ⟨seals_iff hpolicy queue pool batchId nowSecs,
    someFits_of_all hsizes (waiting_of_shouldSeal hsizes htrigger)⟩

theorem trigger_seals_payment :
    shouldSeal (scheduledBatches .fcfs) [] [payment 1 0 30 1] 1000 = some .timeout ∧
      Seals (scheduledBatches .fcfs) ⟨[], 1, [payment 1 0 30 1]⟩ 1 0 := by
  have htrigger : shouldSeal (scheduledBatches .fcfs) [] [payment 1 0 30 1] 1000 =
      some .timeout := by decide +kernel
  refine ⟨htrigger, ((trigger_seals_iff (scheduledBatches .fcfs) (fun _ _ => 0) .fcfs rfl
    ⟨by decide, by decide, by decide, by decide, by decide⟩ [] [payment 1 0 30 1] 1000 .timeout
    htrigger 1 0).1).mpr ⟨.inr ⟨payment 1 0 30 1, ?_, ?_⟩, ?_, nofun⟩⟩ <;> decide +kernel

def defaultGas : OrchestratorEnv :=
  { scheduledBatches .fcfs with config := { smallBatches.config with maxGasLimit := 30000000 } }

/-- A payment with one unit of gas more is validated. The timeout triggers for it, and the call
puts it back. -/
theorem trigger_seals_nothing :
    validate namedSigner paymentCache (namedPayment 1 0 30000001).tx = some (.ok ()) ∧
      shouldSeal defaultGas [] [namedPayment 1 0 30000001] 1000 = some .timeout ∧
      produceBatch defaultGas ⟨[], 1, [namedPayment 1 0 30000001]⟩ 1 0 =
        some ⟨none, [], [namedPayment 1 0 30000001]⟩ := by
  decide +kernel

end RollupX.Sequencer
