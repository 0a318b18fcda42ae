import RollupX.Verification.Sequencer.NonceOrder
import RollupX.Verification.Sequencer.ProduceBatch

/-! What a call of `produce_batch` does to the transactions, and the limits of a batch. -/

namespace RollupX.Sequencer

open Executor (Address)

variable {env : OrchestratorEnv} {hash : List PooledTransaction → Address → ℕ}
  {policy : SchedulingPolicyType}

def ProducedBatch.transactions (produced : ProducedBatch) : List Transaction :=
  (produced.batch.map Batch.transactions).getD []

theorem forced_perm (env : OrchestratorEnv) (inputs : BatchInputs) :
    (inputs.forced env ++ inputs.queueAfter env).Perm inputs.queue := by
  rw [BatchInputs.forced, BatchInputs.queueAfter, selectForced_eq]
  exact Selection.select_perm _ _

theorem normal_perm (env : OrchestratorEnv) (inputs : BatchInputs) :
    (inputs.normal env ++ inputs.poolAfter env).Perm inputs.pool :=
  (List.Perm.append_left _ List.perm_append_comm).trans (taken_perm env _ inputs.depth inputs.pool)

/-- A call seals the accepted transactions, the normal ones in some order, and leaves the
others. -/
theorem produceBatch_transactions (hpolicy : env.policy = createPolicy hash policy)
    {inputs : BatchInputs} {batchId nowSecs : UInt64} {produced : ProducedBatch}
    (h : produceBatch env inputs batchId nowSecs = some produced) :
    ∃ ordered, ordered.Perm (inputs.normal env) ∧
      produced.transactions = schedule (inputs.forced env) ordered ∧
      produced.queue = inputs.queueAfter env ∧ produced.pool = inputs.poolAfter env := by
  have hout := produceBatch_outcome env inputs batchId nowSecs
  rw [h] at hout
  cases hout with
  | nothing hforced hnormal =>
    refine ⟨[], by rw [hnormal], ?_, rfl, rfl⟩
    rw [hforced]
    rfl
  | @batch ordered _ horder _ => exact ⟨ordered, ordered_perm hpolicy horder, rfl, rfl, rfl⟩

def waiting (queue : List ForcedTransaction) (pool : List PooledTransaction) :
    List Transaction :=
  queue.map .forced ++ pool.map .normal

/-- No transaction is lost or doubled by a call, and the forced ones of the batch stand before
the normal ones. -/
theorem produceBatch_conserves (env : OrchestratorEnv)
    (hash : List PooledTransaction → Address → ℕ) (policy : SchedulingPolicyType)
    (hpolicy : env.policy = createPolicy hash policy) (inputs : BatchInputs)
    (batchId nowSecs : UInt64) (produced : ProducedBatch)
    (h : produceBatch env inputs batchId nowSecs = some produced) :
    (waiting inputs.queue inputs.pool).Perm
        (produced.transactions ++ waiting produced.queue produced.pool) ∧
      ∃ (forced : List ForcedTransaction) (normal : List PooledTransaction),
        produced.transactions = forced.map .forced ++ normal.map .normal := by
  obtain ⟨ordered, hordered, htxs, hqueue, hpool⟩ := produceBatch_transactions hpolicy h
  refine ⟨?_, _, _, htxs⟩
  have hforced := (forced_perm env inputs).map Transaction.forced
  have hnormal := ((hordered.append_right _).trans (normal_perm env inputs)).map
    Transaction.normal
  rw [List.map_append] at hforced hnormal
  rw [htxs, hqueue, hpool, schedule, waiting, waiting]
  refine (hforced.symm.append hnormal.symm).trans ?_
  simp only [List.append_assoc]
  refine List.Perm.append_left _ ?_
  rw [← List.append_assoc, ← List.append_assoc]
  exact List.perm_append_comm.append_right _

theorem produceBatch_conserves_onePayment :
    (produceBatch (scheduledBatches .feePriority)
      ⟨[deposit 0], 2, [payment 1 0 30 1, payment 2 0 30 5]⟩ 1 0).map (·.transactions) =
        some [.forced (deposit 0), .normal (payment 1 0 30 1)] ∧
      ∃ produced, produceBatch (scheduledBatches .feePriority)
          ⟨[deposit 0], 2, [payment 1 0 30 1, payment 2 0 30 5]⟩ 1 0 = some produced ∧
        (waiting [deposit 0] [payment 1 0 30 1, payment 2 0 30 5]).Perm
          (produced.transactions ++ waiting produced.queue produced.pool) := by
  have hmap : (produceBatch (scheduledBatches .feePriority)
      ⟨[deposit 0], 2, [payment 1 0 30 1, payment 2 0 30 5]⟩ 1 0).map (·.transactions) =
        some [.forced (deposit 0), .normal (payment 1 0 30 1)] := by
    decide +kernel
  obtain ⟨produced, hproduced, -⟩ := Option.map_eq_some_iff.mp hmap
  exact ⟨hmap, produced, hproduced,
    (produceBatch_conserves _ _ .feePriority rfl _ 1 0 produced hproduced).1⟩

def sumGas (txs : List Transaction) : UInt64 :=
  txs.foldl (fun gas tx => gas + tx.gasLimit) 0

theorem toNat_sumGas {txs : List Transaction} (h : gasOf txs < 2 ^ 64) :
    (sumGas txs).toNat = gasOf txs := by
  have hsum : (sumGas txs).toNat = (0 : UInt64).toNat + gasOf txs :=
    toNat_foldl_gas (by simpa using h)
  simpa using hsum

/-- The lists whose gas a call adds up while it chooses: those accepted before each forced and
before each normal transaction that it looks at. -/
inductive BatchInputs.Summed (env : OrchestratorEnv) (inputs : BatchInputs) :
    List Transaction → Prop where
  | forced {before tx after} : inputs.queue = before ++ tx :: after →
      Summed env inputs ((selectForced env.config before).1.map .forced)
  | normal {before tx after} : (inputs.pooled env).1 = before ++ tx :: after →
      Summed env inputs ((inputs.forced env).map .forced ++
        (selectNormal env.config (inputs.forced env) before).1.map .normal)

theorem withinGas_forced (c : BatchConfig) (queue : List ForcedTransaction) :
    WithinGas c ((selectForced c queue).1.map .forced) := by
  rw [selectForced_eq]
  have hstart : WithinGas c [] := fun _ => Nat.zero_le _
  exact withinGas_select hstart queue

theorem BatchInputs.withinGas (env : OrchestratorEnv) (inputs : BatchInputs)
    (txs : List PooledTransaction) :
    WithinGas env.config ((inputs.forced env).map .forced ++
      (selectNormal env.config (inputs.forced env) txs).1.map .normal) := by
  rw [selectNormal_eq]
  exact withinGas_select (withinGas_forced env.config inputs.queue) txs

theorem gasOf_perm {txs more : List Transaction} (h : txs.Perm more) : gasOf txs = gasOf more :=
  (h.map _).sum_eq

def bytesOf (txs : List Transaction) : ℕ :=
  (txs.map Transaction.estimatedEncodedBytes).sum

theorem bytesOf_append (txs more : List Transaction) :
    bytesOf (txs ++ more) = bytesOf txs + bytesOf more := by
  rw [bytesOf, List.map_append, List.sum_append, bytesOf, bytesOf]

theorem bytesOf_normal (txs : List PooledTransaction) :
    bytesOf (txs.map .normal) = (txs.map (·.estimatedEncodedBytes)).sum := by
  simp [bytesOf, Function.comp_def, Transaction.estimatedEncodedBytes]

theorem bytesOf_normal_pos {txs : List PooledTransaction} (h : txs ≠ []) :
    0 < bytesOf (txs.map .normal) := by
  obtain ⟨tx, rest, rfl⟩ := List.exists_cons_of_ne_nil h
  rw [bytesOf_normal, List.map_cons, List.sum_cons, PooledTransaction.estimatedEncodedBytes]
  omega

theorem bytesOf_normal_le (hname : env.policy.name = "BlobPacking") (inputs : BatchInputs) :
    bytesOf ((inputs.normal env).map .normal) ≤
      env.config.blobTargetBytes - bytesOf ((inputs.forced env).map .forced) := by
  have htaken : ((inputs.pooled env).1.map (·.estimatedEncodedBytes)).sum ≤
      maxBlobBytes env (inputs.forced env) := by
    rw [BatchInputs.pooled, takePooled, if_pos hname, takeBlobPacked_eq, sum_byArrival]
    exact (select_fitsBlob_le ..).2
  have hsub := (selectNormal_sublist env.config (inputs.forced env) (inputs.pooled env).1).1
  rw [bytesOf_normal]
  calc ((inputs.normal env).map (·.estimatedEncodedBytes)).sum
      ≤ ((inputs.pooled env).1.map (·.estimatedEncodedBytes)).sum :=
        (hsub.map _).sum_le_sum fun _ _ => Nat.zero_le _
    _ ≤ maxBlobBytes env (inputs.forced env) := htaken
    _ = env.config.blobTargetBytes - bytesOf ((inputs.forced env).map .forced) := by
        simp [maxBlobBytes, bytesOf, Function.comp_def]

/-- A batch is within the gas limit, and no sum of gas limits overflows. With blob packing, a
batch with normal transactions is within the bytes of a blob. -/
theorem batch_withinLimits (env : OrchestratorEnv) (hash : List PooledTransaction → Address → ℕ)
    (policy : SchedulingPolicyType) (hpolicy : env.policy = createPolicy hash policy)
    (hmax : env.config.maxGasLimit.toNat < 2 ^ 64 - 1) (inputs : BatchInputs)
    (batchId nowSecs : UInt64) :
    (∀ txs, inputs.Summed env txs → (sumGas txs).toNat = gasOf txs) ∧
      ∀ produced batch, produceBatch env inputs batchId nowSecs = some produced →
        produced.batch = some batch →
          gasOf batch.transactions ≤ env.config.maxGasLimit.toNat ∧
          (sumGas batch.transactions).toNat = gasOf batch.transactions ∧
          (policy = .blobPacking → batch.normal ≠ [] →
            bytesOf batch.transactions ≤ env.config.blobTargetBytes) := by
  have hexact : ∀ txs, WithinGas env.config txs → (sumGas txs).toNat = gasOf txs := by
    intro txs hwithin
    have hle := hwithin hmax
    exact toNat_sumGas (by omega)
  constructor
  · intro txs hsummed
    cases hsummed with
    | forced _ => exact hexact _ (withinGas_forced env.config _)
    | normal _ => exact hexact _ (inputs.withinGas env _)
  · intro produced batch h hbatch
    obtain ⟨ordered, horder, rfl⟩ := produceBatch_batch h hbatch
    have hperm := ordered_perm hpolicy horder
    have hschedule : (schedule (inputs.forced env) ordered).Perm
        (schedule (inputs.forced env) (inputs.normal env)) :=
      (hperm.map _).append_left _
    have hwithin : WithinGas env.config (schedule (inputs.forced env) ordered) := by
      rw [WithinGas, gasOf_perm hschedule]
      exact inputs.withinGas env _
    refine ⟨hwithin hmax, hexact _ hwithin, ?_⟩
    rintro rfl hnormal
    rw [normal_schedule] at hnormal
    have hname : env.policy.name = "BlobPacking" := by rw [hpolicy]; rfl
    have hbytes := bytesOf_normal_le hname inputs
    have hpos := bytesOf_normal_pos hnormal
    have heq : bytesOf (ordered.map .normal) = bytesOf ((inputs.normal env).map .normal) :=
      ((hperm.map _).map _).sum_eq
    rw [schedule, bytesOf_append]
    omega

theorem batch_withinLimits_packed :
    ∃ produced batch, produceBatch (scheduledBatches .blobPacking)
        ⟨[deposit 0], 1, [payment 1 0 30 1]⟩ 1 0 = some produced ∧
      produced.batch = some batch ∧
      batch.transactions = [.forced (deposit 0), .normal (payment 1 0 30 1)] ∧
      gasOf batch.transactions ≤ 100 ∧ bytesOf batch.transactions ≤ 131072 := by
  let inputs : BatchInputs := ⟨[deposit 0], 1, [payment 1 0 30 1]⟩
  have hname : (scheduledBatches .blobPacking).policy.name = "BlobPacking" := rfl
  have hpooled : inputs.pooled (scheduledBatches .blobPacking) = ([payment 1 0 30 1], []) := by
    rw [BatchInputs.pooled, takePooled, if_pos hname]
    exact takeBlobPacked_all (by decide +kernel) (by decide +kernel)
  have hnormal : inputs.normal (scheduledBatches .blobPacking) = [payment 1 0 30 1] := by
    rw [BatchInputs.normal, hpooled]
    decide +kernel
  have hproduced : produceBatch (scheduledBatches .blobPacking) inputs 1 0 =
      some ⟨some ⟨1, [.forced (deposit 0), .normal (payment 1 0 30 1)], Vector.replicate 32 0, 0⟩,
        [], inputs.poolAfter (scheduledBatches .blobPacking)⟩ := by
    rw [produceBatch_eq, hnormal]
    rfl
  obtain ⟨hgas, -, hbytes⟩ := (batch_withinLimits (scheduledBatches .blobPacking) _ .blobPacking
    rfl (by decide) inputs 1 0).2 _ _ hproduced rfl
  exact ⟨_, _, hproduced, rfl, rfl, hgas, hbytes rfl (by decide)⟩

theorem targetBatchSizeForDepth_le (c : BatchConfig) (depth : ℕ) :
    c.targetBatchSizeForDepth depth ≤ c.maxBatchSize := by
  simp only [BatchConfig.targetBatchSizeForDepth, BatchConfig.forDepth]
  split_ifs <;> simp

theorem length_pooled_le (env : OrchestratorEnv) (inputs : BatchInputs) :
    (inputs.pooled env).1.length ≤ maxNormal env (inputs.forced env) inputs.depth := by
  rw [BatchInputs.pooled, takePooled]
  split_ifs
  · rw [takeBlobPacked_eq, (byArrival_perm _).length_eq, List.length_map]
    exact (select_fitsBlob_le ..).1
  · exact List.length_take_le ..

theorem length_normal_le (env : OrchestratorEnv) (inputs : BatchInputs) :
    (inputs.normal env).length ≤ env.config.maxBatchSize - (inputs.forced env).length :=
  calc (inputs.normal env).length
      ≤ (inputs.pooled env).1.length := (selectNormal_sublist ..).1.length_le
    _ ≤ maxNormal env (inputs.forced env) inputs.depth := length_pooled_le env inputs
    _ ≤ env.config.maxBatchSize - (inputs.forced env).length :=
        Nat.sub_le_sub_right (targetBatchSizeForDepth_le _ _) _

/-- How many forced transactions the gas limit admits, when each that does not fit after those
before it is passed over. -/
def countFitting (c : BatchConfig) (current : List Transaction) : List ForcedTransaction → ℕ
  | [] => 0
  | tx :: txs =>
    if canAddTransaction c current (.forced tx) then
      countFitting c (current ++ [.forced tx]) txs + 1
    else countFitting c current txs

theorem length_selectForced (c : BatchConfig) (queue : List ForcedTransaction) :
    (selectForced c queue).1.length = countFitting c [] queue := by
  have hfold : ∀ accepted deferred, (queue.foldl (Selection.step fun accepted tx =>
      canAddTransaction c (accepted.map .forced) (.forced tx)) (accepted, deferred)).1.length =
        accepted.length + countFitting c (accepted.map .forced) queue := by
    induction queue with
    | nil => simp [countFitting]
    | cons tx queue ih =>
      intro accepted deferred
      rw [List.foldl_cons, Selection.step, countFitting]
      split_ifs with hadd
      · rw [ih, List.length_append, List.map_append, List.length_singleton]
        simp only [List.map_cons, List.map_nil]
        omega
      · exact ih accepted _
  have hstart := hfold [] []
  rwa [List.length_nil, Nat.zero_add] at hstart

/-- A batch is within the size limit exactly when the gas limit admits no more forced
transactions than that. They are not counted. -/
theorem batch_size_iff (env : OrchestratorEnv) (hash : List PooledTransaction → Address → ℕ)
    (policy : SchedulingPolicyType) (hpolicy : env.policy = createPolicy hash policy)
    (inputs : BatchInputs) (batchId nowSecs : UInt64) (produced : ProducedBatch) (batch : Batch)
    (h : produceBatch env inputs batchId nowSecs = some produced)
    (hbatch : produced.batch = some batch) :
    batch.transactions.length ≤ env.config.maxBatchSize ↔
      countFitting env.config [] inputs.queue ≤ env.config.maxBatchSize := by
  obtain ⟨ordered, horder, rfl⟩ := produceBatch_batch h hbatch
  have hordered := (ordered_perm hpolicy horder).length_eq
  have hnormal := length_normal_le env inputs
  have hforced : (inputs.forced env).length = countFitting env.config [] inputs.queue :=
    length_selectForced env.config inputs.queue
  rw [schedule, List.length_append, List.length_map, List.length_map, hordered, ← hforced]
  omega

theorem batch_size_onePayment :
    ∃ produced batch, produceBatch (scheduledBatches .fcfs)
        ⟨[deposit 0], 1, [payment 1 0 30 1]⟩ 1 0 = some produced ∧
      produced.batch = some batch ∧ countFitting smallBatches.config [] [deposit 0] ≤ 10 ∧
      batch.transactions.length ≤ 10 := by
  have hsome : ((produceBatch (scheduledBatches .fcfs)
      ⟨[deposit 0], 1, [payment 1 0 30 1]⟩ 1 0).bind (·.batch)).isSome = true := by
    decide +kernel
  obtain ⟨batch, hbind⟩ := Option.isSome_iff_exists.mp hsome
  obtain ⟨produced, hproduced, hbatch⟩ := Option.bind_eq_some_iff.mp hbind
  have hfits : countFitting smallBatches.config [] [deposit 0] ≤ 10 := by decide
  exact ⟨produced, batch, hproduced, hbatch, hfits,
    (batch_size_iff (scheduledBatches .fcfs) (fun _ _ => 0) .fcfs rfl _ 1 0 produced batch hproduced
      hbatch).mpr hfits⟩

/-- Eleven deposits within the gas limit, in batches of at most ten transactions. -/
theorem batch_exceeds_size :
    ((produceBatch
        { scheduledBatches .fcfs with config := { smallBatches.config with maxGasLimit := 1000 } }
        ⟨List.replicate 11 (deposit 0), 0, []⟩ 1 0).bind (·.batch)).map (·.transactions.length) =
          some 11 ∧
      smallBatches.config.maxBatchSize = 10 := by
  decide +kernel

end RollupX.Sequencer
