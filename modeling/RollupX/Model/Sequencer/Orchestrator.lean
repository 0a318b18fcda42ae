import Mathlib.Data.List.Sort
import RollupX.Model.Sequencer.Types

/-! The batch orchestrator (`sequencer/src/batch/orchestrator.rs`, `batch/engine.rs`,
`batch/trigger.rs`, `pool/forced_queue.rs`, `pool/tx_pool.rs`, `scheduler/scheduler.rs`).

The queue and the pool are shared with the listener on L1 and the API server, and each
access takes a lock of its own. The orchestrator is therefore a machine with one atomic
step per access, and its local variables are part of its phase. -/

namespace RollupX.Sequencer

open Executor (Hash eqIgnoreAsciiCase)

/-- The settings of a batch. `blobFillBytes` is the product of `blob_target_bytes` and the
fraction `blob_fill_target`, which the source computes in floating point. -/
structure BatchConfig where
  maxBatchSize : ℕ
  timeoutIntervalMs : ℕ
  minBatchSize : ℕ
  maxGasLimit : UInt64
  batchPolicy : String
  adaptiveLowLoadThreshold : ℕ
  adaptiveMediumLoadThreshold : ℕ
  adaptiveSmallBatchSize : ℕ
  adaptiveMediumBatchSize : ℕ
  adaptiveLargeBatchSize : ℕ
  adaptiveSmallTimeoutMs : ℕ
  adaptiveMediumTimeoutMs : ℕ
  adaptiveLargeTimeoutMs : ℕ
  blobTargetBytes : ℕ
  blobFillBytes : ℕ

/-- The trait `SchedulingPolicy`. An ordering that panics is `none`. -/
structure SchedulingPolicy where
  name : String
  orderTransactions : List PooledTransaction → Option (List PooledTransaction)

structure OrchestratorEnv where
  config : BatchConfig
  policy : SchedulingPolicy
  daMode : String

/-! ## Trigger -/

inductive TriggerReason where
  | forcedTransactions
  | sizeThreshold
  | timeout
  deriving DecidableEq, Repr

/-- The setting for the load at a pool depth. -/
def BatchConfig.forDepth (c : BatchConfig) (small medium large fixed : ℕ) (pending : ℕ) : ℕ :=
  if eqIgnoreAsciiCase c.batchPolicy "adaptive" then
    if pending < c.adaptiveLowLoadThreshold then small
    else if pending ≤ c.adaptiveMediumLoadThreshold then medium
    else large
  else fixed

def BatchConfig.targetBatchSizeForDepth (c : BatchConfig) : ℕ → ℕ :=
  c.forDepth (min c.adaptiveSmallBatchSize c.maxBatchSize)
    (min c.adaptiveMediumBatchSize c.maxBatchSize)
    (min c.adaptiveLargeBatchSize c.maxBatchSize) c.maxBatchSize

def BatchConfig.timeoutForDepth (c : BatchConfig) : ℕ → ℕ :=
  c.forDepth c.adaptiveSmallTimeoutMs c.adaptiveMediumTimeoutMs c.adaptiveLargeTimeoutMs
    c.timeoutIntervalMs

/-- `should_seal` from its first read to its last, when nothing is added in between. -/
def shouldSeal (env : OrchestratorEnv) (queue : List ForcedTransaction)
    (pool : List PooledTransaction) (elapsedMs : ℕ) : Option TriggerReason :=
  if 0 < queue.length then some .forcedTransactions
  else
    let normalCount := pool.length
    let totalBytes := (pool.map PooledTransaction.estimatedEncodedBytes).sum
    if env.config.targetBatchSizeForDepth normalCount ≤ normalCount then some .sizeThreshold
    else if eqIgnoreAsciiCase env.daMode "blob" ∧
        env.config.blobFillBytes ≤ totalBytes ∧ 0 < totalBytes then some .sizeThreshold
    else if env.config.timeoutForDepth normalCount ≤ elapsedMs ∧
        (env.config.minBatchSize ≤ normalCount ∨ 0 < normalCount) then some .timeout
    else none

/-! ## Selection -/

/-- Gas sums wrap, as `sum` does in the release build. -/
def canAddTransaction (c : BatchConfig) (current : List Transaction) (new : Transaction) :
    Bool :=
  let currentGas := current.foldl (fun gas tx => gas + tx.gasLimit) 0
  Bytes.saturatingAdd currentGas new.gasLimit ≤ c.maxGasLimit

/-- The loop over the forced transactions: those accepted, and those deferred. -/
def selectForced (c : BatchConfig) (txs : List ForcedTransaction) :
    List ForcedTransaction × List ForcedTransaction :=
  txs.foldl (fun (accepted, deferred) tx =>
    if canAddTransaction c (accepted.map .forced) (.forced tx) then (accepted ++ [tx], deferred)
    else (accepted, deferred ++ [tx])) ([], [])

/-- The loop over the normal transactions, after the forced ones. -/
def selectNormal (c : BatchConfig) (forced : List ForcedTransaction)
    (txs : List PooledTransaction) : List PooledTransaction × List PooledTransaction :=
  txs.foldl (fun (accepted, deferred) tx =>
    if canAddTransaction c (forced.map .forced ++ accepted.map .normal) (.normal tx) then
      (accepted ++ [tx], deferred)
    else (accepted, deferred ++ [tx])) ([], [])

/-- `take_blob_packed`: larger transactions first, then higher gas prices, then earlier
ones; both parts return to their order of arrival. Gives what is taken and the bytes of it, and
what stays in the pool. A pool that fits in memory has less than `usize::MAX` bytes, so no sum
of them saturates. -/
def TransactionPool.takeBlobPacked (maxCount maxBytes : ℕ) (pool : List PooledTransaction) :
    (List PooledTransaction × ℕ) × List PooledTransaction :=
  let before (a b : PooledTransaction × ℕ) : Bool :=
    let sizeA := a.1.estimatedEncodedBytes
    let sizeB := b.1.estimatedEncodedBytes
    if sizeA ≠ sizeB then sizeB < sizeA
    else if a.1.tx.gasPrice ≠ b.1.tx.gasPrice then b.1.tx.gasPrice < a.1.tx.gasPrice
    else a.2 ≤ b.2
  let pick := fun (selected, remainder, used) (c : PooledTransaction × ℕ) =>
    let size := c.1.estimatedEncodedBytes
    if selected.length < maxCount ∧ used + size ≤ maxBytes then
      (selected ++ [c], remainder, used + size)
    else (selected, remainder ++ [c], used)
  let (selected, remainder, used) := (pool.zipIdx.mergeSort before).foldl pick ([], [], 0)
  let byArrival := fun (cs : List (PooledTransaction × ℕ)) =>
    (cs.mergeSort fun a b => a.2 ≤ b.2).map Prod.fst
  ((byArrival selected, used), byArrival remainder)

/-- The transactions of `take_blob_packed`, without their bytes, which the caller ignores. -/
def takeBlobPacked (maxCount maxBytes : ℕ) (pool : List PooledTransaction) :
    List PooledTransaction × List PooledTransaction :=
  let (taken, rest) := TransactionPool.takeBlobPacked maxCount maxBytes pool
  (taken.1, rest)

/-- `Scheduler::schedule`: forced transactions first, then the others as ordered. -/
def schedule (forced : List ForcedTransaction) (ordered : List PooledTransaction) :
    List Transaction :=
  forced.map .forced ++ ordered.map .normal

/-! ## Fee metrics -/

def Transaction.fee : Transaction → U256
  | .normal ptx => ptx.tx.gasPrice
  | .forced _ => 0

/-- One round of the loops that add up the fees. They pass over forced transactions. -/
def addFee (fee : U256) : Transaction → U256
  | .normal ptx => fee.saturatingAdd ptx.tx.gasPrice
  | .forced _ => fee

def collectFees (txs : List Transaction) : U256 :=
  txs.foldl addFee 0

/-- The highest fees come first. Like `sort_by`, the sort is stable. -/
def sortedByFee (txs : List Transaction) : List Transaction :=
  txs.insertionSort fun a b => b.fee ≤ a.fee

/-- `F` is the type `f64`. -/
structure MevMetrics (F : Type) where
  actualBatchFeeWei : U256
  optimalBatchFeeWei : U256
  orderingEfficiency : F
  reorderingEvents : ℕ
  maxReorderDistance : ℕ
  deriving DecidableEq, Repr

/-- The metrics on fees of `produce_batch`, for its `ordered_txs`; `none` where a conversion
panics. `asF64` converts a `u128`. -/
def mevMetrics {F : Type} [One F] [Div F] (asF64 : ℕ → F) (orderedTxs : List Transaction) :
    Option (MevMetrics F) := do
  let actualFee := collectFees orderedTxs
  let optimalFee := collectFees (sortedByFee orderedTxs)
  let orderingEfficiency ← if optimalFee = 0 then some 1
    else do
      let actual ← actualFee.asU128
      let optimal ← optimalFee.asU128
      pure (asF64 actual / asF64 optimal)
  pure ⟨actualFee, optimalFee, orderingEfficiency, 0, 0⟩

/-- Whether the conversions of `produce_batch` to `u128` return, those of the single gas prices
and those of the metrics. They do not depend on the type of the efficiency. -/
def feesFit (orderedTxs : List Transaction) : Bool :=
  orderedTxs.all (·.fee.asU128.isSome) && (mevMetrics (fun n => (n : ℚ)) orderedTxs).isSome

/-! ## One call -/

/-- What a call of `produce_batch` reads: the queue, the number of pending transactions and the
pool. Each is read at its own time, so the number need not be the length of the pool. -/
structure BatchInputs where
  queue : List ForcedTransaction
  depth : ℕ
  pool : List PooledTransaction
  deriving DecidableEq, Repr

/-- The batch of a call, if there is one, with what the call leaves in the queue and in the pool
of that which it has read. -/
structure ProducedBatch where
  batch : Option Batch
  queue : List ForcedTransaction
  pool : List PooledTransaction
  deriving DecidableEq, Repr

/-- `produce_batch` from its first statement to its last; `none` where it panics. -/
def produceBatch (env : OrchestratorEnv) (inputs : BatchInputs) (batchId nowSecs : UInt64) :
    Option ProducedBatch :=
  let (accepted, deferredForced) := selectForced env.config inputs.queue
  let maxNormal := env.config.targetBatchSizeForDepth inputs.depth - accepted.length
  let blobBytes := env.config.blobTargetBytes -
    (accepted.map fun tx => (Transaction.forced tx).estimatedEncodedBytes).sum
  let (taken, rest) := if env.policy.name = "BlobPacking" then
      takeBlobPacked maxNormal blobBytes inputs.pool
    else (inputs.pool.take maxNormal, inputs.pool.drop maxNormal)
  let (normal, deferredNormal) := selectNormal env.config accepted taken
  if accepted = [] ∧ normal = [] then some ⟨none, deferredForced, rest ++ deferredNormal⟩
  else
    match env.policy.orderTransactions normal with
    | none => none
    | some ordered =>
      if feesFit (schedule accepted ordered) then
        some ⟨some ⟨batchId, schedule accepted ordered, Vector.replicate 32 0, nowSecs⟩,
          deferredForced, rest ++ deferredNormal⟩
      else none

/-! ## The loop -/

/-- Where the orchestrator stands, with its local variables. -/
inductive OrchestratorPhase where
  | loopTop
  | checkSize
  | checkBlob (normalCount : ℕ)
  | checkTimeout (normalCount : ℕ)
  | triggered (reason : TriggerReason)
  | requeueForced (accepted deferred : List ForcedTransaction)
  | countPool (accepted : List ForcedTransaction)
  | takeNormal (accepted : List ForcedTransaction) (depth : ℕ)
  | requeueNormal (accepted : List ForcedTransaction) (normal deferred : List PooledTransaction)
  | sealing (accepted : List ForcedTransaction) (normal : List PooledTransaction)
  | bookkeeping
  | publishing
  | panicked
  deriving DecidableEq, Repr

/-- The orchestrator with the queue and the pool. `sealed` lists the batches it has made. -/
structure Orchestrator where
  queue : List ForcedTransaction
  pool : List PooledTransaction
  nextBatchId : UInt64
  sealed : List Batch
  phase : OrchestratorPhase
  deriving DecidableEq, Repr

def Orchestrator.start (nextBatchId : UInt64) : Orchestrator :=
  ⟨[], [], max nextBatchId 1, [], .loopTop⟩

/-- The clock at a step of the orchestrator: the time since the last batch, and now. -/
structure Tick where
  elapsedMs : ℕ
  nowSecs : UInt64
  deriving DecidableEq, Repr

inductive OrchestratorEvent where
  | addForced (tx : ForcedTransaction)
  | addPooled (tx : PooledTransaction)
  | tick (t : Tick)
  deriving DecidableEq, Repr

/-- The next atomic step of `BatchOrchestrator::start` and `produce_batch`. In the phase
`triggered` it is the first `get_all` with the selection from what it returns, and in
`bookkeeping` the second one, of which only the length is used. -/
def Orchestrator.tick (env : OrchestratorEnv) (o : Orchestrator) (t : Tick) :
    Option Orchestrator :=
  match o.phase with
  | .loopTop =>
    some { o with phase := if 0 < o.queue.length then .triggered .forcedTransactions
      else .checkSize }
  | .checkSize =>
    let count := o.pool.length
    some { o with phase := if env.config.targetBatchSizeForDepth count ≤ count then
        .triggered .sizeThreshold
      else if eqIgnoreAsciiCase env.daMode "blob" then .checkBlob count
      else .checkTimeout count }
  | .checkBlob count =>
    let bytes := (o.pool.map PooledTransaction.estimatedEncodedBytes).sum
    some { o with phase := if env.config.blobFillBytes ≤ bytes ∧ 0 < bytes then
        .triggered .sizeThreshold
      else .checkTimeout count }
  | .checkTimeout count =>
    some { o with phase := if env.config.timeoutForDepth count ≤ t.elapsedMs ∧
        (env.config.minBatchSize ≤ count ∨ 0 < count) then .triggered .timeout
      else .loopTop }
  | .triggered _ =>
    let (accepted, deferred) := selectForced env.config o.queue
    some { o with queue := [], phase := .requeueForced accepted deferred }
  | .requeueForced accepted [] => some { o with phase := .countPool accepted }
  | .requeueForced accepted (tx :: deferred) =>
    some { o with queue := o.queue ++ [tx], phase := .requeueForced accepted deferred }
  | .countPool accepted => some { o with phase := .takeNormal accepted o.pool.length }
  | .takeNormal accepted depth =>
    let maxNormal := env.config.targetBatchSizeForDepth depth - accepted.length
    let blobBytes := env.config.blobTargetBytes -
      (accepted.map fun tx => (Transaction.forced tx).estimatedEncodedBytes).sum
    let (taken, rest) := if env.policy.name = "BlobPacking" then
        takeBlobPacked maxNormal blobBytes o.pool
      else (o.pool.take maxNormal, o.pool.drop maxNormal)
    let (normal, deferred) := selectNormal env.config accepted taken
    some { o with pool := rest, phase := .requeueNormal accepted normal deferred }
  | .requeueNormal accepted normal [] =>
    some { o with phase := if accepted = [] ∧ normal = [] then .loopTop
      else .sealing accepted normal }
  | .requeueNormal accepted normal (tx :: deferred) =>
    some { o with pool := o.pool ++ [tx], phase := .requeueNormal accepted normal deferred }
  | .sealing accepted normal =>
    match env.policy.orderTransactions normal with
    | none => some { o with phase := .panicked }
    | some ordered =>
      if feesFit (schedule accepted ordered) then
        some { o with
          nextBatchId := o.nextBatchId + 1
          sealed := o.sealed ++
            [⟨o.nextBatchId, schedule accepted ordered, Vector.replicate 32 0, t.nowSecs⟩]
          phase := .bookkeeping }
      else some { o with phase := .panicked }
  | .bookkeeping =>
    some { o with queue := [], phase := .publishing }
  | .publishing => some { o with phase := .loopTop }
  | .panicked => none

def Orchestrator.step (env : OrchestratorEnv) (o : Orchestrator) :
    OrchestratorEvent → Option Orchestrator
  | .addForced tx => some { o with queue := o.queue ++ [tx] }
  | .addPooled tx => some { o with pool := o.pool ++ [tx] }
  | .tick t => o.tick env t

def OrchestratorStep (env : OrchestratorEnv) (o : Orchestrator) (event : OrchestratorEvent)
    (o' : Orchestrator) : Prop :=
  o.step env event = some o'

/-! ## Calls by themselves -/

/-- From the start of `produce_batch` to its end. -/
def OrchestratorPhase.producing : OrchestratorPhase → Bool
  | .triggered _ => true
  | .requeueForced _ _ => true
  | .countPool _ => true
  | .takeNormal _ _ => true
  | .requeueNormal _ _ _ => true
  | .sealing _ _ => true
  | _ => false

/-- A call of `produce_batch`, or a step of the call or of another task. -/
inductive CallEvent where
  | call (reason : TriggerReason)
  | step (event : OrchestratorEvent)
  deriving DecidableEq, Repr

/-- Calls of `produce_batch`, one after another, while others add to the queue and to the pool.
Nothing is done between the calls. -/
def Orchestrator.callStep (env : OrchestratorEnv) (o : Orchestrator) :
    CallEvent → Option Orchestrator
  | .call reason =>
    if o.phase.producing ∨ o.phase = .panicked then none
    else some { o with phase := .triggered reason }
  | .step (.tick t) => if o.phase.producing then o.tick env t else none
  | .step event => o.step env event

def ProduceStep (env : OrchestratorEnv) (o : Orchestrator) (event : CallEvent)
    (o' : Orchestrator) : Prop :=
  o.callStep env event = some o'

def Transaction.asForced : Transaction → Option ForcedTransaction
  | .forced inner => some inner
  | .normal _ => none

def Batch.forced (batch : Batch) : List ForcedTransaction :=
  batch.transactions.filterMap Transaction.asForced

def Transaction.asNormal : Transaction → Option PooledTransaction
  | .normal tx => some tx
  | .forced _ => none

def Batch.normal (batch : Batch) : List PooledTransaction :=
  batch.transactions.filterMap Transaction.asNormal

end RollupX.Sequencer
