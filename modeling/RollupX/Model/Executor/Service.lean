import RollupX.Model.Executor.Genesis
import RollupX.Model.Executor.TxEngine

/-! The executor service (`executor/src/service.rs`, `executor/src/block_constructor.rs`).

`publish_batch` records a batch as pending and sends a job to a bounded queue. One worker
takes jobs from the queue. The steps below are the points at which the two touch what they
share: the map of batch states, the queue, the engine and the stream. -/

namespace RollupX.Executor

/-- The data of a batch: what the sequencer sent, or the list of executed transactions that
the executor puts in its place. -/
inductive BatchData where
  | raw (bytes : List UInt8)
  | executed (txs : List Transaction)
  deriving DecidableEq, Repr

structure BatchPayload where
  batchId : String
  batchData : BatchData
  preStateRoot : List UInt8
  postStateRoot : List UInt8
  daCommitment : List UInt8
  proof : List UInt8
  experimentId : String
  deriving DecidableEq, Repr

def BatchPayload.executed (payload : BatchPayload) : List Transaction :=
  match payload.batchData with
  | .raw _ => []
  | .executed txs => txs

def buildEnrichedPayload (input : BatchPayload) (trace : ExecutionTraceV1)
    (daCommitment proof : List UInt8) : BatchPayload where
  batchId := input.batchId
  batchData := .executed trace.executedTransactions
  preStateRoot := trace.publicInputs.initialRoot.toList
  postStateRoot := trace.publicInputs.finalRoot.toList
  daCommitment := daCommitment
  proof := proof
  experimentId := input.experimentId

inductive BatchProcessingState where
  | pending
  | inProgress
  | completed
  | failed (reason : String)
  deriving DecidableEq, Repr

structure PendingBatchJob where
  payload : BatchPayload
  experimentId : String
  txs : List Transaction
  deriving DecidableEq, Repr

/-- What the prover returns, without its timings. -/
structure ProofArtifacts where
  proof : List UInt8
  daCommitment : List UInt8
  proofMode : String
  deriving DecidableEq, Repr

/-! ## Replies -/

inductive StatusCode where
  | invalidArgument
  | unavailable
  | internal
  deriving DecidableEq, Repr

structure Status where
  code : StatusCode
  message : String
  deriving DecidableEq, Repr

structure PublishBatchResponse where
  accepted : Bool
  message : String
  deriving DecidableEq, Repr

structure ResetStateResponse where
  success : Bool
  message : String
  deriving DecidableEq, Repr

inductive Reply where
  | publish (result : Except Status PublishBatchResponse)
  | reset (result : Except Status ResetStateResponse)

def acceptedResponse (message : String) : Reply :=
  .publish (.ok ⟨true, message⟩)

/-! ## The worker and the shared state -/

variable {S : Type*}

/-- The steps of an attempt that can fail by an error from outside the service. -/
inductive FallibleStage where
  | lifecycleGenerated
  | persistence
  | integrity
  | lifecyclePersisted
  | proofGeneration
  | lifecycleProved
  | lifecyclePublished
  deriving DecidableEq, Repr

def FallibleStage.message : FallibleStage → String → String
  | .lifecycleGenerated, e => "trace lifecycle(generated) failure: " ++ e
  | .persistence, e => "trace persistence failure: " ++ e
  | .integrity, e => "trace integrity check failed: " ++ e
  | .lifecyclePersisted, e => "trace lifecycle(persisted) failure: " ++ e
  | .proofGeneration, e => "proof generation failure: " ++ e
  | .lifecycleProved, e => "trace lifecycle(proved) failure: " ++ e
  | .lifecyclePublished, e => "trace lifecycle(published) failure: " ++ e

/-- What the worker is doing. From `execute_batch` on, `pre` is the store that the attempt
started from; only statements read it. -/
inductive WorkerPhase (S : Type*) where
  | idle
  | received (job : PendingBatchJob)
  | started (job : PendingBatchJob)
  | executed (job : PendingBatchJob) (pre : S) (trace : ExecutionTraceV1)
  | proved (job : PendingBatchJob) (pre : S) (trace : ExecutionTraceV1)
      (artifacts : ProofArtifacts)
  | sent (job : PendingBatchJob) (pre : S)
  | failing (job : PendingBatchJob) (reason : String)
  | stopped

/-- The stages that can fail in each phase. -/
def WorkerPhase.stages : WorkerPhase S → List FallibleStage
  | .executed _ _ _ =>
    [.lifecycleGenerated, .persistence, .integrity, .lifecyclePersisted, .proofGeneration]
  | .proved _ _ _ _ => [.lifecycleProved]
  | .sent _ _ => [.lifecyclePublished]
  | _ => []

def WorkerPhase.job : WorkerPhase S → Option PendingBatchJob
  | .idle => none
  | .received job => some job
  | .started job => some job
  | .executed job _ _ => some job
  | .proved job _ _ _ => some job
  | .sent job _ => some job
  | .failing job _ => some job
  | .stopped => none

/-- The service. `senders` are the handlers that wait for room in the queue. The stream has
a receiver for each subscriber and one that `run_server_from_env` holds while it runs.
`stream`, `effects` and `replies` record what was sent, which transactions an attempt has
included for which batch, and what was answered; no step reads them. -/
structure Service (S : Type*) where
  engine : S
  batchStates : String → Option BatchProcessingState
  senders : List PendingBatchJob
  queue : List PendingBatchJob
  worker : WorkerPhase S
  subscribers : ℕ
  serverReceiver : Bool
  stream : List BatchPayload
  effects : List (String × Transaction)
  replies : List Reply

def Service.start (engine : S) : Service S where
  engine := engine
  batchStates _ := none
  senders := []
  queue := []
  worker := .idle
  subscribers := 0
  serverReceiver := true
  stream := []
  effects := []
  replies := []

/-- What the service takes from outside: the engine's parameters, its settings, and the
JSON parser. -/
structure ServiceEnv (S : Type*) where
  rt : Runtime
  mgr : StateManager S
  genesis : GenesisEnv
  queueCapacity : ℕ
  experimentId : Option String
  requireRealProofs : Option String
  fromSlice : BatchData → Except String (List SequencerTransaction)

def ServiceEnv.requireReal (env : ServiceEnv S) : Bool :=
  match env.requireRealProofs with
  | some v => v == "1" || eqIgnoreAsciiCase v "true"
  | none => false

/-- The prover did not make the kind of proof that the settings ask for. -/
def ServiceEnv.violates (env : ServiceEnv S) (artifacts : ProofArtifacts) : Bool :=
  env.requireReal && artifacts.proofMode != "groth16"

namespace Service

def setBatchState (σ : Service S) (batchId : String) (state : BatchProcessingState) :
    Service S :=
  { σ with batchStates := Function.update σ.batchStates batchId (some state) }

def reply (σ : Service S) (r : Reply) : Service S :=
  { σ with replies := σ.replies ++ [r] }

/-! ## The handlers -/

/-- The job is recorded as pending and its handler starts to wait for room in the queue. -/
def addPending (σ : Service S) (job : PendingBatchJob) : Service S :=
  { σ with senders := σ.senders ++ [job] }.setBatchState job.payload.batchId .pending

/-- `publish_batch` up to the sending of the job. -/
def publishBatch (env : ServiceEnv S) (σ : Service S) (payload : BatchPayload) : Service S :=
  let batchId := payload.batchId
  let experimentId :=
    if payload.experimentId.isEmpty then env.experimentId.getD "default"
    else payload.experimentId
  match env.fromSlice payload.batchData with
  | .error e =>
    σ.reply (.publish (.error ⟨.invalidArgument, "invalid batch_data JSON: " ++ e⟩))
  | .ok parsed =>
    match normalizeTransactions parsed with
    | .error .panic => σ
    | .error (.error e) =>
      σ.reply (.publish
        (.error ⟨.invalidArgument, "invalid transaction payload: " ++ e.message⟩))
    | .ok txs =>
      match σ.batchStates batchId with
      | some .pending =>
        σ.reply
          (acceptedResponse ("batch " ++ batchId ++ " already queued for execution"))
      | some .inProgress =>
        σ.reply (acceptedResponse ("batch " ++ batchId ++ " already in progress"))
      | some .completed =>
        σ.reply (acceptedResponse ("batch " ++ batchId ++ " already processed"))
      | some (.failed _) => σ.addPending ⟨payload, experimentId, txs⟩
      | none => σ.addPending ⟨payload, experimentId, txs⟩

def resetState (env : ServiceEnv S) (σ : Service S) : Service S :=
  match env.mgr.resetToGenesis σ.engine with
  | .error (e, s) =>
    { σ with engine := s }.reply
      (.reset (.error ⟨.internal, "failed to reset state: " ++ e.message⟩))
  | .ok s =>
    match seedGenesisAccounts env.genesis env.mgr s with
    | (s', .error e) =>
      { σ with engine := s' }.reply
        (.reset (.error ⟨.internal, "failed to seed genesis state: " ++ e.message⟩))
    | (s', .ok ()) =>
      { σ with engine := s' }.reply (.reset (.ok ⟨true, "state reset to genesis"⟩))

end Service

/-! ## Steps -/

inductive ServiceEvent where
  | publish (payload : BatchPayload)
  | enqueue (i : ℕ)
  | enqueueFailed (i : ℕ)
  | cancel (i : ℕ)
  | recv
  | begin
  | execute
  | fail (stage : FallibleStage) (error : String)
  | prove (artifacts : ProofArtifacts)
  | send
  | complete
  | recordFailure
  | panic
  | subscribe
  | unsubscribe
  | serverStopped
  | reset
  deriving DecidableEq, Repr

namespace Service

/-- `execute_batch`, called by the worker on its job. -/
def execute (env : ServiceEnv S) (σ : Service S) (job : PendingBatchJob) : Service S :=
  match executeBatch env.rt env.mgr σ.engine job.payload.batchId job.txs with
  | (s, .error e) =>
    { σ with engine := s, worker := .failing job ("execution failure: " ++ e.message) }
  | (s, .ok trace) =>
    { σ with
      engine := s
      worker := .executed job σ.engine trace
      effects := σ.effects ++
        trace.executedTransactions.map fun tx => (job.payload.batchId, tx) }

/-- The payload goes to the stream, unless nobody receives it. -/
def send (σ : Service S) (job : PendingBatchJob) (pre : S) (trace : ExecutionTraceV1)
    (artifacts : ProofArtifacts) : Service S :=
  if σ.subscribers = 0 ∧ σ.serverReceiver = false then
    { σ with
      worker := .failing job
        "no stream subscribers available to receive batch: channel closed" }
  else
    { σ with
      worker := .sent job pre
      stream := σ.stream ++
        [buildEnrichedPayload job.payload trace artifacts.daCommitment artifacts.proof] }

/-- One atomic step of a handler, of the worker, or of the server around them. -/
def step (env : ServiceEnv S) (σ : Service S) : ServiceEvent → Option (Service S)
  | .publish payload => some (σ.publishBatch env payload)
  | .enqueue i =>
    match σ.senders[i]?, σ.worker with
    | none, _ => none
    | some _, .stopped => none
    | some job, _ =>
      if σ.queue.length < env.queueCapacity then
        some ({ σ with senders := σ.senders.eraseIdx i, queue := σ.queue ++ [job] }.reply
          (acceptedResponse ("batch " ++ job.payload.batchId ++
            " accepted for asynchronous execution")))
      else none
  | .enqueueFailed i =>
    match σ.senders[i]?, σ.worker with
    | some job, .stopped =>
      some (({ σ with senders := σ.senders.eraseIdx i }.setBatchState job.payload.batchId
          (.failed "queue send failed: channel closed")).reply
        (.publish (.error ⟨.unavailable, "executor queue unavailable while accepting batch " ++
          job.payload.batchId ++ ": channel closed"⟩)))
    | _, _ => none
  | .cancel i =>
    match σ.senders[i]? with
    | some _ => some { σ with senders := σ.senders.eraseIdx i }
    | none => none
  | .recv =>
    match σ.worker, σ.queue with
    | .idle, job :: rest => some { σ with queue := rest, worker := .received job }
    | _, _ => none
  | .begin =>
    match σ.worker with
    | .received job =>
      some ({ σ with worker := .started job }.setBatchState job.payload.batchId .inProgress)
    | _ => none
  | .execute =>
    match σ.worker with
    | .started job => some (σ.execute env job)
    | _ => none
  | .fail stage error =>
    match σ.worker.job with
    | some job =>
      if stage ∈ σ.worker.stages then
        some { σ with worker := .failing job (stage.message error) }
      else none
    | none => none
  | .prove artifacts =>
    match σ.worker with
    | .executed job pre trace =>
      if env.violates artifacts then
        some { σ with
          worker := .failing job
            ("real proof required but prover used mode: " ++ artifacts.proofMode) }
      else some { σ with worker := .proved job pre trace artifacts }
    | _ => none
  | .send =>
    match σ.worker with
    | .proved job pre trace artifacts => some (σ.send job pre trace artifacts)
    | _ => none
  | .complete =>
    match σ.worker with
    | .sent job _ => some ({ σ with worker := .idle }.setBatchState job.payload.batchId .completed)
    | _ => none
  | .recordFailure =>
    match σ.worker with
    | .failing job reason =>
      some ({ σ with worker := .idle }.setBatchState job.payload.batchId (.failed reason))
    | _ => none
  | .panic =>
    match σ.worker with
    | .executed _ _ _ => some { σ with worker := .stopped, queue := [] }
    | .proved _ _ _ _ => some { σ with worker := .stopped, queue := [] }
    | _ => none
  | .subscribe => some { σ with subscribers := σ.subscribers + 1 }
  | .unsubscribe => some { σ with subscribers := σ.subscribers - 1 }
  | .serverStopped => some { σ with serverReceiver := false }
  | .reset => some (σ.resetState env)

end Service

def ServiceStep (env : ServiceEnv S) (σ : Service S) (event : ServiceEvent) (σ' : Service S) :
    Prop :=
  σ.step env event = some σ'

end RollupX.Executor
