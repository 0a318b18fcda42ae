import RollupX.Model.Executor.Service

/-! What a step of the executor's service can do. -/

namespace RollupX.Executor

variable {S : Type*} {env : ServiceEnv S} {σ σ' : Service S}

/-- The ways in which one step changes the service. -/
inductive ServiceEffect (env : ServiceEnv S) (σ : Service S) :
    ServiceEvent → Service S → Prop where
  | answered {payload : BatchPayload} {replies : List Reply} :
      ServiceEffect env σ (.publish payload) { σ with replies }
  | added {payload : BatchPayload} {job : PendingBatchJob} (hpayload : job.payload = payload)
      (hnew : ∀ state, σ.batchStates job.payload.batchId = some state →
        ∃ why, state = .failed why) :
      ServiceEffect env σ (.publish payload) (σ.addPending job)
  | enqueued {i : ℕ} {job : PendingBatchJob} {r : Reply} (hi : σ.senders[i]? = some job) :
      ServiceEffect env σ (.enqueue i)
        ({ σ with senders := σ.senders.eraseIdx i, queue := σ.queue ++ [job] }.reply r)
  | notEnqueued {i : ℕ} {job : PendingBatchJob} {why : String} {r : Reply}
      (hi : σ.senders[i]? = some job) (hw : σ.worker = .stopped) :
      ServiceEffect env σ (.enqueueFailed i)
        (({ σ with senders := σ.senders.eraseIdx i }.setBatchState job.payload.batchId
          (.failed why)).reply r)
  | cancelled {i : ℕ} {job : PendingBatchJob} (hi : σ.senders[i]? = some job) :
      ServiceEffect env σ (.cancel i) { σ with senders := σ.senders.eraseIdx i }
  | received {job : PendingBatchJob} {rest : List PendingBatchJob} (hw : σ.worker = .idle)
      (hq : σ.queue = job :: rest) :
      ServiceEffect env σ .recv { σ with queue := rest, worker := .received job }
  | began {job : PendingBatchJob} (hw : σ.worker = .received job) :
      ServiceEffect env σ .begin
        ({ σ with worker := .started job }.setBatchState job.payload.batchId .inProgress)
  | notExecuted {job : PendingBatchJob} {s : S} {e : ExecutorError} {why : String}
      (hw : σ.worker = .started job)
      (hexec : executeBatch env.rt env.mgr σ.engine job.payload.batchId job.txs =
        (s, .error e)) :
      ServiceEffect env σ .execute { σ with engine := s, worker := .failing job why }
  | executed {job : PendingBatchJob} {s : S} {trace : ExecutionTraceV1}
      (hw : σ.worker = .started job)
      (hexec : executeBatch env.rt env.mgr σ.engine job.payload.batchId job.txs =
        (s, .ok trace)) :
      ServiceEffect env σ .execute
        { σ with
          engine := s
          worker := .executed job σ.engine trace
          effects := σ.effects ++
            trace.executedTransactions.map fun tx => (job.payload.batchId, tx) }
  | failed {stage : FallibleStage} {error why : String} {job : PendingBatchJob}
      (hj : σ.worker.job = some job) (hstage : stage ∈ σ.worker.stages) :
      ServiceEffect env σ (.fail stage error) { σ with worker := .failing job why }
  | notProved {artifacts : ProofArtifacts} {job : PendingBatchJob} {pre : S}
      {trace : ExecutionTraceV1} {why : String} (hw : σ.worker = .executed job pre trace)
      (hviolates : env.violates artifacts = true) :
      ServiceEffect env σ (.prove artifacts) { σ with worker := .failing job why }
  | proved {artifacts : ProofArtifacts} {job : PendingBatchJob} {pre : S}
      {trace : ExecutionTraceV1} (hw : σ.worker = .executed job pre trace) :
      ServiceEffect env σ (.prove artifacts)
        { σ with worker := .proved job pre trace artifacts }
  | notSent {job : PendingBatchJob} {pre : S} {trace : ExecutionTraceV1}
      {artifacts : ProofArtifacts} {why : String}
      (hw : σ.worker = .proved job pre trace artifacts)
      (hnobody : σ.subscribers = 0 ∧ σ.serverReceiver = false) :
      ServiceEffect env σ .send { σ with worker := .failing job why }
  | sent {job : PendingBatchJob} {pre : S} {trace : ExecutionTraceV1}
      {artifacts : ProofArtifacts} (hw : σ.worker = .proved job pre trace artifacts) :
      ServiceEffect env σ .send
        { σ with
          worker := .sent job pre
          stream := σ.stream ++
            [buildEnrichedPayload job.payload trace artifacts.daCommitment artifacts.proof] }
  | completed {job : PendingBatchJob} {pre : S} (hw : σ.worker = .sent job pre) :
      ServiceEffect env σ .complete
        ({ σ with worker := .idle }.setBatchState job.payload.batchId .completed)
  | failureRecorded {job : PendingBatchJob} {why : String} (hw : σ.worker = .failing job why) :
      ServiceEffect env σ .recordFailure
        ({ σ with worker := .idle }.setBatchState job.payload.batchId (.failed why))
  | panicked {job : PendingBatchJob} (hj : σ.worker.job = some job) :
      ServiceEffect env σ .panic { σ with worker := .stopped, queue := [] }
  | subscribed : ServiceEffect env σ .subscribe { σ with subscribers := σ.subscribers + 1 }
  | unsubscribed : ServiceEffect env σ .unsubscribe { σ with subscribers := σ.subscribers - 1 }
  | serverStopped : ServiceEffect env σ .serverStopped { σ with serverReceiver := false }
  | reset {engine : S} {replies : List Reply} :
      ServiceEffect env σ .reset { σ with engine, replies }

/-- A published batch is answered or dropped, or it is new or failed before and becomes
pending. -/
theorem publishBatch_effect (env : ServiceEnv S) (σ : Service S) (payload : BatchPayload) :
    ServiceEffect env σ (.publish payload) (σ.publishBatch env payload) := by
  unfold Service.publishBatch
  simp only
  split
  · exact .answered
  · split
    · exact .answered
    · exact .answered
    · rename_i txs _
      split
      · exact .answered
      · exact .answered
      · exact .answered
      · rename_i why hs
        refine .added rfl ?_
        simp [hs]
      · rename_i hs
        refine .added rfl ?_
        simp [hs]

theorem execute_effect {job : PendingBatchJob} (hw : σ.worker = .started job) :
    ServiceEffect env σ .execute (σ.execute env job) := by
  unfold Service.execute
  split
  · rename_i hexec
    exact .notExecuted hw hexec
  · rename_i hexec
    exact .executed hw hexec

theorem send_effect {job : PendingBatchJob} {pre : S} {trace : ExecutionTraceV1}
    {artifacts : ProofArtifacts} (hw : σ.worker = .proved job pre trace artifacts) :
    ServiceEffect env σ .send (σ.send job pre trace artifacts) := by
  unfold Service.send
  split
  · rename_i hnobody
    exact .notSent hw hnobody
  · exact .sent hw

theorem resetState_effect (env : ServiceEnv S) (σ : Service S) :
    ServiceEffect env σ .reset (σ.resetState env) := by
  unfold Service.resetState
  split
  · exact .reset
  · split
    · exact .reset
    · exact .reset

theorem serviceStep_effect {event : ServiceEvent} (hstep : ServiceStep env σ event σ') :
    ServiceEffect env σ event σ' := by
  unfold ServiceStep at hstep
  cases event with
  | publish payload =>
    cases hstep
    exact publishBatch_effect env σ payload
  | enqueue i =>
    simp only [Service.step] at hstep
    split at hstep
    · cases hstep
    · cases hstep
    · rename_i job hi _
      split at hstep
      · cases hstep
        exact .enqueued hi
      · cases hstep
  | enqueueFailed i =>
    simp only [Service.step] at hstep
    split at hstep
    · rename_i job hi hw
      cases hstep
      exact .notEnqueued hi hw
    · cases hstep
  | cancel i =>
    simp only [Service.step] at hstep
    split at hstep
    · rename_i job hi
      cases hstep
      exact .cancelled hi
    · cases hstep
  | recv =>
    simp only [Service.step] at hstep
    split at hstep
    · rename_i job rest hw hq
      cases hstep
      exact .received hw hq
    · cases hstep
  | begin =>
    simp only [Service.step] at hstep
    split at hstep
    · rename_i job hw
      cases hstep
      exact .began hw
    · cases hstep
  | execute =>
    simp only [Service.step] at hstep
    split at hstep
    · rename_i job hw
      cases hstep
      exact execute_effect hw
    · cases hstep
  | fail stage error =>
    simp only [Service.step] at hstep
    split at hstep
    · rename_i job hj
      split at hstep
      · rename_i hstage
        cases hstep
        exact .failed hj hstage
      · cases hstep
    · cases hstep
  | prove artifacts =>
    simp only [Service.step] at hstep
    split at hstep
    · rename_i job pre trace hw
      split at hstep
      · rename_i hviolates
        cases hstep
        exact .notProved hw hviolates
      · cases hstep
        exact .proved hw
    · cases hstep
  | send =>
    simp only [Service.step] at hstep
    split at hstep
    · rename_i job pre trace artifacts hw
      cases hstep
      exact send_effect hw
    · cases hstep
  | complete =>
    simp only [Service.step] at hstep
    split at hstep
    · rename_i job pre hw
      cases hstep
      exact .completed hw
    · cases hstep
  | recordFailure =>
    simp only [Service.step] at hstep
    split at hstep
    · rename_i job why hw
      cases hstep
      exact .failureRecorded hw
    · cases hstep
  | panic =>
    simp only [Service.step] at hstep
    split at hstep
    · rename_i hw
      cases hstep
      exact .panicked (by rw [hw]; rfl)
    · rename_i hw
      cases hstep
      exact .panicked (by rw [hw]; rfl)
    · cases hstep
  | subscribe =>
    cases hstep
    exact .subscribed
  | unsubscribe =>
    cases hstep
    exact .unsubscribed
  | serverStopped =>
    cases hstep
    exact .serverStopped
  | reset =>
    cases hstep
    exact resetState_effect env σ

end RollupX.Executor
