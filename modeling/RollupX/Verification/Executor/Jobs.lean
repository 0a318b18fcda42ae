import RollupX.Library.JobBoard
import RollupX.Verification.Executor.Service

/-! The jobs of the executor. A job is made by a handler of `publish_batch`, waits for room in the
queue, and is taken up by the worker. -/

namespace RollupX.Executor

open Machine

variable {S : Type*} {env : ServiceEnv S}

def jobStatus : Option BatchProcessingState → JobStatus
  | none => .unclaimed
  | some .pending => .active
  | some .inProgress => .active
  | some .completed => .done
  | some (.failed _) => .unclaimed

def Service.board (σ : Service S) : JobBoard String :=
  ⟨fun batchId => jobStatus (σ.batchStates batchId), σ.live⟩

def ServiceEvent.dropsJob : ServiceEvent → Bool
  | .cancel _ => true
  | .panic => true
  | _ => false

theorem jobStatus_eq_active_iff (state : Option BatchProcessingState) :
    jobStatus state = .active ↔ state = some .pending ∨ state = some .inProgress := by
  cases state with
  | none => simp [jobStatus]
  | some state => cases state <;> simp [jobStatus]

theorem jobStatus_eq_done_iff (state : Option BatchProcessingState) :
    jobStatus state = .done ↔ state = some .completed := by
  cases state with
  | none => simp [jobStatus]
  | some state => cases state <;> simp [jobStatus]

namespace Service

variable {σ σ' : Service S}

theorem board_status_update (σ : Service S) (batchId : String) (state : BatchProcessingState) :
    (σ.setBatchState batchId state).board.status =
      Function.update σ.board.status batchId (jobStatus (some state)) := by
  funext other
  by_cases h : other = batchId
  · simp [board, setBatchState, h]
  · simp [board, setBatchState, h]

theorem live_perm_of_getElem? {i : ℕ} {job : PendingBatchJob} (hi : σ.senders[i]? = some job) :
    σ.live.Perm
      (job.payload.batchId :: ({ σ with senders := σ.senders.eraseIdx i } : Service S).live) := by
  obtain ⟨hlt, rfl⟩ := List.getElem?_eq_some_iff.mp hi
  have herase : (σ.senders[i] :: σ.senders.eraseIdx i).Perm σ.senders :=
    List.getElem_cons_eraseIdx_perm hlt
  simp only [live, List.map_append, List.append_assoc]
  exact ((herase.map _).append_right _).symm

theorem live_perm_of_job {job : PendingBatchJob} {w : WorkerPhase S}
    (hj : σ.worker.job = some job) (hw : w.job = none) :
    σ.live.Perm (job.payload.batchId :: ({ σ with worker := w } : Service S).live) := by
  simp only [live, hj, hw, Option.toList_some, Option.toList_none, List.map_append,
    List.map_singleton, List.append_nil]
  exact List.perm_append_singleton _ _

theorem live_of_worker {w : WorkerPhase S} (hw : w.job = σ.worker.job) :
    ({ σ with worker := w } : Service S).live = σ.live := by
  simp [live, hw]

theorem board_shift (hstates : σ'.batchStates = σ.batchStates) (hlive : σ'.live.Perm σ.live) :
    ∃ m, σ.board.Step m σ'.board ∧ m.abandons = false := by
  refine ⟨.shift, .shift ?_ hlive, rfl⟩
  simp [board, hstates]

theorem board_addPending {job : PendingBatchJob}
    (hnew : ∀ state, σ.batchStates job.payload.batchId = some state → ∃ why, state = .failed why) :
    ∃ m, σ.board.Step m (σ.addPending job).board ∧ m.abandons = false := by
  refine ⟨.submit job.payload.batchId, .submit ?_ (board_status_update _ _ _) ?_, rfl⟩
  · cases hstate : σ.batchStates job.payload.batchId with
    | none => simp [board, hstate, jobStatus]
    | some state =>
      obtain ⟨why, rfl⟩ := hnew state hstate
      simp [board, hstate, jobStatus]
  · simp only [board, live, addPending, setBatchState, List.map_append, List.map_singleton,
      List.append_assoc]
    exact List.perm_middle

theorem board_finish {job : PendingBatchJob} {state : BatchProcessingState}
    (hj : σ.worker.job = some job) (hstate : jobStatus (some state) ≠ .active) :
    ∃ m, σ.board.Step m
        (({ σ with worker := .idle } : Service S).setBatchState job.payload.batchId state).board ∧
      m.abandons = false :=
  ⟨.finish job.payload.batchId (jobStatus (some state)),
    .finish hstate (live_perm_of_job hj rfl) (board_status_update _ _ _), rfl⟩

theorem board_panic {job : PendingBatchJob} (hj : σ.worker.job = some job) :
    ∃ m, σ.board.Step m ({ σ with worker := .stopped, queue := [] } : Service S).board ∧
      m.abandons = true := by
  refine ⟨.abandon ((σ.queue ++ [job]).map fun job => job.payload.batchId),
    .abandon (by simp) rfl ?_, rfl⟩
  have hperm : (σ.senders ++ σ.queue ++ σ.worker.job.toList).Perm
      (σ.queue ++ [job] ++ σ.senders) := by
    rw [hj, List.append_assoc]
    exact List.perm_append_comm
  simpa [board, live, WorkerPhase.job] using hperm.map fun job => job.payload.batchId

end Service

/-- Each step of the service is a move of the board. -/
theorem refines_board (env : ServiceEnv S) :
    JobBoard.Refines (ServiceStep env) Service.board ServiceEvent.dropsJob := by
  intro σ event σ' hstep
  cases serviceStep_effect hstep with
  | answered | subscribed | unsubscribed | serverStopped | reset =>
    exact Service.board_shift rfl (.refl _)
  | added _ hnew => exact Service.board_addPending hnew
  | @enqueued i job _ hi =>
    refine Service.board_shift rfl ?_
    refine List.Perm.trans ?_ (Service.live_perm_of_getElem? hi).symm
    have hperm : (σ.senders.eraseIdx i ++ (σ.queue ++ [job]) ++ σ.worker.job.toList).Perm
        (job :: (σ.senders.eraseIdx i ++ σ.queue ++ σ.worker.job.toList)) := by
      rw [← List.append_assoc, List.append_assoc _ [job]]
      exact List.perm_middle
    exact hperm.map _
  | @notEnqueued _ job _ _ hi hw =>
    exact ⟨.finish job.payload.batchId .unclaimed,
      .finish (by simp) (Service.live_perm_of_getElem? hi) (Service.board_status_update _ _ _),
      rfl⟩
  | @cancelled _ job hi =>
    exact ⟨.abandon [job.payload.batchId],
      .abandon (by simp) rfl (Service.live_perm_of_getElem? hi), rfl⟩
  | @received job rest hw hq =>
    refine Service.board_shift rfl ?_
    simp only [Service.live, hw, hq, WorkerPhase.job, Option.toList_some, Option.toList_none,
      List.append_nil, List.append_assoc]
    exact ((List.perm_append_singleton job rest).append_left _).map _
  | @began job hw =>
    refine ⟨.mark job.payload.batchId, .mark ?_ (Service.board_status_update _ _ _) ?_, rfl⟩
    · simp [Service.board, Service.live, hw, WorkerPhase.job]
    · simp [Service.board, Service.setBatchState, Service.live, hw, WorkerPhase.job]
  | notExecuted hw | executed hw | sent hw =>
    exact Service.board_shift rfl (by rw [Service.live, Service.live, hw]; rfl)
  | failed hj => exact Service.board_shift rfl (.of_eq (Service.live_of_worker hj.symm))
  | notProved hw | proved hw | notSent hw =>
    exact Service.board_shift rfl (.of_eq (Service.live_of_worker (by rw [hw]; rfl)))
  | completed hw | failureRecorded hw =>
    exact Service.board_finish (by rw [hw]; rfl) (by simp [jobStatus])
  | panicked hj => exact Service.board_panic hj

theorem Service.sound_start (engine : S) : (Service.start engine).board.Sound := by
  constructor
  · simp [board, live, Service.start, WorkerPhase.job]
  · simp [board, live, Service.start, WorkerPhase.job]

theorem Service.complete_start (engine : S) : (Service.start engine).board.Complete := by
  intro batchId h
  simp [board, Service.start, jobStatus] at h

/-- In every run no batch has two jobs, and a completed batch never has one again. -/
theorem one_job_per_batch (env : ServiceEnv S) (engine : S) (events : List ServiceEvent)
    (σ : Service S) (hr : Run (ServiceStep env) (Service.start engine) events σ) :
    σ.live.Nodup ∧
      ∀ batchId, σ.batchStates batchId = some .completed →
        ∀ later σ', Run (ServiceStep env) σ later σ' →
          σ'.batchStates batchId = some .completed ∧ batchId ∉ σ'.live := by
  have hσ := (refines_board env).sound hr (Service.sound_start engine)
  refine ⟨hσ.nodup, ?_⟩
  intro batchId hdone later σ' hr'
  have hdone' : σ'.board.status batchId = .done :=
    (refines_board env).done hr' hσ ((jobStatus_eq_done_iff _).mpr hdone)
  refine ⟨(jobStatus_eq_done_iff _).mp hdone', fun hlive => ?_⟩
  have hactive := ((refines_board env).sound hr' hσ).active batchId hlive
  rw [hdone'] at hactive
  cases hactive

def emptyBatches : ServiceEnv InMemoryStateManager :=
  { localService with
    queueCapacity := 1
    fromSlice := fun data =>
      if data = .raw (utf8 "[]") then .ok [] else .error "expected value at line 1 column 1" }

def emptyBatch (batchId : String) : BatchPayload :=
  ⟨batchId, .raw (utf8 "[]"), [], [], [], [], "local"⟩

theorem one_job_republished :
    ∃ σ σ', Run (ServiceStep emptyBatches) (Service.start aliceStore)
        (publishAndExecute (emptyBatch "b1") ++ finishBatch) σ ∧
      Run (ServiceStep emptyBatches) σ [.publish (emptyBatch "b1")] σ' ∧
      σ.batchStates "b1" = some .completed ∧
      σ'.batchStates "b1" = some .completed ∧ "b1" ∉ σ'.live := by
  obtain ⟨σ, σ', hr, hr', hdone⟩ := exists_runs_of_foldlM (Service.step emptyBatches)
    (Service.start aliceStore) (publishAndExecute (emptyBatch "b1") ++ finishBatch)
    [.publish (emptyBatch "b1")] (fun σ _ => σ.batchStates "b1") (b := some .completed)
    (by decide +kernel)
  have hone := (one_job_per_batch emptyBatches aliceStore _ σ hr).2
  exact ⟨σ, σ', hr, hr', hdone, hone "b1" hdone _ σ' hr'⟩

/-- Each batch that is pending or in progress has a job with a handler, in the queue or
with the worker. -/
def Service.NoneStranded (σ : Service S) : Prop :=
  ∀ batchId, σ.batchStates batchId = some .pending ∨ σ.batchStates batchId = some .inProgress →
    batchId ∈ σ.live

theorem Service.complete_board_iff (σ : Service S) : σ.board.Complete ↔ σ.NoneStranded := by
  simp only [JobBoard.Complete, board, jobStatus_eq_active_iff]
  rfl

/-- No handler goes away while it waits for room in the queue, and the worker does not
panic. -/
def NoneDropped (events : List ServiceEvent) : Prop :=
  (∀ i, .cancel i ∉ events) ∧ .panic ∉ events

theorem noneDropped_iff (events : List ServiceEvent) :
    NoneDropped events ↔ ∀ event ∈ events, event.dropsJob = false := by
  constructor
  · rintro ⟨hcancel, hpanic⟩ event hevent
    cases event with
    | cancel i => exact absurd hevent (hcancel i)
    | panic => exact absurd hevent hpanic
    | _ => rfl
  · intro h
    exact ⟨fun i hi => Bool.noConfusion (h _ hi), fun hp => Bool.noConfusion (h _ hp)⟩

/-- A run leaves no pending batch without a job if and only if none of its steps drops a
handler that waits and the worker does not panic. -/
theorem noneStranded_iff (env : ServiceEnv S) (engine : S) (events : List ServiceEvent)
    (σ : Service S) (hr : Run (ServiceStep env) (Service.start engine) events σ) :
    σ.NoneStranded ↔ NoneDropped events := by
  rw [← σ.complete_board_iff, noneDropped_iff]
  exact (refines_board env).complete_iff hr (Service.sound_start engine)
    (Service.complete_start engine)

theorem noneStranded_twoQueued :
    ∃ σ, Run (ServiceStep emptyBatches) (Service.start aliceStore)
        [.publish (emptyBatch "b1"), .enqueue 0, .recv, .publish (emptyBatch "b2"), .enqueue 0]
        σ ∧
      σ.batchStates "b2" = some .pending ∧ σ.NoneStranded := by
  obtain ⟨σ, hr, hstate⟩ := exists_run_of_foldlM (Service.step emptyBatches)
    (Service.start aliceStore)
    [.publish (emptyBatch "b1"), .enqueue 0, .recv, .publish (emptyBatch "b2"), .enqueue 0]
    (fun σ => σ.batchStates "b2") (b := some .pending) (by decide +kernel)
  refine ⟨σ, hr, hstate, (noneStranded_iff emptyBatches aliceStore _ σ hr).mpr ?_⟩
  exact (noneDropped_iff _).mpr (by decide)

def Reply.response : Reply → Option PublishBatchResponse
  | .publish (.ok response) => some response
  | _ => none

/-- The queue is full, the handler of the second batch goes away while it waits, and the
batch is published again: it is said to be queued, and nobody has a job for it. -/
theorem stranded_cancelledHandler :
    ∃ σ, Run (ServiceStep emptyBatches) (Service.start aliceStore)
        [.publish (emptyBatch "b1"), .enqueue 0, .publish (emptyBatch "b2"), .cancel 0,
          .publish (emptyBatch "b2")] σ ∧
      σ.replies.getLast?.bind Reply.response =
        some ⟨true, "batch b2 already queued for execution"⟩ ∧
      σ.batchStates "b2" = some .pending ∧ "b2" ∉ σ.live ∧ ¬σ.NoneStranded := by
  obtain ⟨σ, hr, hview⟩ := exists_run_of_foldlM (Service.step emptyBatches)
    (Service.start aliceStore)
    [.publish (emptyBatch "b1"), .enqueue 0, .publish (emptyBatch "b2"), .cancel 0,
      .publish (emptyBatch "b2")]
    (fun σ => (σ.replies.getLast?.bind Reply.response, σ.batchStates "b2", σ.live))
    (b := (some ⟨true, "batch b2 already queued for execution"⟩, some .pending, ["b1"]))
    (by decide +kernel)
  simp only [Prod.mk.injEq] at hview
  obtain ⟨hreply, hstate, hlive⟩ := hview
  have hlost : "b2" ∉ σ.live := by simp [hlive]
  exact ⟨σ, hr, hreply, hstate, hlost, fun h => hlost (h "b2" (.inl hstate))⟩

end RollupX.Executor
