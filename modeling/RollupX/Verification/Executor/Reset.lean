import RollupX.Verification.Executor.Jobs
import RollupX.Verification.Executor.Restart

/-! Resetting the executor, compared with starting a new one. `reset_state` gives the engine a fresh
store and leaves the map of batch states alone. -/

namespace RollupX.Executor

open Machine

variable {S : Type*} {env : ServiceEnv S}

def ServiceEvent.request : ServiceEvent → Option BatchPayload
  | .publish payload => some payload
  | _ => none

/-- What the service has answered, executed and sent after the events, beyond what it had
before them; nothing where the events cannot happen. -/
def Service.treatment (env : ServiceEnv S) (σ : Service S) (events : List ServiceEvent) :
    Option (List Reply × List (String × Transaction) × List BatchPayload) :=
  (events.foldlM (Service.step env) σ).map fun τ =>
    (τ.replies.drop σ.replies.length, τ.effects.drop σ.effects.length,
      τ.stream.drop σ.stream.length)

/-- Two services that are up treat the requests alike, at every moment while they are sent
and whatever the handlers and the worker do in between. -/
def SameTreatment (env : ServiceEnv S) (σ τ : Service S) (requests : List BatchPayload) :
    Prop :=
  ∀ events, .serverStopped ∉ events →
    events.filterMap ServiceEvent.request <+: requests →
      σ.treatment env events = τ.treatment env events

def WellFormed (env : ServiceEnv S) (payload : BatchPayload) : Prop :=
  ∃ parsed txs, env.fromSlice payload.batchData = .ok parsed ∧
    normalizeTransactions parsed = .ok txs

/-- States that `publish_batch` does not tell apart. -/
def AnsweredAlike (a b : Option BatchProcessingState) : Prop :=
  a = b ∨ jobStatus a = .unclaimed ∧ jobStatus b = .unclaimed

theorem jobStatus_eq_unclaimed_iff {state : Option BatchProcessingState} :
    jobStatus state = .unclaimed ↔ state = none ∨ ∃ why, state = some (.failed why) := by
  cases state with
  | none => simp [jobStatus]
  | some state => cases state <;> simp [jobStatus]

/-- What `publish_batch` makes of a request. -/
inductive Handling where
  | panicked
  | answered (r : Reply)
  | accepted (job : PendingBatchJob)

/-- The map of batch states is read at the id of the request alone. -/
def handle (env : ServiceEnv S) (state : Option BatchProcessingState)
    (payload : BatchPayload) : Handling :=
  match env.fromSlice payload.batchData with
  | .error e =>
    .answered (.publish (.error ⟨.invalidArgument, "invalid batch_data JSON: " ++ e⟩))
  | .ok parsed =>
    match normalizeTransactions parsed with
    | .error .panic => .panicked
    | .error (.error e) =>
      .answered (.publish
        (.error ⟨.invalidArgument, "invalid transaction payload: " ++ e.message⟩))
    | .ok txs =>
      match state with
      | some .pending =>
        .answered (acceptedResponse
          ("batch " ++ payload.batchId ++ " already queued for execution"))
      | some .inProgress =>
        .answered (acceptedResponse
          ("batch " ++ payload.batchId ++ " already in progress"))
      | some .completed =>
        .answered (acceptedResponse
          ("batch " ++ payload.batchId ++ " already processed"))
      | _ =>
        .accepted ⟨payload,
          if payload.experimentId.isEmpty then env.experimentId.getD "default"
          else payload.experimentId, txs⟩

theorem Service.publishBatch_eq (σ : Service S) (payload : BatchPayload) :
    σ.publishBatch env payload =
      match handle env (σ.batchStates payload.batchId) payload with
      | .panicked => σ
      | .answered r => σ.reply r
      | .accepted job => σ.addPending job := by
  unfold publishBatch handle
  cases env.fromSlice payload.batchData with
  | error e => rfl
  | ok parsed =>
    cases hnorm : normalizeTransactions parsed with
    | error e => cases e <;> simp [hnorm]
    | ok txs =>
      cases hstate : σ.batchStates payload.batchId with
      | none => simp [hnorm, hstate]
      | some state => cases state <;> simp [hnorm, hstate]

theorem handle_alike {a b : Option BatchProcessingState} {payload : BatchPayload}
    (h : WellFormed env payload → AnsweredAlike a b) :
    handle env a payload = handle env b payload := by
  unfold handle
  cases hparse : env.fromSlice payload.batchData with
  | error e => rfl
  | ok parsed =>
    cases hnorm : normalizeTransactions parsed with
    | error e => cases e <;> simp [hnorm]
    | ok txs =>
      rcases h ⟨parsed, txs, hparse, hnorm⟩ with rfl | ⟨ha, hb⟩
      · rfl
      · rcases jobStatus_eq_unclaimed_iff.mp ha with rfl | ⟨_, rfl⟩ <;>
          rcases jobStatus_eq_unclaimed_iff.mp hb with rfl | ⟨_, rfl⟩ <;> simp [hnorm]

theorem wellFormed_of_accepted {state : Option BatchProcessingState} {payload : BatchPayload}
    {job : PendingBatchJob} (h : handle env state payload = .accepted job) :
    WellFormed env payload ∧ job.payload = payload := by
  unfold handle at h
  cases hparse : env.fromSlice payload.batchData with
  | error e => simp [hparse] at h
  | ok parsed =>
    cases hnorm : normalizeTransactions parsed with
    | error e => cases e <;> simp [hparse, hnorm] at h
    | ok txs =>
      refine ⟨⟨parsed, txs, hparse, hnorm⟩, ?_⟩
      simp only [hparse, hnorm] at h
      split at h <;> cases h
      rfl

theorem handle_claimed {state : Option BatchProcessingState} {payload : BatchPayload}
    (hwf : WellFormed env payload) (h : jobStatus state ≠ .unclaimed) :
    ∃ r, handle env state payload = .answered r := by
  obtain ⟨parsed, txs, hparse, hnorm⟩ := hwf
  cases state with
  | none => simp [jobStatus] at h
  | some state => cases state <;> simp [jobStatus] at h <;> simp [handle, hparse, hnorm]

theorem handle_unclaimed {state : Option BatchProcessingState} {payload : BatchPayload}
    (hwf : WellFormed env payload) (h : jobStatus state = .unclaimed) :
    ∃ job, handle env state payload = .accepted job := by
  obtain ⟨parsed, txs, hparse, hnorm⟩ := hwf
  rcases jobStatus_eq_unclaimed_iff.mp h with rfl | ⟨_, rfl⟩ <;> simp [handle, hparse, hnorm]

/-- `σ` does what `τ` does, after what `base` had recorded. The batches in `ids` are
answered alike. -/
structure Service.Continues (base : Service S) (ids : String → Prop) (σ τ : Service S) :
    Prop where
  engine : σ.engine = τ.engine
  senders : σ.senders = τ.senders
  queue : σ.queue = τ.queue
  worker : σ.worker = τ.worker
  up : σ.serverReceiver = true ∧ τ.serverReceiver = true
  states : ∀ batchId, ids batchId →
    AnsweredAlike (σ.batchStates batchId) (τ.batchStates batchId)
  replies : σ.replies = base.replies ++ τ.replies
  effects : σ.effects = base.effects ++ τ.effects
  stream : σ.stream = base.stream ++ τ.stream

namespace Service.Continues

variable {base σ τ : Service S} {ids : String → Prop}

theorem reply (h : base.Continues ids σ τ) (r : Reply) :
    base.Continues ids (σ.reply r) (τ.reply r) := by
  refine { h with replies := ?_ }
  simp [Service.reply, h.replies]

theorem setBatchState (h : base.Continues ids σ τ) (batchId : String)
    (state : BatchProcessingState) :
    base.Continues ids (σ.setBatchState batchId state) (τ.setBatchState batchId state) := by
  refine { h with states := ?_ }
  intro other hother
  by_cases he : other = batchId
  · exact .inl (by simp [Service.setBatchState, he])
  · simpa [Service.setBatchState, he] using h.states other hother

theorem withWorker (h : base.Continues ids σ τ) (w : WorkerPhase S) :
    base.Continues ids { σ with worker := w } { τ with worker := w } :=
  { h with worker := rfl }

theorem withEngine (h : base.Continues ids σ τ) (s : S) :
    base.Continues ids { σ with engine := s } { τ with engine := s } :=
  { h with engine := rfl }

theorem addPending (h : base.Continues ids σ τ) (job : PendingBatchJob) :
    base.Continues ids (σ.addPending job) (τ.addPending job) := by
  unfold Service.addPending
  apply Continues.setBatchState
  exact { h with senders := by rw [h.senders] }

theorem publishBatch (h : base.Continues ids σ τ) {payload : BatchPayload}
    (hids : WellFormed env payload → ids payload.batchId) :
    base.Continues ids (σ.publishBatch env payload) (τ.publishBatch env payload) := by
  rw [σ.publishBatch_eq, τ.publishBatch_eq,
    handle_alike fun hwf => h.states payload.batchId (hids hwf)]
  cases handle env (τ.batchStates payload.batchId) payload with
  | panicked => exact h
  | answered r => exact h.reply r
  | accepted job => exact h.addPending job

theorem resetState (h : base.Continues ids σ τ) :
    base.Continues ids (σ.resetState env) (τ.resetState env) := by
  unfold Service.resetState
  rw [h.engine]
  cases env.mgr.resetToGenesis τ.engine with
  | error e => exact (h.withEngine _).reply _
  | ok s =>
    simp only
    split
    · exact (h.withEngine _).reply _
    · exact (h.withEngine _).reply _

theorem execute (h : base.Continues ids σ τ) (job : PendingBatchJob) :
    base.Continues ids (σ.execute env job) (τ.execute env job) := by
  unfold Service.execute
  rw [h.engine]
  split
  · exact (h.withEngine _).withWorker _
  · refine { h with engine := rfl, worker := rfl, effects := ?_ }
    simp [h.effects]

theorem send (h : base.Continues ids σ τ) (job : PendingBatchJob) (pre : S)
    (trace : ExecutionTraceV1) (artifacts : ProofArtifacts) :
    base.Continues ids (σ.send job pre trace artifacts) (τ.send job pre trace artifacts) := by
  unfold Service.send
  rw [if_neg (by simp [h.up.1]), if_neg (by simp [h.up.2])]
  refine { h with worker := rfl, stream := ?_ }
  simp [h.stream]

theorem step (h : base.Continues ids σ τ) {event : ServiceEvent} (hup : event ≠ .serverStopped)
    (hids : ∀ payload ∈ event.request, WellFormed env payload → ids payload.batchId) :
    Option.Rel (base.Continues ids) (σ.step env event) (τ.step env event) := by
  cases event with
  | publish payload => exact .some (h.publishBatch (hids payload rfl))
  | enqueue i =>
    simp only [Service.step, h.senders, h.worker, h.queue]
    split
    · exact .none
    · exact .none
    · split
      · refine .some (reply ?_ _)
        exact { h with senders := rfl, queue := rfl, worker := rfl }
      · exact .none
  | enqueueFailed i =>
    simp only [Service.step, h.senders, h.worker]
    split
    · refine .some (reply (setBatchState ?_ _ _) _)
      exact { h with senders := rfl, worker := rfl }
    · exact .none
  | cancel i =>
    simp only [Service.step, h.senders]
    split
    · exact .some { h with senders := rfl }
    · exact .none
  | recv =>
    simp only [Service.step, h.queue, h.worker]
    split
    · exact .some { h with queue := rfl, worker := rfl }
    · exact .none
  | begin | complete | recordFailure =>
    simp only [Service.step, h.worker]
    split
    · exact .some ((h.withWorker _).setBatchState _ _)
    · exact .none
  | execute =>
    simp only [Service.step, h.worker]
    split
    · exact .some (h.execute _)
    · exact .none
  | fail stage error =>
    simp only [Service.step, h.worker]
    split
    · split
      · exact .some (h.withWorker _)
      · exact .none
    · exact .none
  | prove artifacts =>
    simp only [Service.step, h.worker]
    split
    · split
      · exact .some (h.withWorker _)
      · exact .some (h.withWorker _)
    · exact .none
  | send =>
    simp only [Service.step, h.worker]
    split
    · exact .some (h.send _ _ _ _)
    · exact .none
  | panic =>
    simp only [Service.step, h.worker]
    split
    · exact .some { h with queue := rfl, worker := rfl }
    · exact .some { h with queue := rfl, worker := rfl }
    · exact .none
  | subscribe | unsubscribe => exact .some { h with }
  | serverStopped => exact absurd rfl hup
  | reset => exact .some h.resetState

theorem treatment_eq {ρ fresh : Service S} (h : ρ.Continues ids ρ fresh)
    {events : List ServiceEvent} (hup : .serverStopped ∉ events)
    (hids : ∀ payload ∈ events.filterMap ServiceEvent.request,
      WellFormed env payload → ids payload.batchId) :
    ρ.treatment env events = fresh.treatment env events := by
  have hrel : Option.Rel (ρ.Continues ids) (events.foldlM (Service.step env) ρ)
      (events.foldlM (Service.step env) fresh) := by
    refine foldlM_rel ?_ h
    intro σ τ hστ event hevent
    refine hστ.step (ne_of_mem_of_not_mem hevent hup) ?_
    intro payload hp
    exact hids payload (List.mem_filterMap.mpr ⟨event, hevent, hp⟩)
  have hreplies : fresh.replies = [] := by simpa using h.replies
  have heffects : fresh.effects = [] := by simpa using h.effects
  have hstream : fresh.stream = [] := by simpa using h.stream
  unfold Service.treatment
  generalize events.foldlM (Service.step env) ρ = σ at hrel ⊢
  generalize events.foldlM (Service.step env) fresh = τ at hrel ⊢
  cases hrel with
  | none => rfl
  | some hστ => simp [hστ.replies, hστ.effects, hστ.stream, hreplies, heffects, hstream]

end Service.Continues

theorem foldlM_publish (σ : Service S) (payloads : List BatchPayload) :
    (payloads.map ServiceEvent.publish).foldlM (Service.step env) σ =
      some (payloads.foldl (Service.publishBatch env) σ) := by
  induction payloads generalizing σ with
  | nil => rfl
  | cons payload payloads ih => exact ih _

theorem filterMap_request_publish (payloads : List BatchPayload) :
    (payloads.map ServiceEvent.publish).filterMap ServiceEvent.request = payloads := by
  induction payloads with
  | nil => rfl
  | cons payload payloads ih => simp [ServiceEvent.request, ih]

theorem Service.batchStates_publishBatch (σ : Service S) {payload : BatchPayload}
    {batchId : String} (h : WellFormed env payload → payload.batchId ≠ batchId) :
    (σ.publishBatch env payload).batchStates batchId = σ.batchStates batchId := by
  rw [σ.publishBatch_eq]
  cases hh : handle env (σ.batchStates payload.batchId) payload with
  | panicked => rfl
  | answered r => rfl
  | accepted job =>
    obtain ⟨hwf, hjob⟩ := wellFormed_of_accepted hh
    apply Function.update_of_ne
    rw [hjob]
    exact (h hwf).symm

theorem Service.batchStates_publishes (σ : Service S) {payloads : List BatchPayload}
    {batchId : String}
    (h : ∀ payload ∈ payloads, WellFormed env payload → payload.batchId ≠ batchId) :
    (payloads.foldl (publishBatch env) σ).batchStates batchId = σ.batchStates batchId := by
  induction payloads generalizing σ with
  | nil => rfl
  | cons payload payloads ih =>
    rw [List.foldl_cons, ih _ fun p hp => h p (List.mem_cons_of_mem _ hp)]
    exact σ.batchStates_publishBatch (h payload List.mem_cons_self)

theorem Service.Continues.publishes {base σ τ : Service S} {ids : String → Prop}
    (h : base.Continues ids σ τ) {payloads : List BatchPayload}
    (hids : ∀ payload ∈ payloads, WellFormed env payload → ids payload.batchId) :
    base.Continues ids (payloads.foldl (Service.publishBatch env) σ)
      (payloads.foldl (Service.publishBatch env) τ) := by
  induction payloads generalizing σ τ with
  | nil => exact h
  | cons payload payloads ih =>
    exact ih (h.publishBatch (hids payload List.mem_cons_self))
      fun p hp => hids p (List.mem_cons_of_mem _ hp)

theorem Service.Continues.treatment_ne {ρ fresh : Service S} {ids : String → Prop}
    (h : ρ.Continues ids ρ fresh) {payloads : List BatchPayload} {payload : BatchPayload}
    (hids : ∀ p ∈ payloads, WellFormed env p → ids p.batchId) {r : Reply}
    {j : PendingBatchJob}
    (hσ : handle env ((payloads.foldl (Service.publishBatch env) ρ).batchStates payload.batchId)
      payload = .answered r)
    (hτ : handle env ((payloads.foldl (Service.publishBatch env) fresh).batchStates payload.batchId)
      payload = .accepted j) :
    ρ.treatment env ((payloads ++ [payload]).map .publish) ≠
      fresh.treatment env ((payloads ++ [payload]).map .publish) := by
  have hpub := h.publishes hids
  have hfresh : fresh.replies = [] := by simpa using h.replies
  intro heq
  simp only [Service.treatment, foldlM_publish, List.foldl_append, List.foldl_cons,
    List.foldl_nil, Service.publishBatch_eq _ payload, hσ, hτ, Option.map_some] at heq
  have hreplies := congrArg Prod.fst (Option.some.inj heq)
  simp [Service.reply, Service.addPending, Service.setBatchState, hpub.replies,
    hfresh] at hreplies

/-- No handler waits at the reset, and no request that can be read is for a batch that was
pending, in progress or completed. -/
def Service.ClearFor (env : ServiceEnv S) (σ : Service S) (requests : List BatchPayload) :
    Prop :=
  σ.senders = [] ∧
    ∀ payload ∈ requests, WellFormed env payload →
      σ.batchStates payload.batchId = none ∨
        ∃ why, σ.batchStates payload.batchId = some (.failed why)

section Reset

variable {J : Type*} {jmtTree : JmtTree J} {emptyTree : J}
  {env : ServiceEnv (RocksDbStateManager J)} {σ : Service (RocksDbStateManager J)}

theorem resetState_of_ok (henv : env.mgr = RocksDbStateManager.stateManager jmtTree emptyTree)
    (hok : (σ.resetState env).replies =
      σ.replies ++ [.reset (.ok ⟨true, "state reset to genesis"⟩)]) :
    σ.resetState env =
      ({ σ with
        engine := (startServer env.genesis env.mgr ⟨emptyTree, fun _ => none⟩).1 } :
          Service (RocksDbStateManager J)).reply
        (.reset (.ok ⟨true, "state reset to genesis"⟩)) := by
  have hreset : env.mgr.resetToGenesis σ.engine = .ok ⟨emptyTree, fun _ => none⟩ := by
    rw [henv]
    rfl
  unfold Service.resetState startServer at *
  rw [hreset] at hok ⊢
  simp only at hok ⊢
  split at hok
  · simp [Service.reply] at hok
  · rename_i hseed
    rw [hseed]

theorem continues_resetState
    (henv : env.mgr = RocksDbStateManager.stateManager jmtTree emptyTree)
    (hqueue : σ.queue = []) (hidle : σ.worker = .idle) (hup : σ.serverReceiver = true)
    (hok : (σ.resetState env).replies =
      σ.replies ++ [.reset (.ok ⟨true, "state reset to genesis"⟩)])
    (hsenders : σ.senders = []) :
    (σ.resetState env).Continues (fun batchId => jobStatus (σ.batchStates batchId) = .unclaimed)
      (σ.resetState env)
      (Service.start (startServer env.genesis env.mgr ⟨emptyTree, fun _ => none⟩).1) := by
  rw [resetState_of_ok henv hok]
  exact
    { engine := rfl
      senders := hsenders
      queue := hqueue
      worker := hidle
      up := ⟨hup, rfl⟩
      states := fun _ h => .inr ⟨h, rfl⟩
      replies := (List.append_nil _).symm
      effects := (List.append_nil _).symm
      stream := (List.append_nil _).symm }

/-- A service that was reset while its queue was empty and its worker idle treats requests
as a new one does if and only if it is clear for them. -/
theorem reset_fresh_iff (jmtTree : JmtTree J) (emptyTree : J)
    (env : ServiceEnv (RocksDbStateManager J))
    (henv : env.mgr = RocksDbStateManager.stateManager jmtTree emptyTree)
    (σ : Service (RocksDbStateManager J)) (hqueue : σ.queue = []) (hidle : σ.worker = .idle)
    (hup : σ.serverReceiver = true)
    (hok : (σ.resetState env).replies =
      σ.replies ++ [.reset (.ok ⟨true, "state reset to genesis"⟩)])
    (requests : List BatchPayload) :
    SameTreatment env (σ.resetState env)
        (Service.start (startServer env.genesis env.mgr ⟨emptyTree, fun _ => none⟩).1)
        requests ↔
      σ.ClearFor env requests := by
  have hstates : (σ.resetState env).batchStates = σ.batchStates := by
    rw [resetState_of_ok henv hok]
    rfl
  constructor
  · intro hsame
    have hsenders : σ.senders = [] := by
      cases hs : σ.senders with
      | nil => rfl
      | cons job rest =>
        have hcancel := hsame [.cancel 0] (by simp) List.nil_prefix
        rw [resetState_of_ok henv hok] at hcancel
        simp [Service.treatment, Service.step, Service.reply, Service.start, hs] at hcancel
    refine ⟨hsenders, ?_⟩
    have hall : ∀ sent, sent <+: requests → ∀ payload ∈ sent, WellFormed env payload →
        jobStatus (σ.batchStates payload.batchId) = .unclaimed := by
      intro sent
      induction sent using List.reverseRecOn with
      | nil => simp
      | append_singleton sent payload ih =>
        intro hsofar
        have hsent := ih ((List.prefix_append sent [payload]).trans hsofar)
        rw [List.forall_mem_append]
        refine ⟨hsent, ?_⟩
        rintro p hp hwf
        obtain rfl := List.mem_singleton.mp hp
        by_contra hclaimed
        have hnew : ∀ q ∈ sent, WellFormed env q → q.batchId ≠ p.batchId := by
          intro q hq hqwf he
          exact hclaimed (he ▸ hsent q hq hqwf)
        have hcont := continues_resetState henv hqueue hidle hup hok hsenders
        obtain ⟨r, hr⟩ := handle_claimed hwf hclaimed
        obtain ⟨job, hjob⟩ : ∃ job, handle env none p = .accepted job :=
          handle_unclaimed hwf rfl
        rw [← hstates, ← Service.batchStates_publishes (σ.resetState env) hnew] at hr
        refine hcont.treatment_ne hsent hr (j := job) ?_
          (hsame _ (by simp) (by rwa [filterMap_request_publish]))
        rw [Service.batchStates_publishes _ hnew]
        exact hjob
    intro payload hp hwf
    exact jobStatus_eq_unclaimed_iff.mp (hall requests (List.prefix_refl _) payload hp hwf)
  · rintro ⟨hsenders, hclear⟩ events hserving hsofar
    refine (continues_resetState henv hqueue hidle hup hok hsenders).treatment_eq hserving ?_
    intro payload hp hwf
    exact jobStatus_eq_unclaimed_iff.mpr (hclear payload (hsofar.subset hp) hwf)

end Reset

def rocksDbPayments : ServiceEnv (RocksDbStateManager Unit) where
  rt := localRuntime
  mgr := RocksDbStateManager.stateManager constantTree ()
  genesis := aliceGenesis
  queueCapacity := 1024
  experimentId := none
  requireRealProofs := none
  fromSlice := localService.fromSlice

def rocksDbSeeded : RocksDbStateManager Unit :=
  (startServer rocksDbPayments.genesis rocksDbPayments.mgr ⟨(), fun _ => none⟩).1

def WorkerPhase.isIdle : WorkerPhase S → Bool
  | .idle => true
  | _ => false

theorem WorkerPhase.eq_idle {w : WorkerPhase S} (h : w.isIdle = true) : w = .idle := by
  cases w <;> first | rfl | cases h

theorem replies_resetState {env : ServiceEnv (RocksDbStateManager Unit)}
    (henv : env.mgr = RocksDbStateManager.stateManager constantTree ())
    (hseed : (seedGenesisAccounts env.genesis env.mgr ⟨(), fun _ => none⟩).2 = .ok ())
    (σ : Service (RocksDbStateManager Unit)) :
    (σ.resetState env).replies =
      σ.replies ++ [.reset (.ok ⟨true, "state reset to genesis"⟩)] := by
  have hreset : env.mgr.resetToGenesis σ.engine = .ok ⟨(), fun _ => none⟩ := by
    rw [henv]
    rfl
  obtain ⟨s, hpair⟩ : ∃ s, seedGenesisAccounts env.genesis env.mgr ⟨(), fun _ => none⟩ =
      (s, .ok ()) := ⟨_, Prod.ext rfl hseed⟩
  rw [Service.resetState, hreset]
  simp only [hpair]
  rfl

theorem reset_fresh_paymentBefore :
    ∃ σ, Run (ServiceStep rocksDbPayments) (Service.start rocksDbSeeded)
        (publishAndExecute (batchOf "b1" "0") ++ finishBatch) σ ∧
      σ.batchStates "b1" = some .completed ∧
      rocksDbPayments.mgr.getAccount σ.engine alice = ⟨90, 1⟩ ∧
      rocksDbPayments.mgr.getAccount (σ.resetState rocksDbPayments).engine alice = ⟨100, 0⟩ ∧
      SameTreatment rocksDbPayments (σ.resetState rocksDbPayments) (Service.start rocksDbSeeded)
        [batchOf "b2" "0"] := by
  obtain ⟨σ, hr, hview⟩ := exists_run_of_foldlM (Service.step rocksDbPayments)
    (Service.start rocksDbSeeded) (publishAndExecute (batchOf "b1" "0") ++ finishBatch)
    (fun σ => (σ.senders.isEmpty && σ.queue.isEmpty && σ.worker.isIdle && σ.serverReceiver,
      σ.batchStates "b1", σ.batchStates "b2",
      rocksDbPayments.mgr.getAccount σ.engine alice,
      rocksDbPayments.mgr.getAccount (σ.resetState rocksDbPayments).engine alice))
    (b := (true, some .completed, none, ⟨90, 1⟩, ⟨100, 0⟩)) (by decide +kernel)
  simp only [Prod.mk.injEq, Bool.and_eq_true] at hview
  obtain ⟨⟨⟨⟨hsenders, hqueue⟩, hidle⟩, hup⟩, hb1, hb2, hpaid, hreset⟩ := hview
  refine ⟨σ, hr, hb1, hpaid, hreset, (reset_fresh_iff constantTree () rocksDbPayments rfl σ
    (List.isEmpty_iff.mp hqueue) (WorkerPhase.eq_idle hidle) hup
    (replies_resetState rfl (by decide +kernel) σ) _).mpr ⟨List.isEmpty_iff.mp hsenders, ?_⟩⟩
  intro payload hp _
  rw [List.mem_singleton.mp hp]
  exact .inl hb2

def rocksDbBatches : ServiceEnv (RocksDbStateManager Unit) :=
  { rocksDbPayments with genesis := ⟨some "", none⟩, fromSlice := emptyBatches.fromSlice }

def rocksDbNew : RocksDbStateManager Unit :=
  (startServer rocksDbBatches.genesis rocksDbBatches.mgr ⟨(), fun _ => none⟩).1

/-- The batch `b1` itself is not executed on the new store: it is said to be processed. -/
theorem reset_keeps_completed :
    ∃ σ, Run (ServiceStep rocksDbBatches) (Service.start rocksDbNew)
        (publishAndExecute (emptyBatch "b1") ++ finishBatch) σ ∧
      σ.queue = [] ∧ σ.worker = .idle ∧
      (σ.resetState rocksDbBatches).replies =
        σ.replies ++ [.reset (.ok ⟨true, "state reset to genesis"⟩)] ∧
      ((σ.resetState rocksDbBatches).publishBatch rocksDbBatches
        (emptyBatch "b1")).replies.getLast?.bind Reply.response =
          some ⟨true, "batch b1 already processed"⟩ ∧
      ((σ.resetState rocksDbBatches).publishBatch rocksDbBatches (emptyBatch "b1")).live = [] ∧
      ((Service.start rocksDbNew).publishBatch rocksDbBatches (emptyBatch "b1")).live =
        ["b1"] ∧
      ¬SameTreatment rocksDbBatches (σ.resetState rocksDbBatches) (Service.start rocksDbNew)
        [emptyBatch "b1"] := by
  obtain ⟨σ, hr, hview⟩ := exists_run_of_foldlM (Service.step rocksDbBatches)
    (Service.start rocksDbNew) (publishAndExecute (emptyBatch "b1") ++ finishBatch)
    (fun σ => (σ.queue.isEmpty && σ.worker.isIdle,
      ((σ.resetState rocksDbBatches).publishBatch rocksDbBatches
        (emptyBatch "b1")).replies.getLast?.bind Reply.response,
      ((σ.resetState rocksDbBatches).publishBatch rocksDbBatches (emptyBatch "b1")).live,
      ((σ.resetState rocksDbBatches).treatment rocksDbBatches
        [.publish (emptyBatch "b1")]).map fun t => t.1.length))
    (b := (true, some ⟨true, "batch b1 already processed"⟩, [], some 1))
    (by decide +kernel)
  simp only [Prod.mk.injEq, Bool.and_eq_true] at hview
  obtain ⟨⟨hqueue, hidle⟩, hreply, hlive, hlength⟩ := hview
  refine ⟨σ, hr, List.isEmpty_iff.mp hqueue, WorkerPhase.eq_idle hidle,
    replies_resetState rfl (by decide +kernel) σ, hreply, hlive, by decide +kernel, fun hsame => ?_⟩
  have hnew : ((Service.start rocksDbNew).treatment rocksDbBatches
      [.publish (emptyBatch "b1")]).map (fun t => t.1.length) = some 0 := by decide +kernel
  rw [hsame [.publish (emptyBatch "b1")] (by simp) (List.prefix_refl _), hnew] at hlength
  cases hlength

end RollupX.Executor
