import RollupX.Verification.Submitter.Steps

/-! Rows that are marked as confirmed. The daemon marks a row when `submit` has returned a
hash, and `submit` returns the hash of a transaction that was mined, with whatever status. -/

namespace RollupX.Submitter

open Machine

/-- The submission sent a `commitBatch` transaction with this hash, and it was mined with
status 1. -/
def Submission.succeeded (s : Submission) (txHash : Option Text) : Bool :=
  match s.sent with
  | some (_, .mined hash receipt) => receipt.status = some 1 ∧ txHash = some (H256.debug hash)
  | _ => false

def Daemon.Succeeded (d : Daemon) (txHash : Option Text) : Prop :=
  ∃ s ∈ d.submissions, s.succeeded txHash = true

/-- Every row that is marked as confirmed has the hash of such a transaction. -/
def Daemon.ConfirmedSucceeded (d : Daemon) : Prop :=
  ∀ row ∈ d.outbox.rows, row.state = .confirmedOnL1 → d.Succeeded row.txHash

instance (d : Daemon) (txHash : Option Text) : Decidable (d.Succeeded txHash) :=
  inferInstanceAs (Decidable (∃ s ∈ d.submissions, s.succeeded txHash = true))

instance (d : Daemon) : Decidable d.ConfirmedSucceeded :=
  inferInstanceAs (Decidable (∀ row ∈ d.outbox.rows, row.state = .confirmedOnL1 →
    d.Succeeded row.txHash))

def DaemonEvent.OnChain : DaemonEvent → Prop
  | .start cfg _ => cfg.verificationMode = .onChain
  | _ => True

instance (event : DaemonEvent) : Decidable event.OnChain :=
  match event with
  | .start cfg _ => inferInstanceAs (Decidable (cfg.verificationMode = .onChain))
  | .stop => .isTrue trivial
  | .scan _ _ _ _ => .isTrue trivial
  | .submit _ _ => .isTrue trivial
  | .write _ => .isTrue trivial
  | .deliver _ _ _ _ => .isTrue trivial
  | .fetchFailed => .isTrue trivial
  | .writeFile _ => .isTrue trivial
  | .removeFile _ => .isTrue trivial

/-- The result of `submit` that is to be written to the outbox next. -/
def Activity.unrecorded : Activity → Option SubmissionResult
  | .resumed _ result _ _ => some result
  | .submitted _ result _ => some result
  | _ => none

def Daemon.unrecorded (d : Daemon) : Option SubmissionResult :=
  match d.phase with
  | .stopped => none
  | .running _ activity => activity.unrecorded

def Sending.succeeds : Sending → Bool
  | .mined _ receipt => receipt.status = some 1
  | _ => true

def DaemonEvent.sending : DaemonEvent → Option Sending
  | .submit answers _ => some answers.sending
  | _ => none

/-- A transaction that is mined has status 1, and its hash is written to the outbox. -/
structure Faithful (d : Daemon) (event : DaemonEvent) : Prop where
  mined : event.sending.all Sending.succeeds = true
  recorded : d.unrecorded.isSome = true → event.rowWrite.all OutboxWrite.succeeds = true

instance (d : Daemon) (event : DaemonEvent) : Decidable (Faithful d event) :=
  decidable_of_iff (event.sending.all Sending.succeeds = true ∧
      (d.unrecorded.isSome = true → event.rowWrite.all OutboxWrite.succeeds = true))
    ⟨fun h => ⟨h.1, h.2⟩, fun h => ⟨h.1, h.2⟩⟩

/-- The batch id whose row is to be marked as confirmed next. -/
def Activity.confirms : Activity → Option Text
  | .resumedSubmitted batch _ => some batch.id.toString
  | .confirming fetched => some fetched.batchId
  | _ => none

/-- What has to hold in an activity so that the rows it goes on to mark have succeeded. -/
structure ReadyToConfirm (d : Daemon) (cfg : Config) (activity : Activity) : Prop where
  onChain : cfg.verificationMode = .onChain
  unrecorded : ∀ result, activity.unrecorded = some result → d.Succeeded (some result.txHash)
  confirms : ∀ batchId, activity.confirms = some batchId →
    ∀ row ∈ d.outbox.rows, row.batchId = batchId → d.Succeeded row.txHash

structure ConfirmsSucceeded (d : Daemon) : Prop where
  rows : d.ConfirmedSucceeded
  ready : d.Running (ReadyToConfirm d)

section Step

variable {rt : Runtime} {d d' : Daemon} {cfg : Config} {activity activity' : Activity}

theorem Daemon.Succeeded.mono {txHash : Option Text} (h : d.Succeeded txHash)
    (hsub : d.submissions ⊆ d'.submissions) : d'.Succeeded txHash := by
  obtain ⟨s, hs, hrest⟩ := h
  exact ⟨s, hsub hs, hrest⟩

theorem ReadyToConfirm.of_idle (hmode : cfg.verificationMode = .onChain)
    (hidle : activity.unrecorded = none ∧ activity.confirms = none) :
    ReadyToConfirm d cfg activity := by
  refine ⟨hmode, ?_, ?_⟩
  · intro result h
    rw [hidle.1] at h
    contradiction
  · intro batchId h
    rw [hidle.2] at h
    contradiction

theorem ConfirmsSucceeded.enter (hrows : d.ConfirmedSucceeded)
    (hready : ReadyToConfirm d cfg activity) : ConfirmsSucceeded (d.enter cfg activity) :=
  ⟨hrows, d.running_enter ⟨hready.onChain, hready.unrecorded, hready.confirms⟩⟩

theorem ConfirmsSucceeded.halt (h : ConfirmsSucceeded d) : ConfirmsSucceeded d.halt :=
  ⟨h.rows, Daemon.running_of_stopped rfl⟩

theorem idle_resume (queue : List (Batch × Text)) :
    (Activity.resume queue).unrecorded = none ∧ (Activity.resume queue).confirms = none := by
  cases queue <;> exact ⟨rfl, rfl⟩

theorem idle_scan (records : List BatchSagaRecord) (queue : List (Batch × Text)) :
    (Activity.scan records queue).unrecorded = none ∧
      (Activity.scan records queue).confirms = none := by
  cases records with
  | nil => exact idle_resume queue
  | cons record rest => exact ⟨rfl, rfl⟩

theorem MoveStep.idle {event : DaemonEvent} (h : MoveStep rt activity event activity') :
    activity'.unrecorded = none ∧ activity'.confirms = none := by
  cases h with
  | queued | bumpFailed hstate => exact idle_scan _ _
  | bumpSent hstate | skipped | fetchFailed => exact ⟨rfl, rfl⟩

theorem confirmedSucceeded_updateSubmission {now : ℤ} {batchId txHash : Text} {nonce : Option ℤ}
    {gasPrice : Option Text} (h : d.ConfirmedSucceeded) :
    (d.setOutbox
      (d.outbox.updateSubmission now batchId txHash nonce gasPrice)).ConfirmedSucceeded := by
  intro row hrow hstate
  rcases mem_updateSubmission hrow with ⟨hold, -⟩ | ⟨-, hnew, -⟩
  · exact h row hold hstate
  · rw [hnew] at hstate
    contradiction

theorem confirmedSucceeded_updateState {now : ℤ} {batchId : Text} {state : SagaState}
    (h : d.ConfirmedSucceeded)
    (hnew : state = .confirmedOnL1 →
      ∀ row ∈ d.outbox.rows, row.batchId = batchId → d.Succeeded row.txHash) :
    (d.setOutbox (d.outbox.updateState now batchId state)).ConfirmedSucceeded := by
  intro row hrow hstate
  rcases mem_updateState hrow with ⟨hold, -⟩ | ⟨old, hold, hid, rfl⟩
  · exact h row hold hstate
  · exact hnew hstate old hold hid

/-- The hash of a submission that succeeded is in the row that is confirmed next. -/
theorem ReadyToConfirm.recorded {now : ℤ} {batchId : Text} {nonce : Option ℤ}
    {gasPrice : Option Text} {result : SubmissionResult}
    (h : ReadyToConfirm d cfg activity) (hresult : activity.unrecorded = some result)
    (hunrecorded : activity'.unrecorded = none) (hconfirms : activity'.confirms = some batchId) :
    ReadyToConfirm
      (d.setOutbox (d.outbox.updateSubmission now batchId result.txHash nonce gasPrice)) cfg
      activity' := by
  refine ⟨h.onChain, ?_, ?_⟩
  · intro r hr
    rw [hunrecorded] at hr
    contradiction
  · intro id hid row hrow hrowId
    rw [hconfirms, Option.some.injEq] at hid
    rcases mem_updateSubmission hrow with ⟨-, hne⟩ | ⟨-, -, htx⟩
    · exact absurd (hrowId.trans hid.symm) hne
    · rw [htx]
      exact h.unrecorded result hresult

theorem ConfirmsSucceeded.updated {f : SagaOutbox → SagaOutbox} (h : ConfirmsSucceeded d)
    (hphase : d.phase = .running cfg activity) (hstep : UpdateStep cfg activity f activity') :
    ConfirmsSucceeded ((d.setOutbox (f d.outbox)).enter cfg activity') := by
  have hready := h.ready cfg activity hphase
  cases hstep with
  | gaveUp hstate =>
    exact .enter (confirmedSucceeded_updateState h.rows nofun)
      (.of_idle hready.onChain (idle_scan _ _))
  | bumped =>
    exact .enter (confirmedSucceeded_updateSubmission h.rows)
      (.of_idle hready.onChain (idle_scan _ _))
  | resumed | submitted =>
    exact .enter (confirmedSucceeded_updateSubmission h.rows) (hready.recorded rfl rfl rfl)
  | resumedSubmitted =>
    exact .enter (confirmedSucceeded_updateState h.rows fun _ => hready.confirms _ rfl)
      (.of_idle hready.onChain (idle_resume _))
  | written =>
    exact .enter (confirmedSucceeded_updateState h.rows nofun)
      (.of_idle hready.onChain ⟨rfl, rfl⟩)
  | simulated hmode =>
    rw [hready.onChain] at hmode
    contradiction
  | confirming =>
    exact .enter (confirmedSucceeded_updateState h.rows fun _ => hready.confirms _ rfl)
      (.of_idle hready.onChain ⟨rfl, rfl⟩)

/-- A write that fails leaves nothing to be confirmed, unless it was to record a hash. -/
theorem UpdateStep.idle {f : SagaOutbox → SagaOutbox} (h : UpdateStep cfg activity f activity')
    (hmode : cfg.verificationMode = .onChain) (hunrecorded : activity.unrecorded = none) :
    activity'.unrecorded = none ∧ activity'.confirms = none := by
  cases h with
  | gaveUp hstate | bumped => exact idle_scan _ _
  | resumed | submitted => contradiction
  | resumedSubmitted => exact idle_resume _
  | written | confirming => exact ⟨rfl, rfl⟩
  | simulated hoff =>
    rw [hmode] at hoff
    contradiction

section Submit

variable {tx : Option L1Transaction} {recovered : Bool} {batch : Batch} {proofHex : Text}
  {verifierId : UInt8} {onOk : SubmissionResult → Activity} {onError : Activity} {files : Files}
  {submission : Submission}

theorem SubmitStep.unrecorded
    (h : SubmitStep rt cfg tx activity recovered batch proofHex verifierId onOk onError) :
    (∀ result, (onOk result).unrecorded = some result ∧ (onOk result).confirms = none) ∧
      onError.unrecorded = none ∧ onError.confirms = none := by
  cases h with
  | resuming => exact ⟨fun _ => ⟨rfl, rfl⟩, idle_resume _⟩
  | compressed hmode => exact ⟨fun _ => ⟨rfl, rfl⟩, rfl, rfl⟩

theorem Daemon.ConfirmedSucceeded.record (h : d.ConfirmedSucceeded) :
    (d.record files submission).ConfirmedSucceeded := by
  intro row hrow hstate
  exact (h row hrow hstate).mono (List.subset_append_left _ _)

theorem succeeded_of_submit {answers : Answers} {files' : Files} {result : SubmissionResult}
    (hsubmit : cfg.submit rt d.files answers recovered batch proofHex verifierId =
      some (files', submission))
    (hresult : submission.result = .ok result) (hsucceeds : answers.sending.succeeds = true) :
    (d.record files' submission).Succeeded (some result.txHash) := by
  obtain ⟨args, hash, receipt, hsent, hsending, htx⟩ := (submit_spec hsubmit).1.mined result hresult
  have hstatus : receipt.status = some 1 := by
    rw [hsending] at hsucceeds
    exact of_decide_eq_true hsucceeds
  refine ⟨submission, List.mem_append_right _ (List.mem_singleton.mpr rfl), ?_⟩
  simp [Submission.succeeded, hsent, hstatus, htx]

end Submit

theorem DaemonStep.confirmsSucceeded {event : DaemonEvent} (hstep : DaemonStep rt d event d')
    (hmode : event.OnChain) (hfaithful : Faithful d event) (h : ConfirmsSucceeded d) :
    ConfirmsSucceeded d' := by
  cases step_effect hstep with
  | started hphase =>
    exact .enter h.rows (.of_idle hmode (idle_scan _ _))
  | refused hphase => exact h
  | stopped hphase | panicked hphase hpanic => exact h.halt
  | moved hphase hmove =>
    exact .enter h.rows (.of_idle (h.ready _ _ hphase).onChain hmove.idle)
  | updated hphase hwrite hw hupdate => exact h.updated hphase hupdate
  | @notUpdated cfg activity event w f activity' hphase hwrite hw hupdate =>
    have honChain := (h.ready _ _ hphase).onChain
    have hunrecorded : activity.unrecorded = none := by
      cases hresult : activity.unrecorded with
      | none => rfl
      | some result =>
        have hrecorded := hfaithful.recorded (by simp [Daemon.unrecorded, hphase, hresult])
        simp [hwrite, hw] at hrecorded
    exact .enter h.rows (.of_idle honChain (hupdate.idle honChain hunrecorded))
  | submitted hphase hsubmitStep hsubmit hresult =>
    refine .enter h.rows.record ⟨(h.ready _ _ hphase).onChain, ?_, ?_⟩
    · intro result hunrecorded
      rw [(hsubmitStep.unrecorded.1 _).1, Option.some.injEq] at hunrecorded
      exact hunrecorded ▸ succeeded_of_submit hsubmit hresult hfaithful.mined
    · intro batchId hconfirms
      rw [(hsubmitStep.unrecorded.1 _).2] at hconfirms
      contradiction
  | submitFailed hphase hsubmitStep hsubmit hresult =>
    exact .enter h.rows.record
      (.of_idle (h.ready _ _ hphase).onChain hsubmitStep.unrecorded.2)
  | accepted hphase hinsert =>
    refine .enter ?_ (.of_idle (h.ready _ _ hphase).onChain ⟨rfl, rfl⟩)
    obtain ⟨-, new, hrows, -, hnew⟩ := insertOrIgnore_rows hinsert
    intro row hrow hstate
    change row ∈ KeyedTable.rows _ at hrow
    rw [Daemon.setOutbox, hrows, List.mem_append, List.mem_singleton] at hrow
    rcases hrow with hold | rfl
    · exact h.rows row hold hstate
    · rw [hnew] at hstate
      contradiction
  | fileWritten hphase | fileFailed hphase | removed hphase | notRemoved hphase =>
    exact .enter h.rows (.of_idle (h.ready _ _ hphase).onChain ⟨rfl, rfl⟩)

end Step

theorem confirmsSucceeded_initial : ConfirmsSucceeded .initial :=
  ⟨fun _ hrow => absurd hrow List.not_mem_nil, Daemon.running_of_stopped rfl⟩

/-- With verification on chain, in every run in which every transaction that is mined has
status 1 and the write of its hash succeeds, the rows that are marked as confirmed have the
hash of a transaction that succeeded. -/
theorem confirmed_succeeded_of_faithful (rt : Runtime) (events : List DaemonEvent) (d : Daemon)
    (hr : Run (DaemonStep rt) .initial events d) (hmode : ∀ event ∈ events, event.OnChain)
    (hfaithful : Along (DaemonStep rt) Faithful .initial events) : d.ConfirmedSucceeded := by
  have honChain : Along (DaemonStep rt) (fun _ event => event.OnChain) .initial events :=
    Along.of_forall fun event hevent _ => hmode event hevent
  have hinvariant : ConfirmsSucceeded d := by
    refine hr.invariant (I := ConfirmsSucceeded) ?_ (honChain.and hfaithful)
      confirmsSucceeded_initial
    rintro d event d' h ⟨hon, hok⟩ hstep
    exact hstep.confirmsSucceeded hon hok h
  exact hinvariant.rows

def oneBatch : FetchedBatch :=
  fetchedBatch ['b', '1'] 2 [1, 2, 3]

def oneBatchRuntime : Runtime :=
  localRuntime [.ofFetched (localRuntime []) oneBatch (freshId 1)]

def confirmedWith (status : ℕ) : List DaemonEvent :=
  [.start calldataConfig true] ++ receive oneBatch (freshId 1) 1000 ++
    [minedWith status 0xa1, .write (writeAt 1010), .write (writeAt 1020), .removeFile true]

theorem confirmed_succeeded_statusOne :
    ∃ d, Run (DaemonStep oneBatchRuntime) .initial (confirmedWith 1) d ∧
      d.outbox.rows.map BatchSagaRecord.state = [.confirmedOnL1] ∧ d.ConfirmedSucceeded := by
  obtain ⟨d, hr, h⟩ := exists_run_of_foldlM (daemonStep oneBatchRuntime) .initial (confirmedWith 1)
    (fun d => d.outbox.rows.map BatchSagaRecord.state) (b := [.confirmedOnL1]) (by decide +kernel)
  have hmode : ∀ event ∈ confirmedWith 1, event.OnChain := by decide +kernel
  have hfaithful : Along (DaemonStep oneBatchRuntime) Faithful .initial (confirmedWith 1) :=
    Along.of_check (f := daemonStep oneBatchRuntime) (by decide +kernel)
  exact ⟨d, hr, h, confirmed_succeeded_of_faithful oneBatchRuntime (confirmedWith 1) d hr hmode
    hfaithful⟩

/-- The transaction reverts, and the row is marked as confirmed all the same. -/
theorem confirmed_not_succeeded_reverted :
    ∃ d, Run (DaemonStep oneBatchRuntime) .initial (confirmedWith 0) d ∧
      d.outbox.rows.map (fun row => (row.state, row.txHash)) =
        [(.confirmedOnL1, some (H256.debug (Vector.replicate 32 0xa1)))] ∧
      d.submissions.map (fun s => s.sent.map Prod.snd) =
        [some (.mined (Vector.replicate 32 0xa1) ⟨some 0, some 7, some 90000⟩)] ∧
      ¬d.ConfirmedSucceeded := by
  obtain ⟨d, hr, h⟩ := exists_run_of_foldlM (daemonStep oneBatchRuntime) .initial (confirmedWith 0)
    (fun d => (d.outbox.rows.map (fun row => (row.state, row.txHash)),
      d.submissions.map (fun s => s.sent.map Prod.snd), decide d.ConfirmedSucceeded))
    (b := ([(.confirmedOnL1, some (H256.debug (Vector.replicate 32 0xa1)))],
      [some (.mined (Vector.replicate 32 0xa1) ⟨some 0, some 7, some 90000⟩)], false))
    (by decide +kernel)
  obtain ⟨hrows, h⟩ := Prod.mk.inj h
  obtain ⟨hsent, hnot⟩ := Prod.mk.inj h
  exact ⟨d, hr, hrows, hsent, of_decide_eq_false hnot⟩

end RollupX.Submitter
