import RollupX.Verification.Submitter.Confirmation

/-! The life of a row in the outbox. The functions of the outbox overwrite the state of a row
without looking at it. -/

namespace RollupX.Submitter

open Machine

def SagaState.rank : SagaState → ℕ
  | .receivedFromExecutor => 0
  | .compressed => 1
  | .submittedToL1 => 2
  | .confirmedOnL1 => 3
  | .failed => 3

/-- What a row may become: its state does not go back, a row in one of the two last states
stays as it is, and a gas price that is there stays. -/
structure BatchSagaRecord.Advances (row row' : BatchSagaRecord) : Prop where
  key : row'.batchId = row.batchId
  state : row.state.rank ≤ row'.state.rank
  settled : row.state.rank = 3 → row' = row
  gasPrice : row.originalGasPrice ≠ none → row'.originalGasPrice = row.originalGasPrice

theorem BatchSagaRecord.Advances.refl (row : BatchSagaRecord) : row.Advances row :=
  ⟨rfl, le_rfl, fun _ => rfl, fun _ => rfl⟩

theorem BatchSagaRecord.Advances.trans {row row' row'' : BatchSagaRecord}
    (h : row.Advances row') (h' : row'.Advances row'') : row.Advances row'' := by
  refine ⟨h'.key.trans h.key, h.state.trans h'.state, fun hsettled => ?_, fun hprice => ?_⟩
  · have hsame := h.settled hsettled
    rw [hsame] at h'
    exact h'.settled hsettled
  · have hkept := h.gasPrice hprice
    rw [← hkept] at hprice
    exact (h'.gasPrice hprice).trans hkept

def SagaOutbox.Advances (outbox outbox' : SagaOutbox) : Prop :=
  ∀ row ∈ outbox.rows, ∃ row' ∈ outbox'.rows, row.Advances row'

theorem SagaOutbox.Advances.refl (outbox : SagaOutbox) : outbox.Advances outbox :=
  fun row hrow => ⟨row, hrow, .refl row⟩

theorem SagaOutbox.Advances.trans {outbox outbox' outbox'' : SagaOutbox}
    (h : outbox.Advances outbox') (h' : outbox'.Advances outbox'') : outbox.Advances outbox'' := by
  intro row hrow
  obtain ⟨row', hrow', hadv⟩ := h row hrow
  obtain ⟨row'', hrow'', hadv'⟩ := h' row' hrow'
  exact ⟨row'', hrow'', hadv.trans hadv'⟩

def Activity.records : Activity → List BatchSagaRecord
  | .scanning record rest _ => record :: rest
  | .bumped record _ rest _ => record :: rest
  | _ => []

def Activity.recording : Activity → List Batch
  | .resumed batch _ _ _ => [batch]
  | .resumedSubmitted batch _ => [batch]
  | _ => []

/-- The id of the new batch, and how far its row may have come. -/
def Activity.reached : Activity → Option (Text × ℕ)
  | .received fetched _ => some (fetched.batchId, 0)
  | .written fetched _ => some (fetched.batchId, 0)
  | .compressed fetched _ => some (fetched.batchId, 1)
  | .submitted fetched _ _ => some (fetched.batchId, 1)
  | .confirming fetched => some (fetched.batchId, 2)
  | _ => none

section Activities

variable {records : List BatchSagaRecord} {queue : List (Batch × Text)}

@[simp] theorem records_resume : (Activity.resume queue).records = [] := by
  cases queue <;> rfl

@[simp] theorem records_scan : (Activity.scan records queue).records = records := by
  cases records with
  | nil => exact records_resume
  | cons record rest => rfl

@[simp] theorem recording_resume : (Activity.resume queue).recording = [] :=
  Activity.resume_elim (P := fun a => a.recording = []) queue rfl fun _ _ _ => rfl

@[simp] theorem recording_scan : (Activity.scan records queue).recording = [] :=
  Activity.scan_elim (P := fun a => a.recording = []) records queue rfl (fun _ _ _ => rfl)
    fun _ _ => rfl

@[simp] theorem reached_scan : (Activity.scan records queue).reached = none :=
  Activity.scan_elim (P := fun a => a.reached = none) records queue rfl (fun _ _ _ => rfl)
    fun _ _ => rfl

end Activities

/-- `fresh` holds of the batches whose ids are not those of rows. -/
structure Activity.Consistent (rt : Runtime) (fresh : Batch → Prop) (outbox : SagaOutbox)
    (activity : Activity) : Prop where
  read : ∀ record ∈ activity.records, record ∈ outbox.rows
  distinct : (activity.records.map BatchSagaRecord.batchId).Nodup
  bumped : ∀ {record newHash rest queue}, activity = .bumped record newHash rest queue →
    record.state = .submittedToL1
  resumes : ∀ entry ∈ activity.queue rt, fresh entry.1
  recording : ∀ batch ∈ activity.recording, fresh batch
  reached : ∀ {batchId n}, activity.reached = some (batchId, n) → ∀ row ∈ outbox.rows,
    row.batchId = batchId → row.state.rank ≤ n ∧ (n ≤ 1 → row.originalGasPrice = none)

/-- The batches whose ids no executor gives. -/
def FreshFor (executorIds : List Text) (batch : Batch) : Prop :=
  batch.id.toString ∉ executorIds

/-- The rows have ids of the executor, the batches in them have not, and the process goes by
them. -/
structure Lifecycle (rt : Runtime) (executorIds : List Text) (d : Daemon) : Prop where
  known : ∀ row ∈ d.outbox.rows, row.batchId ∈ executorIds
  stored : ∀ row ∈ d.outbox.rows, ∀ batch, row.batchData.bind rt.batchFromStr = some batch →
    FreshFor executorIds batch
  running : d.Running fun _ activity =>
    activity.Consistent rt (FreshFor executorIds) d.outbox

theorem lifecycle_initial (rt : Runtime) (executorIds : List Text) :
    Lifecycle rt executorIds .initial :=
  ⟨fun _ h => absurd h List.not_mem_nil, fun _ h => absurd h List.not_mem_nil,
    Daemon.running_of_stopped rfl⟩

section Step

variable {rt : Runtime} {executorIds : List Text} {d : Daemon} {cfg : Config}
  {activity activity' : Activity} {fresh : Batch → Prop} {outbox : SagaOutbox}

theorem Activity.Consistent.of_reached (hrecords : activity.records = [])
    (hqueue : activity.queue rt = []) (hrecording : activity.recording = [])
    (hreached : ∀ {batchId n}, activity.reached = some (batchId, n) → ∀ row ∈ outbox.rows,
      row.batchId = batchId → row.state.rank ≤ n ∧ (n ≤ 1 → row.originalGasPrice = none)) :
    activity.Consistent rt fresh outbox where
  read := by simp [hrecords]
  distinct := by simp [hrecords]
  bumped := by
    rintro record newHash rest queue rfl
    cases hrecords
  resumes := by simp [hqueue]
  recording := by simp [hrecording]
  reached := hreached

theorem Activity.Consistent.of_idle (hrecords : activity.records = [])
    (hqueue : activity.queue rt = []) (hrecording : activity.recording = [])
    (hreached : activity.reached = none) : activity.Consistent rt fresh outbox :=
  .of_reached hrecords hqueue hrecording (by simp [hreached])

theorem Activity.Consistent.polling : Activity.polling.Consistent rt fresh outbox :=
  .of_idle rfl rfl rfl rfl

/-- The scan goes on with records that are in the outbox. -/
theorem Activity.Consistent.scan {records : List BatchSagaRecord} {queue : List (Batch × Text)}
    (hread : ∀ record ∈ records, record ∈ outbox.rows)
    (hdistinct : (records.map BatchSagaRecord.batchId).Nodup)
    (hresumes : ∀ entry ∈ queue ++ records.filterMap (BatchSagaRecord.toResume rt), fresh entry.1) :
    (Activity.scan records queue).Consistent rt fresh outbox where
  read := by rwa [records_scan]
  distinct := by rwa [records_scan]
  bumped := by
    intro record newHash rest queue' h
    have hnot : Activity.scan records queue ≠ .bumped record newHash rest queue' :=
      Activity.scan_elim (P := (· ≠ .bumped record newHash rest queue')) records queue
        Activity.noConfusion (fun _ _ _ => Activity.noConfusion) fun _ _ => Activity.noConfusion
    exact absurd h hnot
  resumes := by rwa [queue_scan]
  recording := by simp
  reached := by simp

theorem Activity.Consistent.resume {queue : List (Batch × Text)}
    (h : ∀ entry ∈ queue, fresh entry.1) : (Activity.resume queue).Consistent rt fresh outbox := by
  have hscan : (Activity.scan [] queue).Consistent rt fresh outbox :=
    .scan (by simp) List.nodup_nil (by simpa using h)
  exact hscan

theorem Activity.Consistent.confirming {fetched : FetchedBatch} {outbox' : SagaOutbox} {now : ℤ}
    {txHash : Text} {nonce : Option ℤ} {gasPrice : Option Text}
    (hrank : ∀ row ∈ outbox.rows, row.batchId = fetched.batchId → row.state.rank ≤ 1)
    (hor : outbox' = outbox.updateSubmission now fetched.batchId txHash nonce gasPrice ∨
      outbox' = outbox) : (Activity.confirming fetched).Consistent rt fresh outbox' := by
  refine .of_reached rfl rfl rfl ?_
  rintro _ _ ⟨⟩ row hrow hid
  refine ⟨?_, fun hle => absurd hle (by decide)⟩
  rcases hor with rfl | rfl
  · rcases mem_updateSubmission hrow with ⟨-, hne⟩ | ⟨-, hstate, -⟩
    · exact absurd hid hne
    · rw [hstate, SagaState.rank]
  · exact (hrank row hrow hid).trans one_le_two

theorem Activity.Consistent.scan_rest {record : BatchSagaRecord} {rest : List BatchSagaRecord}
    {queue : List (Batch × Text)} {outbox' : SagaOutbox} {f : BatchSagaRecord → BatchSagaRecord}
    {hf : ∀ row, (f row).batchId = row.batchId}
    (hread : ∀ other ∈ record :: rest, other ∈ outbox.rows)
    (hdistinct : ((record :: rest).map BatchSagaRecord.batchId).Nodup)
    (hresumes : ∀ entry ∈ queue ++ rest.filterMap (BatchSagaRecord.toResume rt), fresh entry.1)
    (hor : outbox' = outbox.update record.batchId f hf ∨ outbox' = outbox) :
    (Activity.scan rest queue).Consistent rt fresh outbox' := by
  obtain ⟨hne, hdistinct⟩ := List.nodup_cons.mp hdistinct
  refine .scan (fun other hother => ?_) hdistinct hresumes
  have hold := hread other (List.mem_cons_of_mem _ hother)
  rcases hor with rfl | rfl
  · exact KeyedTable.mem_update_of_ne hold fun hid => hne (hid ▸ List.mem_map_of_mem hother)
  · exact hold

theorem Lifecycle.halt (h : Lifecycle rt executorIds d) : Lifecycle rt executorIds d.halt :=
  ⟨h.known, h.stored, Daemon.running_of_stopped rfl⟩

theorem Lifecycle.enter (h : Lifecycle rt executorIds d)
    (hactivity : activity.Consistent rt (FreshFor executorIds) d.outbox) :
    Lifecycle rt executorIds (d.enter cfg activity) :=
  ⟨h.known, h.stored, Daemon.running_enter hactivity⟩

theorem MoveStep.consistent {event : DaemonEvent} (h : MoveStep rt activity event activity')
    (hc : activity.Consistent rt fresh outbox) : activity'.Consistent rt fresh outbox := by
  have hqueue := h.queue_eq.1
  have hresumes := hc.resumes
  rw [← hqueue] at hresumes
  cases h with
  | queued | bumpFailed hstate =>
    rw [queue_scan] at hresumes
    exact .scan (List.forall_mem_cons.mp hc.read).2 (List.nodup_cons.mp hc.distinct).2 hresumes
  | bumpSent hstate =>
    refine ⟨hc.read, hc.distinct, ?_, hresumes, by simp [Activity.recording],
      by simp [Activity.reached]⟩
    rintro _ _ _ _ ⟨⟩
    exact hstate
  | skipped | fetchFailed => exact hc

theorem Lifecycle.started {queried : Bool} (h : Lifecycle rt executorIds d) :
    Lifecycle rt executorIds
      (d.enter cfg (.scan (if queried then d.outbox.getUnconfirmedBatches else []) [])) := by
  refine h.enter ?_
  cases queried with
  | false => exact .polling
  | true =>
    refine .scan (fun _ => mem_getUnconfirmedBatches) (nodup_unconfirmed_ids _) ?_
    intro entry hentry
    obtain ⟨row, hrow, hresume⟩ := List.mem_filterMap.mp hentry
    exact h.stored row (mem_getUnconfirmedBatches hrow) _ (toResume_eq_some hresume).2.1

theorem advances_setState {row : BatchSagaRecord} {state : SagaState} {now : ℤ}
    (hlt : row.state.rank < 3) (hle : row.state.rank ≤ state.rank) :
    row.Advances { row with state, lastUpdated := now } :=
  ⟨rfl, hle, fun hsettled => absurd hsettled hlt.ne, fun _ => rfl⟩

theorem advances_setSubmission {row : BatchSagaRecord} {txHash : Text} {nonce : Option ℤ}
    {gasPrice : Option Text} {now : ℤ} (hle : row.state.rank ≤ 2)
    (hprice : gasPrice = none ∨ row.originalGasPrice = none) :
    row.Advances { row with
      state := .submittedToL1
      txHash := some txHash
      nonce
      lastUpdated := now
      originalGasPrice := gasPrice.or row.originalGasPrice } := by
  refine ⟨rfl, hle, fun hsettled => absurd hsettled (by omega), fun hsome => ?_⟩
  rcases hprice with rfl | hnone
  · rfl
  · exact absurd hnone hsome

theorem UpdateStep.advances {f : SagaOutbox → SagaOutbox} (h : UpdateStep cfg activity f activity')
    (hknown : ∀ row ∈ outbox.rows, row.batchId ∈ executorIds)
    (hc : activity.Consistent rt (FreshFor executorIds) outbox) : outbox.Advances (f outbox) := by
  have hrow_eq : ∀ {record rest}, activity.records = record :: rest → ∀ row ∈ outbox.rows,
      row.batchId = record.batchId → row = record := by
    intro record rest hrecords row hrow hid
    exact outbox.eq_of_key_eq hrow (hc.read record (by simp [hrecords])) hid
  have hno_row : ∀ batch ∈ activity.recording, ∀ row ∈ outbox.rows,
      row.batchId ≠ batch.id.toString := by
    intro batch hbatch row hrow hid
    exact hc.recording batch hbatch (hid ▸ hknown row hrow)
  cases h with
  | gaveUp hstate =>
    refine KeyedTable.related_update .refl fun row hrow hid => ?_
    rw [hrow_eq rfl row hrow hid]
    exact advances_setState (by rw [hstate]; decide) (by rw [hstate]; decide)
  | bumped =>
    refine KeyedTable.related_update .refl fun row hrow hid => ?_
    rw [hrow_eq rfl row hrow hid]
    exact advances_setSubmission (by rw [hc.bumped rfl]; decide) (.inl rfl)
  | resumed | resumedSubmitted =>
    refine KeyedTable.related_update .refl fun row hrow hid => ?_
    exact absurd hid (hno_row _ List.mem_cons_self row hrow)
  | written | confirming =>
    refine KeyedTable.related_update .refl fun row hrow hid => ?_
    have hrank := (hc.reached rfl row hrow hid).1
    exact advances_setState (by omega) (by rw [SagaState.rank]; omega)
  | simulated hmode | submitted =>
    refine KeyedTable.related_update .refl fun row hrow hid => ?_
    obtain ⟨hrank, hprice⟩ := hc.reached rfl row hrow hid
    exact advances_setSubmission (by omega) (.inr (hprice le_rfl))

theorem UpdateStep.consistent {f : SagaOutbox → SagaOutbox} {outbox' : SagaOutbox}
    (h : UpdateStep cfg activity f activity') (hc : activity.Consistent rt fresh outbox)
    (hor : outbox' = f outbox ∨ outbox' = outbox) : activity'.Consistent rt fresh outbox' := by
  have hresumes := hc.resumes
  rw [← h.queue_eq.1] at hresumes
  cases h with
  | gaveUp hstate | bumped =>
    rw [queue_scan] at hresumes
    exact .scan_rest hc.read hc.distinct hresumes hor
  | resumed => exact ⟨by simp [Activity.records], List.nodup_nil, nofun, hresumes, hc.recording,
      nofun⟩
  | resumedSubmitted =>
    rw [queue_resume] at hresumes
    exact .resume hresumes
  | written =>
    refine .of_reached rfl rfl rfl ?_
    rintro _ _ ⟨⟩ row hrow hid
    rcases hor with rfl | rfl
    · rcases mem_updateState hrow with ⟨-, hne⟩ | ⟨old, hold, hid', rfl⟩
      · exact absurd hid hne
      · exact ⟨le_rfl, fun _ => (hc.reached rfl old hold hid').2 zero_le_one⟩
    · obtain ⟨hrank, hprice⟩ := hc.reached rfl row hrow hid
      exact ⟨hrank.trans zero_le_one, fun _ => hprice zero_le_one⟩
  | simulated hmode =>
    exact .confirming (fun row hrow hid => (hc.reached rfl row hrow hid).1) hor
  | submitted => exact .confirming (fun row hrow hid => (hc.reached rfl row hrow hid).1) hor
  | confirming => exact .of_idle rfl rfl rfl rfl

theorem Lifecycle.updated {f : SagaOutbox → SagaOutbox} (h : Lifecycle rt executorIds d)
    (hphase : d.phase = .running cfg activity) (hstep : UpdateStep cfg activity f activity') :
    Lifecycle rt executorIds ((d.setOutbox (f d.outbox)).enter cfg activity') := by
  have hcolumns : ∀ row ∈ (f d.outbox).rows, ∃ old ∈ d.outbox.rows, old.payload = row.payload := by
    intro row hrow
    have hmem := List.mem_map_of_mem (f := BatchSagaRecord.payload) hrow
    rw [hstep.payloads] at hmem
    exact List.mem_map.mp hmem
  refine ⟨?_, ?_, Daemon.running_enter (hstep.consistent (h.running cfg activity hphase)
    (.inl rfl))⟩
  · intro row hrow
    obtain ⟨old, hold, hpayload⟩ := hcolumns row hrow
    have hid : old.batchId = row.batchId := congrArg Prod.fst hpayload
    exact hid ▸ h.known old hold
  · intro row hrow batch hbatch
    obtain ⟨old, hold, hpayload⟩ := hcolumns row hrow
    have hdata : old.batchData = row.batchData := congrArg (fun columns => columns.2.1) hpayload
    exact h.stored old hold batch (hdata ▸ hbatch)

theorem SubmitStep.consistent {tx : Option L1Transaction} {recovered : Bool} {batch : Batch}
    {proofHex : Text} {verifierId : UInt8} {onOk : SubmissionResult → Activity}
    {onError : Activity}
    (h : SubmitStep rt cfg tx activity recovered batch proofHex verifierId onOk onError)
    (hc : activity.Consistent rt fresh outbox) :
    (∀ result, (onOk result).Consistent rt fresh outbox) ∧ onError.Consistent rt fresh outbox := by
  cases h with
  | resuming =>
    obtain ⟨hbatch, hqueue⟩ := List.forall_mem_cons.mp hc.resumes
    refine ⟨fun result => ?_, .resume hqueue⟩
    exact ⟨by simp [Activity.records], List.nodup_nil, nofun, hqueue,
      by simpa [Activity.recording] using hbatch, nofun⟩
  | compressed hmode =>
    refine ⟨fun result => .of_reached rfl rfl rfl ?_, .polling⟩
    rintro _ _ ⟨⟩
    exact hc.reached rfl

/-- A batch comes with an id of the executor, and what is read back of it has a fresh one. -/
def DaemonEvent.DeliversFresh (rt : Runtime) (executorIds : List Text) : DaemonEvent → Prop
  | .deliver fetched id _ _ => fetched.batchId ∈ executorIds ∧
      ∀ batch, rt.batchFromStr (rt.batchToString (.ofFetched rt fetched id)) = some batch →
        FreshFor executorIds batch
  | _ => True

theorem Lifecycle.accepted {fetched : FetchedBatch} {id : BatchId} {looked : Bool}
    {w : OutboxWrite} (h : Lifecycle rt executorIds d)
    (hfresh : (DaemonEvent.deliver fetched id looked w).DeliversFresh rt executorIds)
    (hinsert : d.outbox.insertOrIgnore w.now fetched.batchId
      (rt.batchToString (.ofFetched rt fetched id)) (hexText fetched.proof) = (true, outbox)) :
    Lifecycle rt executorIds ((d.setOutbox outbox).enter cfg (.received fetched id)) ∧
      d.outbox.Advances outbox := by
  have hspec := KeyedTable.insertOrIgnore_true (congrArg Prod.fst hinsert)
  have hrows : outbox.rows = _ := (congrArg (fun r => r.2.rows) hinsert).symm.trans hspec.2
  refine ⟨⟨?_, ?_, Daemon.running_enter (.of_reached rfl rfl rfl ?_)⟩, ?_⟩
  · change ∀ row ∈ outbox.rows, _
    rw [hrows, List.forall_mem_append, List.forall_mem_singleton]
    exact ⟨h.known, hfresh.1⟩
  · change ∀ row ∈ outbox.rows, _
    rw [hrows, List.forall_mem_append, List.forall_mem_singleton]
    exact ⟨h.stored, hfresh.2⟩
  · rintro _ _ ⟨⟩
    change ∀ row ∈ outbox.rows, _
    rw [hrows, List.forall_mem_append, List.forall_mem_singleton]
    exact ⟨fun row hrow hid => absurd hid (hspec.1 row hrow), fun _ => ⟨le_rfl, fun _ => rfl⟩⟩
  · intro row hrow
    exact ⟨row, by rw [hrows]; exact List.mem_append_left _ hrow, .refl row⟩

end Step

section Runs

variable {rt : Runtime} {executorIds : List Text} {d d' : Daemon}

theorem DaemonStep.lifecycle {event : DaemonEvent} (hstep : DaemonStep rt d event d')
    (hfresh : event.DeliversFresh rt executorIds) (h : Lifecycle rt executorIds d) :
    Lifecycle rt executorIds d' ∧ d.outbox.Advances d'.outbox := by
  have hconsistent : ∀ {cfg activity}, d.phase = .running cfg activity →
      activity.Consistent rt (FreshFor executorIds) d.outbox := fun hphase => h.running _ _ hphase
  cases step_effect hstep with
  | started hphase => exact ⟨h.started, .refl _⟩
  | refused hphase => exact ⟨h, .refl _⟩
  | stopped hphase | panicked hphase hpanic => exact ⟨h.halt, .refl _⟩
  | moved hphase hmove => exact ⟨h.enter (hmove.consistent (hconsistent hphase)), .refl _⟩
  | updated hphase hwrite hw hupdate =>
    exact ⟨h.updated hphase hupdate, hupdate.advances h.known (hconsistent hphase)⟩
  | notUpdated hphase hwrite hw hupdate =>
    exact ⟨h.enter (hupdate.consistent (hconsistent hphase) (.inr rfl)), .refl _⟩
  | submitted hphase hsubmit hcall hresult =>
    exact ⟨⟨h.known, h.stored,
      Daemon.running_enter ((hsubmit.consistent (hconsistent hphase)).1 _)⟩, .refl _⟩
  | submitFailed hphase hsubmit hcall hresult =>
    exact ⟨⟨h.known, h.stored,
      Daemon.running_enter (hsubmit.consistent (hconsistent hphase)).2⟩, .refl _⟩
  | accepted hphase hinsert => exact h.accepted hfresh hinsert
  | fileWritten hphase =>
    refine ⟨⟨h.known, h.stored, Daemon.running_enter (.of_reached rfl rfl rfl ?_)⟩, .refl _⟩
    rintro _ _ ⟨⟩
    exact (hconsistent hphase).reached rfl
  | fileFailed hphase | removed hphase =>
    exact ⟨⟨h.known, h.stored, Daemon.running_enter .polling⟩, .refl _⟩
  | notRemoved hphase => exact ⟨h.enter .polling, .refl _⟩

theorem run_lifecycle {events : List DaemonEvent} (hr : Run (DaemonStep rt) d events d')
    (hfresh : ∀ event ∈ events, event.DeliversFresh rt executorIds)
    (h : Lifecycle rt executorIds d) :
    Lifecycle rt executorIds d' ∧ d.outbox.Advances d'.outbox := by
  refine hr.invariant (I := fun t => Lifecycle rt executorIds t ∧ d.outbox.Advances t.outbox) ?_
    (Along.of_forall fun event hevent _ => hfresh event hevent) ⟨h, .refl _⟩
  intro s event t hs hok hstep
  obtain ⟨ht, hadvances⟩ := hstep.lifecycle hok hs.1
  exact ⟨ht, hs.2.trans hadvances⟩

end Runs

/-- The ids of the executor in the deliveries, and those that the daemon generates for them. -/
def DaemonEvent.executorId : DaemonEvent → Option Text
  | .deliver fetched _ _ _ => some fetched.batchId
  | _ => none

def DaemonEvent.generatedId : DaemonEvent → Option Text
  | .deliver _ id _ _ => some id.toString
  | _ => none

/-- What is read back of a delivered batch has the id that was written. -/
def DaemonEvent.KeepsId (rt : Runtime) : DaemonEvent → Prop
  | .deliver fetched id _ _ => ∀ batch,
      rt.batchFromStr (rt.batchToString (.ofFetched rt fetched id)) = some batch → batch.id = id
  | _ => True

/-- Over any deliveries, restarts, failed submissions and failed accesses to the outbox, in which
no fresh id is one of the executor: between any two states of a run no row goes back, a row that
is confirmed or has failed stays as it is, and a gas price that is there stays. -/
theorem outbox_advances (rt : Runtime) (before after : List DaemonEvent) (d d' : Daemon)
    (hr : Run (DaemonStep rt) .initial before d) (hr' : Run (DaemonStep rt) d after d')
    (hkeeps : ∀ event ∈ before ++ after, event.KeepsId rt)
    (hfresh : ((before ++ after).filterMap DaemonEvent.generatedId).Disjoint
      ((before ++ after).filterMap DaemonEvent.executorId)) :
    d.outbox.Advances d'.outbox := by
  have hdelivers : ∀ event ∈ before ++ after, event.DeliversFresh rt
      ((before ++ after).filterMap DaemonEvent.executorId) := by
    intro event hevent
    cases event with
    | deliver fetched id looked w =>
      refine ⟨List.mem_filterMap.mpr ⟨_, hevent, rfl⟩, fun batch hbatch => ?_⟩
      rw [FreshFor, hkeeps _ hevent batch hbatch]
      exact fun hmem => hfresh (List.mem_filterMap.mpr ⟨_, hevent, rfl⟩) hmem
    | _ => trivial
  rw [List.forall_mem_append] at hdelivers
  obtain ⟨hlife, -⟩ := run_lifecycle hr hdelivers.1 (lifecycle_initial rt _)
  exact (run_lifecycle hr' hdelivers.2 hlife).2

theorem DaemonEvent.KeepsId.of_roundTrips {rt : Runtime} {event : DaemonEvent}
    (h : event.RoundTrips rt) : event.KeepsId rt := by
  cases event with
  | deliver fetched id looked w =>
    intro batch hbatch
    rw [show rt.batchFromStr _ = some _ from h, Option.some.injEq] at hbatch
    rw [← hbatch]
    rfl
  | _ => trivial

def stoppedSubmitted : List DaemonEvent :=
  [.start calldataConfig true] ++ receive oneBatch (freshId 1) 1000 ++
    [minedWith 1 0xa1, .write (writeAt 1010), .stop]

def bumpedOnce : List DaemonEvent :=
  [.start calldataConfig true,
    .scan 400000 (some tenWei) (.ok (Vector.replicate 32 0xb1)) (writeAt 400000),
    .write (writeAt 400010), .stop]

theorem outbox_advances_bumpedOnce :
    ∃ d d', Run (DaemonStep oneBatchRuntime) .initial stoppedSubmitted d ∧
      Run (DaemonStep oneBatchRuntime) d bumpedOnce d' ∧
      d'.outbox.rows.map (fun row => (row.state, row.originalGasPrice)) =
        [(.submittedToL1, some ['1', '0'])] ∧ d.outbox.Advances d'.outbox := by
  obtain ⟨d', hrun, hrows⟩ := exists_run_of_foldlM (daemonStep oneBatchRuntime) .initial
    (stoppedSubmitted ++ bumpedOnce)
    (fun d => d.outbox.rows.map fun row => (row.state, row.originalGasPrice))
    (b := [(.submittedToL1, some ['1', '0'])]) (by decide +kernel)
  obtain ⟨d, hr, hr'⟩ := run_append_iff.mp hrun
  have htrips : ∀ event ∈ stoppedSubmitted ++ bumpedOnce, event.RoundTrips oneBatchRuntime := by
    decide +kernel
  refine ⟨d, d', hr, hr', hrows, outbox_advances oneBatchRuntime stoppedSubmitted bumpedOnce d d'
    hr hr' (fun event hevent => .of_roundTrips (htrips event hevent)) ?_⟩
  rw [List.disjoint_left]
  decide +kernel

end RollupX.Submitter
