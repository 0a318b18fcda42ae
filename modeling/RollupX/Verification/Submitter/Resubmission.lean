import RollupX.Verification.Submitter.Steps

/-! How often a batch is submitted. -/

namespace RollupX.Submitter

open Machine

/-- The data files of the batches for which `submit` returned `Ok`, oldest first. -/
def Daemon.committed (d : Daemon) : List Text :=
  (d.submissions.filter fun s => s.result.isOk).map fun s => s.batch.dataFile

def Daemon.commits (d : Daemon) (batchId : Text) : ℕ :=
  d.committed.count (dataFileOf batchId)

def Activity.toSubmit (rt : Runtime) (activity : Activity) : List Text :=
  ((activity.queue rt).map Prod.fst ++ activity.fresh rt).map Batch.dataFile

def Daemon.toSubmit (rt : Runtime) (d : Daemon) : List Text :=
  match d.phase with
  | .stopped => []
  | .running _ activity => activity.toSubmit rt

def Activity.acknowledging : Activity → Option Text
  | .submitted fetched _ _ => some fetched.batchId
  | _ => none

def Daemon.acknowledging (d : Daemon) : Option Text :=
  match d.phase with
  | .stopped => none
  | .running _ activity => activity.acknowledging

theorem toSubmit_of_phase {rt : Runtime} {d : Daemon} {cfg : Config} {activity : Activity}
    (hphase : d.phase = .running cfg activity) : d.toSubmit rt = activity.toSubmit rt := by
  rw [Daemon.toSubmit, hphase]

theorem acknowledging_of_phase {d : Daemon} {cfg : Config} {activity : Activity}
    (hphase : d.phase = .running cfg activity) : d.acknowledging = activity.acknowledging := by
  rw [Daemon.acknowledging, hphase]

theorem acknowledging_of_mayPanic {activity : Activity} (h : activity.mayPanic = true) :
    activity.acknowledging = none := by
  cases activity with
  | submitted fetched result tx => contradiction
  | _ => rfl

def Daemon.isPolling (d : Daemon) : Bool :=
  match d.phase with
  | .running _ .polling => true
  | _ => false

/-- The process stops only between two iterations or after the recovery pass, updates of rows
succeed, and batches can be read back from the outbox. -/
structure Orderly (rt : Runtime) (d : Daemon) (event : DaemonEvent) : Prop where
  stop : event matches .stop → d.isPolling = true
  write : (event.rowWrite.all OutboxWrite.succeeds) = true
  roundTrips : event.RoundTrips rt

instance (rt : Runtime) (d : Daemon) (event : DaemonEvent) : Decidable (Orderly rt d event) :=
  decidable_of_iff ((event matches .stop → d.isPolling = true) ∧
      (event.rowWrite.all OutboxWrite.succeeds) = true ∧ event.RoundTrips rt)
    ⟨fun h => ⟨h.1, h.2.1, h.2.2⟩, fun h => ⟨h.1, h.2, h.3⟩⟩

/-- No process starts and queries the outbox while a row is in one of the first two states whose
batch an earlier recovery pass has submitted with success. -/
def ResumesNone (d : Daemon) (event : DaemonEvent) : Prop :=
  event matches .start _ true → ∀ row ∈ d.outbox.rows, row.isPending = true →
    ∀ s ∈ d.submissions, s.recovered = true → s.result.isOk = true →
      s.batch.dataFile ≠ dataFileOf row.batchId

instance (d : Daemon) (event : DaemonEvent) : Decidable (ResumesNone d event) :=
  inferInstanceAs (Decidable (event matches .start _ true → ∀ row ∈ d.outbox.rows,
    row.isPending = true → ∀ s ∈ d.submissions, s.recovered = true → s.result.isOk = true →
      s.batch.dataFile ≠ dataFileOf row.batchId))

def SagaOutbox.dataFiles (outbox : SagaOutbox) : List Text :=
  outbox.rows.map fun row => dataFileOf row.batchId

/-- What was committed and what is still to be submitted are different batches with rows in
the outbox, and a row in one of the first two states was committed by a recovery pass, if it
was at all. -/
structure SubmitsOnce (rt : Runtime) (d : Daemon) : Prop where
  known : d.committed ++ d.toSubmit rt ⊆ d.outbox.dataFiles
  once : (d.committed ++ d.toSubmit rt).Nodup
  pending : ∀ row ∈ d.outbox.rows, row.isPending = true → ∀ s ∈ d.submissions,
    s.result.isOk = true → s.batch.dataFile = dataFileOf row.batchId →
      s.recovered = true ∨ d.acknowledging = some row.batchId

theorem submitsOnce_initial (rt : Runtime) : SubmitsOnce rt .initial :=
  ⟨List.nil_subset _, List.nodup_nil, fun _ hrow => absurd hrow List.not_mem_nil⟩

section Step

variable {rt : Runtime} {d : Daemon} {cfg : Config} {activity activity' : Activity}

theorem mem_committed {file : Text} :
    file ∈ d.committed ↔ ∃ s ∈ d.submissions, s.result.isOk = true ∧ s.batch.dataFile = file := by
  simp [Daemon.committed, and_assoc]

theorem committed_record_of_ok {submission : Submission} (files : Files)
    (hok : submission.result.isOk = true) :
    ((d.record files submission).enter cfg activity).committed =
      d.committed ++ [submission.batch.dataFile] := by
  simp [Daemon.committed, Daemon.record, Daemon.enter, List.filter_append, hok]

theorem committed_record_of_error {submission : Submission} (files : Files)
    (herror : submission.result.isOk = false) :
    ((d.record files submission).enter cfg activity).committed = d.committed := by
  simp [Daemon.committed, Daemon.record, Daemon.enter, List.filter_append, herror]

theorem insertOrIgnore_dataFiles {outbox outbox' : SagaOutbox} {now : ℤ}
    {batchId text proofHex : Text}
    (hinsert : outbox.insertOrIgnore now batchId text proofHex = (true, outbox')) :
    dataFileOf batchId ∉ outbox.dataFiles ∧
      outbox'.dataFiles = outbox.dataFiles ++ [dataFileOf batchId] := by
  obtain ⟨hnew, row, hrows, hpayload, -⟩ := insertOrIgnore_rows hinsert
  have hid : row.batchId = batchId := congrArg Prod.fst hpayload
  refine ⟨fun hmem => ?_, ?_⟩
  · obtain ⟨old, hold, hfile⟩ := List.mem_map.mp hmem
    exact hnew old hold (dataFileOf_injective hfile)
  · rw [SagaOutbox.dataFiles, hrows, List.map_append, List.map_singleton, hid]
    rfl

/-- A process that starts is to submit each batch once that has a row in one of the first two
states, or none if it cannot query the outbox. -/
theorem toSubmit_started (cfg : Config) (hrestores : d.outbox.Restores rt) (queried : Bool) :
    ((d.enter cfg (.scan (if queried then d.outbox.getUnconfirmedBatches else []) [])).toSubmit
        rt).Nodup ∧
      ∀ file ∈ (d.enter cfg (.scan (if queried then d.outbox.getUnconfirmedBatches else [])
          [])).toSubmit rt,
        queried = true ∧
          ∃ row ∈ d.outbox.rows, row.isPending = true ∧ dataFileOf row.batchId = file := by
  have hsubmit : ∀ records, (d.enter cfg (.scan records [])).toSubmit rt =
      (records.filterMap (BatchSagaRecord.toResume rt)).map fun entry => entry.1.dataFile := by
    intro records
    simp [Daemon.toSubmit, Daemon.enter, Activity.toSubmit, queue_scan, fresh_scan]
  rw [hsubmit]
  cases queried with
  | false => exact ⟨List.nodup_nil, fun _ hfile => absurd hfile List.not_mem_nil⟩
  | true =>
    have hmem : ∀ row ∈ d.outbox.getUnconfirmedBatches, row ∈ d.outbox.rows :=
      fun _ => mem_getUnconfirmedBatches
    refine ⟨(nodup_getUnconfirmedBatches _).sublist (toResume_dataFiles hrestores hmem), ?_⟩
    intro file hfile
    obtain ⟨entry, hentry, rfl⟩ := List.mem_map.mp hfile
    obtain ⟨row, hrow, hresume⟩ := List.mem_filterMap.mp hentry
    obtain ⟨hpending, hread, -⟩ := toResume_eq_some hresume
    exact ⟨rfl, row, hmem row hrow, hpending,
      (hrestores row.payload (List.mem_map_of_mem (hmem row hrow)) entry.1 hread).symm⟩

/-- Unless a batch is being acknowledged, it is a recovery pass that has committed a row in one
of the first two states. -/
theorem SubmitsOnce.recovered (h : SubmitsOnce rt d) (hack : d.acknowledging = none)
    {row : BatchSagaRecord} (hrow : row ∈ d.outbox.rows) (hpending : row.isPending = true)
    {s : Submission} (hs : s ∈ d.submissions) (hok : s.result.isOk = true)
    (hfile : s.batch.dataFile = dataFileOf row.batchId) : s.recovered = true := by
  rcases h.pending row hrow hpending s hs hok hfile with hrec | hsome
  · exact hrec
  · rw [hack] at hsome
    contradiction

theorem SubmitsOnce.enter (h : SubmitsOnce rt d) (hphase : d.phase = .running cfg activity)
    (hsubmit : (activity'.toSubmit rt).Sublist (activity.toSubmit rt))
    (hack : activity.acknowledging = none ∨ activity'.acknowledging = activity.acknowledging) :
    SubmitsOnce rt (d.enter cfg activity') := by
  have hfiles : (d.committed ++ activity'.toSubmit rt).Sublist (d.committed ++ d.toSubmit rt) := by
    rw [toSubmit_of_phase hphase]
    exact hsubmit.append_left _
  refine ⟨List.Subset.trans hfiles.subset h.known, h.once.sublist hfiles, ?_⟩
  intro row hrow hpending s hs hok hfile
  have hd := acknowledging_of_phase hphase
  rcases hack with hnone | hsame
  · exact .inl (h.recovered (hd.trans hnone) hrow hpending hs hok hfile)
  · have hkept := h.pending row hrow hpending s hs hok hfile
    rw [hd, ← hsame] at hkept
    exact hkept

theorem SubmitsOnce.halt (h : SubmitsOnce rt d) (hack : d.acknowledging = none) :
    SubmitsOnce rt d.halt := by
  have hfiles : (d.committed ++ []).Sublist (d.committed ++ d.toSubmit rt) :=
    (List.nil_sublist _).append_left _
  refine ⟨List.Subset.trans hfiles.subset h.known, h.once.sublist hfiles, ?_⟩
  intro row hrow hpending s hs hok hfile
  exact .inl (h.recovered hack hrow hpending hs hok hfile)

theorem SubmitsOnce.setFiles (h : SubmitsOnce rt d) (files : Files) :
    SubmitsOnce rt (d.setFiles files) :=
  ⟨h.known, h.once, h.pending⟩

theorem MoveStep.acknowledging {event : DaemonEvent} (h : MoveStep rt activity event activity') :
    activity.acknowledging = none := by
  cases h <;> rfl

theorem MoveStep.toSubmit {event : DaemonEvent} (h : MoveStep rt activity event activity') :
    (activity'.toSubmit rt).Sublist (activity.toSubmit rt) := by
  rw [Activity.toSubmit, h.queue_eq.1, h.queue_eq.2]
  exact List.Sublist.refl _

theorem UpdateStep.toSubmit {f : SagaOutbox → SagaOutbox}
    (h : UpdateStep cfg activity f activity') :
    (activity'.toSubmit rt).Sublist (activity.toSubmit rt) := by
  rw [Activity.toSubmit, h.queue_eq.1]
  exact (h.queue_eq.2.append_left _).map _

theorem UpdateStep.dataFiles {f : SagaOutbox → SagaOutbox}
    (h : UpdateStep cfg activity f activity') (outbox : SagaOutbox) :
    SagaOutbox.dataFiles (f outbox) = outbox.dataFiles := by
  have hfiles : ∀ o : SagaOutbox, o.dataFiles =
      (o.rows.map BatchSagaRecord.payload).map fun columns => dataFileOf columns.1 := by
    intro o
    rw [List.map_map]
    rfl
  rw [hfiles, hfiles, h.payloads]

theorem not_isPending {row : BatchSagaRecord} {state : SagaState} (hstate : row.state = state)
    (h : state ≠ .receivedFromExecutor ∧ state ≠ .compressed) : row.isPending = false := by
  simp [BatchSagaRecord.isPending, hstate, h]

/-- After an update the rows in the first two states are old ones that were not just
committed, or the one of the batch whose data was written. -/
theorem UpdateStep.pending {f : SagaOutbox → SagaOutbox} (h : UpdateStep cfg activity f activity')
    {outbox : SagaOutbox} {row : BatchSagaRecord} (hrow : row ∈ (f outbox).rows)
    (hpending : row.isPending = true) :
    (row ∈ outbox.rows ∧ activity.acknowledging ≠ some row.batchId) ∨
      ∃ fetched id, activity = .written fetched id ∧ row.batchId = fetched.batchId := by
  have hstate : ∀ {now : ℤ} {batchId : Text} {state : SagaState},
      row ∈ (outbox.updateState now batchId state).rows →
      state ≠ .receivedFromExecutor ∧ state ≠ .compressed → row ∈ outbox.rows := by
    intro now batchId state hrow hnot
    rcases mem_updateState hrow with ⟨hold, -⟩ | ⟨old, -, -, rfl⟩
    · exact hold
    · rw [not_isPending rfl hnot] at hpending
      contradiction
  have hsubmission : ∀ {now : ℤ} {batchId txHash : Text} {nonce : Option ℤ}
      {gasPrice : Option Text},
      row ∈ (outbox.updateSubmission now batchId txHash nonce gasPrice).rows →
      row ∈ outbox.rows ∧ row.batchId ≠ batchId := by
    intro now batchId txHash nonce gasPrice hrow
    rcases mem_updateSubmission hrow with hold | ⟨-, hnew, -⟩
    · exact hold
    · rw [not_isPending hnew (by decide)] at hpending
      contradiction
  cases h with
  | gaveUp hsub | resumedSubmitted | confirming => exact .inl ⟨hstate hrow (by decide), nofun⟩
  | bumped | resumed | simulated hmode => exact .inl ⟨(hsubmission hrow).1, nofun⟩
  | @written fetched id now =>
    rcases mem_updateState hrow with ⟨hold, -⟩ | ⟨old, -, hid, rfl⟩
    · exact .inl ⟨hold, nofun⟩
    · exact .inr ⟨fetched, id, rfl, hid⟩
  | @submitted fetched result tx now =>
    obtain ⟨hold, hne⟩ := hsubmission hrow
    exact .inl ⟨hold, fun hsame => hne (Option.some.inj hsame).symm⟩

theorem SubmitsOnce.updated {f : SagaOutbox → SagaOutbox} (h : SubmitsOnce rt d)
    (hphase : d.phase = .running cfg activity) (hstep : UpdateStep cfg activity f activity') :
    SubmitsOnce rt ((d.setOutbox (f d.outbox)).enter cfg activity') := by
  have hto : d.toSubmit rt = activity.toSubmit rt := toSubmit_of_phase hphase
  have hfiles : (d.committed ++ activity'.toSubmit rt).Sublist (d.committed ++ d.toSubmit rt) := by
    rw [hto]
    exact hstep.toSubmit.append_left _
  refine ⟨?_, h.once.sublist hfiles, ?_⟩
  · have hknown := List.Subset.trans hfiles.subset h.known
    rwa [← hstep.dataFiles d.outbox] at hknown
  · intro row hrow hpending s hs hok hfile
    rcases hstep.pending hrow hpending with ⟨hold, hne⟩ | ⟨fetched, id, rfl, hid⟩
    · rcases h.pending row hold hpending s hs hok hfile with hrec | hsome
      · exact .inl hrec
      · exact absurd ((acknowledging_of_phase hphase).symm.trans hsome) hne
    · have hcommitted : dataFileOf fetched.batchId ∈ d.committed :=
        mem_committed.mpr ⟨s, hs, hok, hid ▸ hfile⟩
      have hdisjoint := (List.nodup_append'.mp h.once).2.2 hcommitted
      rw [hto] at hdisjoint
      exact absurd List.mem_cons_self hdisjoint

theorem SubmitsOnce.accepted {fetched : FetchedBatch} {id : BatchId} {outbox : SagaOutbox}
    {now : ℤ} {text proofHex : Text} (h : SubmitsOnce rt d)
    (hphase : d.phase = .running cfg .polling)
    (hinsert : d.outbox.insertOrIgnore now fetched.batchId text proofHex = (true, outbox)) :
    SubmitsOnce rt ((d.setOutbox outbox).enter cfg (.received fetched id)) := by
  obtain ⟨hnew, hdataFiles⟩ := insertOrIgnore_dataFiles hinsert
  have hto : d.toSubmit rt = [] := toSubmit_of_phase hphase
  have hknown := h.known
  have honce := h.once
  rw [hto, List.append_nil] at hknown honce
  have hfresh : dataFileOf fetched.batchId ∉ d.committed := fun hmem => hnew (hknown hmem)
  have hsubmit : ((d.setOutbox outbox).enter cfg (.received fetched id)).toSubmit rt =
      [dataFileOf fetched.batchId] := rfl
  refine ⟨?_, ?_, ?_⟩
  · rw [hsubmit]
    change d.committed ++ _ ⊆ SagaOutbox.dataFiles outbox
    rw [hdataFiles]
    exact List.append_subset.mpr ⟨List.subset_append_of_subset_left _ hknown,
      List.subset_append_right _ _⟩
  · rw [hsubmit]
    exact List.nodup_append'.mpr
      ⟨honce, List.nodup_singleton _, List.disjoint_singleton.mpr hfresh⟩
  · intro r hr hpending s hs hok hfile
    obtain ⟨-, row, hrows, hpayload, -⟩ := insertOrIgnore_rows hinsert
    have hid : row.batchId = fetched.batchId := congrArg Prod.fst hpayload
    change r ∈ outbox.rows at hr
    rw [hrows, List.mem_append, List.mem_singleton] at hr
    rcases hr with hold | rfl
    · exact .inl (h.recovered (acknowledging_of_phase hphase) hold hpending hs hok hfile)
    · exact absurd (mem_committed.mpr ⟨s, hs, hok, hid ▸ hfile⟩) hfresh

theorem SubmitsOnce.started {queried : Bool} (h : SubmitsOnce rt d)
    (hrestores : d.outbox.Restores rt) (hphase : d.phase = .stopped)
    (hnone : ResumesNone d (.start cfg queried)) :
    SubmitsOnce rt (d.enter cfg
      (.scan (if queried then d.outbox.getUnconfirmedBatches else []) [])) := by
  have hknown := h.known
  have honce := h.once
  have hto : d.toSubmit rt = [] := by rw [Daemon.toSubmit, hphase]
  have hack : d.acknowledging = none := by rw [Daemon.acknowledging, hphase]
  rw [hto, List.append_nil] at hknown honce
  obtain ⟨hnodup, hrows⟩ := toSubmit_started cfg hrestores queried
  refine ⟨?_, ?_, ?_⟩
  · refine List.append_subset.mpr ⟨hknown, fun file hfile => ?_⟩
    obtain ⟨-, row, hrow, -, rfl⟩ := hrows file hfile
    exact List.mem_map_of_mem hrow
  · refine List.nodup_append'.mpr ⟨honce, hnodup, fun file hcommitted hresumed => ?_⟩
    obtain ⟨s, hs, hok, hfile⟩ := mem_committed.mp hcommitted
    obtain ⟨hqueried, row, hrow, hpending, hsame⟩ := hrows file hresumed
    have hrec := h.recovered hack hrow hpending hs hok (hfile.trans hsame.symm)
    exact hnone (by rw [hqueried]) row hrow hpending s hs hrec hok (hfile.trans hsame.symm)
  · intro row hrow hpending s hs hok hfile
    exact .inl (h.recovered hack hrow hpending hs hok hfile)

section Submit

variable {tx : Option L1Transaction} {recovered : Bool} {batch : Batch} {proofHex : Text}
  {verifierId : UInt8} {onOk : SubmissionResult → Activity} {onError : Activity} {files : Files}
  {submission : Submission}

theorem SubmitStep.toSubmit
    (h : SubmitStep rt cfg tx activity recovered batch proofHex verifierId onOk onError) :
    (∀ result, activity.toSubmit rt = batch.dataFile :: (onOk result).toSubmit rt) ∧
      activity.toSubmit rt = batch.dataFile :: onError.toSubmit rt := by
  cases h with
  | resuming =>
    refine ⟨fun _ => rfl, ?_⟩
    rw [Activity.toSubmit, Activity.toSubmit, queue_resume, fresh_resume]
    rfl
  | compressed hmode => exact ⟨fun _ => rfl, rfl⟩

theorem SubmitStep.acknowledging
    (h : SubmitStep rt cfg tx activity recovered batch proofHex verifierId onOk onError) :
    activity.acknowledging = none ∧ (recovered = true ∨ ∃ batchId,
      batch.dataFile = dataFileOf batchId ∧
        ∀ result, (onOk result).acknowledging = some batchId) := by
  cases h with
  | resuming => exact ⟨rfl, .inl rfl⟩
  | @compressed fetched id hmode => exact ⟨rfl, .inr ⟨fetched.batchId, rfl, fun _ => rfl⟩⟩

theorem SubmitsOnce.submitted {result : SubmissionResult} (h : SubmitsOnce rt d)
    (hphase : d.phase = .running cfg activity)
    (hstep : SubmitStep rt cfg tx activity recovered batch proofHex verifierId onOk onError)
    (hrecovered : submission.recovered = recovered) (hbatch : submission.batch = batch)
    (hresult : submission.result = .ok result) :
    SubmitsOnce rt ((d.record files submission).enter cfg (onOk result)) := by
  obtain ⟨hnone, hack⟩ := hstep.acknowledging
  have hfiles : ((d.record files submission).enter cfg (onOk result)).committed ++
      (onOk result).toSubmit rt = d.committed ++ d.toSubmit rt := by
    have hto : d.toSubmit rt = batch.dataFile :: (onOk result).toSubmit rt := by
      rw [← hstep.toSubmit.1 result]
      exact toSubmit_of_phase hphase
    rw [committed_record_of_ok files (by rw [hresult]; rfl), hto, hbatch, List.append_assoc]
    rfl
  refine ⟨?_, ?_, ?_⟩
  · exact hfiles ▸ h.known
  · exact hfiles ▸ h.once
  · intro row hrow hpending s hs hok hfile
    change s ∈ d.submissions ++ [submission] at hs
    rw [List.mem_append, List.mem_singleton] at hs
    rcases hs with hold | rfl
    · have hd := (acknowledging_of_phase hphase).trans hnone
      exact .inl (h.recovered hd hrow hpending hold hok hfile)
    · rcases hack with htrue | ⟨batchId, hid, hsome⟩
      · exact .inl (hrecovered.trans htrue)
      · right
        rw [hbatch, hid] at hfile
        rw [← dataFileOf_injective hfile]
        exact hsome result

theorem SubmitsOnce.submitFailed {e : DomainError} (h : SubmitsOnce rt d)
    (hphase : d.phase = .running cfg activity)
    (hstep : SubmitStep rt cfg tx activity recovered batch proofHex verifierId onOk onError)
    (hresult : submission.result = .error e) :
    SubmitsOnce rt ((d.record files submission).enter cfg onError) := by
  have hok : submission.result.isOk = false := by rw [hresult]; rfl
  have hcommitted : ((d.record files submission).enter cfg onError).committed = d.committed :=
    committed_record_of_error files hok
  have hfiles : (d.committed ++ onError.toSubmit rt).Sublist (d.committed ++ d.toSubmit rt) := by
    have hto : d.toSubmit rt = batch.dataFile :: onError.toSubmit rt := by
      rw [← hstep.toSubmit.2]
      exact toSubmit_of_phase hphase
    rw [hto]
    exact (List.sublist_cons_self _ _).append_left _
  refine ⟨?_, ?_, ?_⟩
  · rw [hcommitted]
    exact List.Subset.trans hfiles.subset h.known
  · rw [hcommitted]
    exact h.once.sublist hfiles
  · intro row hrow hpending s hs hsok hfile
    change s ∈ d.submissions ++ [submission] at hs
    rw [List.mem_append, List.mem_singleton] at hs
    rcases hs with hold | rfl
    · have hd := (acknowledging_of_phase hphase).trans hstep.acknowledging.1
      exact .inl (h.recovered hd hrow hpending hold hsok hfile)
    · rw [hok] at hsok
      contradiction

end Submit

theorem DaemonStep.submitsOnce {event : DaemonEvent} {d' : Daemon}
    (hstep : DaemonStep rt d event d') (horderly : Orderly rt d event) (hnone : ResumesNone d event)
    (hrestores : d.outbox.Restores rt) (h : SubmitsOnce rt d) : SubmitsOnce rt d' := by
  cases step_effect hstep with
  | started hphase => exact h.started hrestores hphase hnone
  | refused hphase => exact h
  | stopped hphase =>
    have hpolling := horderly.stop rfl
    unfold Daemon.isPolling at hpolling
    split at hpolling
    · rename_i hphase
      exact h.halt (acknowledging_of_phase hphase)
    · contradiction
  | panicked hphase hpanic =>
    exact h.halt ((acknowledging_of_phase hphase).trans (acknowledging_of_mayPanic hpanic))
  | moved hphase hmove => exact h.enter hphase hmove.toSubmit (.inl hmove.acknowledging)
  | updated hphase hwrite hw hupdate => exact h.updated hphase hupdate
  | notUpdated hphase hwrite hw hupdate =>
    have hsucceeds := horderly.write
    simp [hwrite, hw] at hsucceeds
  | submitted hphase hsubmitStep hsubmit hresult =>
    obtain ⟨hrecords, -⟩ := submit_spec hsubmit
    exact h.submitted hphase hsubmitStep hrecords.recovered_eq hrecords.batch_eq hresult
  | submitFailed hphase hsubmitStep hsubmit hresult =>
    exact h.submitFailed hphase hsubmitStep hresult
  | accepted hphase hinsert => exact h.accepted hphase hinsert
  | fileWritten hphase =>
    exact (h.setFiles _).enter hphase (List.Sublist.refl _) (.inl rfl)
  | fileFailed hphase | removed hphase =>
    exact (h.setFiles _).enter hphase (List.nil_sublist _) (.inl rfl)
  | notRemoved hphase => exact h.enter hphase (List.nil_sublist _) (.inl rfl)

end Step

/-- In every run in which no process starts while a row is still to be resumed whose batch an
earlier recovery pass has committed, `submit` returns `Ok` at most once for each batch. -/
theorem commits_le_one_of_resumesNone (rt : Runtime) (events : List DaemonEvent) (d : Daemon)
    (hr : Run (DaemonStep rt) .initial events d)
    (horderly : Along (DaemonStep rt) (Orderly rt) .initial events)
    (hnone : Along (DaemonStep rt) ResumesNone .initial events) (batchId : Text) :
    d.commits batchId ≤ 1 := by
  have hinvariant : d.outbox.Restores rt ∧ SubmitsOnce rt d := by
    refine hr.invariant (I := fun d => d.outbox.Restores rt ∧ SubmitsOnce rt d) ?_
      (horderly.and hnone) ⟨restores_initial rt, submitsOnce_initial rt⟩
    rintro d event d' ⟨hrestores, honce⟩ ⟨hord, hno⟩ hstep
    exact ⟨(step_effect hstep).restores hord.roundTrips hrestores,
      hstep.submitsOnce hord hno hrestores honce⟩
  have hnodup := (List.nodup_append'.mp hinvariant.2.once).1
  exact List.nodup_iff_count_le_one.mp hnodup (dataFileOf batchId)

def firstBatch : FetchedBatch :=
  fetchedBatch ['b', '1'] 2 [1, 2, 3]

def secondBatch : FetchedBatch :=
  fetchedBatch ['b', '2'] 3 [4, 5, 6]

def twoBatches : Runtime :=
  localRuntime [.ofFetched (localRuntime []) firstBatch (freshId 1),
    .ofFetched (localRuntime []) secondBatch (freshId 2),
    .ofFetched (localRuntime []) firstBatch (freshId 3)]

def resumedOnce : List DaemonEvent :=
  [.start calldataConfig true] ++ receive firstBatch (freshId 1) 1000 ++
    [minedWith 1 0xa1, .write (writeAt 1010), .write (writeAt 1020), .removeFile true,
      .deliver firstBatch (freshId 3) true (writeAt 1030)] ++
    receive secondBatch (freshId 2) 2000 ++ [notSent, .stop] ++ resumeOne calldataConfig 3000 ++
    [minedWith 1 0xa2, .write (writeAt 3010), .write (writeAt 3020), .stop]

theorem commits_le_one_resumedOnce :
    ∃ d, Run (DaemonStep twoBatches) .initial resumedOnce d ∧
      d.committed = [dataFileOf ['b', '1'], dataFileOf ['b', '2']] ∧
      d.commits ['b', '1'] ≤ 1 ∧ d.commits ['b', '2'] ≤ 1 := by
  obtain ⟨d, hr, h⟩ := exists_run_of_foldlM (daemonStep twoBatches) .initial resumedOnce
    Daemon.committed (b := [dataFileOf ['b', '1'], dataFileOf ['b', '2']]) (by decide +kernel)
  have horderly : Along (DaemonStep twoBatches) (Orderly twoBatches) .initial resumedOnce :=
    Along.of_check (f := daemonStep twoBatches) (by decide +kernel)
  have hnone : Along (DaemonStep twoBatches) ResumesNone .initial resumedOnce :=
    Along.of_check (f := daemonStep twoBatches) (by decide +kernel)
  exact ⟨d, hr, h, commits_le_one_of_resumesNone twoBatches resumedOnce d hr horderly hnone _,
    commits_le_one_of_resumesNone twoBatches resumedOnce d hr horderly hnone _⟩

def resumedTwice : List DaemonEvent :=
  [.start calldataConfig true] ++ receive firstBatch (freshId 1) 1000 ++ [notSent, .stop] ++
    resumeOne calldataConfig 3000 ++
    [minedWith 1 0xa1, .write (writeAt 3010), .write (writeAt 3020), .stop] ++
    resumeOne calldataConfig 5000 ++
    [minedWith 1 0xa2, .write (writeAt 5010), .write (writeAt 5020)]

theorem commits_two_resumedTwice :
    ∃ d, Run (DaemonStep twoBatches) .initial resumedTwice d ∧ d.isPolling = true ∧
      Along (DaemonStep twoBatches) (Orderly twoBatches) .initial resumedTwice ∧
      d.commits ['b', '1'] = 2 := by
  obtain ⟨d, hr, h⟩ := exists_run_of_foldlM (daemonStep twoBatches) .initial resumedTwice
    (fun d => (d.isPolling, d.commits ['b', '1'])) (b := (true, 2)) (by decide +kernel)
  obtain ⟨hpolling, hcommits⟩ := Prod.mk.inj h
  have horderly : Along (DaemonStep twoBatches) (Orderly twoBatches) .initial resumedTwice :=
    Along.of_check (f := daemonStep twoBatches) (by decide +kernel)
  exact ⟨d, hr, hpolling, horderly, hcommits⟩

end RollupX.Submitter
