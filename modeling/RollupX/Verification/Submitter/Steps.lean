import RollupX.Library.Json
import RollupX.Library.Keccak
import RollupX.Library.Run
import RollupX.Model.Submitter.Daemon

/-! What one step of the daemon can do. -/

namespace RollupX.Submitter

open Json (quoted natText objectText)
open Machine

abbrev DaemonStep (rt : Runtime) (d : Daemon) (event : DaemonEvent) (d' : Daemon) : Prop :=
  daemonStep rt d event = some d'

def Daemon.record (d : Daemon) (files : Files) (submission : Submission) : Daemon :=
  { d with files, submissions := d.submissions ++ [submission] }

def Daemon.setOutbox (d : Daemon) (outbox : SagaOutbox) : Daemon :=
  { d with outbox }

def Daemon.setFiles (d : Daemon) (files : Files) : Daemon :=
  { d with files }

def Daemon.Running (d : Daemon) (P : Config → Activity → Prop) : Prop :=
  ∀ cfg activity, d.phase = .running cfg activity → P cfg activity

section Running

variable {d : Daemon} {P : Config → Activity → Prop}

theorem Daemon.running_of_stopped (h : d.phase = .stopped) : d.Running P := by
  intro cfg activity hphase
  rw [h] at hphase
  contradiction

theorem Daemon.running_enter {cfg : Config} {activity : Activity} (h : P cfg activity) :
    (d.enter cfg activity).Running P := by
  intro cfg' activity' hphase
  cases hphase
  exact h

end Running

/-- The steps that change nothing but the activity. -/
inductive MoveStep (rt : Runtime) : Activity → DaemonEvent → Activity → Prop where
  | queued {record rest queue now tx sending w} :
      MoveStep rt (.scanning record rest queue) (.scan now tx sending w)
        (.scan rest (queue ++ (record.toResume rt).toList))
  | bumpSent {record rest queue now tx sending w newHash} : record.state = .submittedToL1 →
      MoveStep rt (.scanning record rest queue) (.scan now tx sending w)
        (.bumped record newHash rest queue)
  | bumpFailed {record rest queue now tx sending w} : record.state = .submittedToL1 →
      MoveStep rt (.scanning record rest queue) (.scan now tx sending w) (.scan rest queue)
  | skipped {fetched id looked w} :
      MoveStep rt .polling (.deliver fetched id looked w) .polling
  | fetchFailed : MoveStep rt .polling .fetchFailed .polling

/-- The steps that update the row of a batch, with the update and the activity after it. -/
inductive UpdateStep (cfg : Config) : Activity → (SagaOutbox → SagaOutbox) → Activity → Prop where
  | gaveUp {record rest queue now} : record.state = .submittedToL1 →
      UpdateStep cfg (.scanning record rest queue)
        (fun outbox => outbox.updateState now record.batchId .failed) (.scan rest queue)
  | bumped {record newHash rest queue now} :
      UpdateStep cfg (.bumped record newHash rest queue)
        (fun outbox => outbox.updateSubmission now record.batchId (H256.debug newHash) record.nonce
          none)
        (.scan rest queue)
  | resumed {batch result tx queue now} :
      UpdateStep cfg (.resumed batch result tx queue)
        (fun outbox => outbox.updateSubmission now batch.id.toString result.txHash
          (initialGas result tx).1 (initialGas result tx).2)
        (.resumedSubmitted batch queue)
  | resumedSubmitted {batch queue now} :
      UpdateStep cfg (.resumedSubmitted batch queue)
        (fun outbox => outbox.updateState now batch.id.toString .confirmedOnL1) (.resume queue)
  | written {fetched id now} :
      UpdateStep cfg (.written fetched id)
        (fun outbox => outbox.updateState now fetched.batchId .compressed) (.compressed fetched id)
  | simulated {fetched id now} : cfg.verificationMode = .offChainOnly →
      UpdateStep cfg (.compressed fetched id)
        (fun outbox => outbox.updateSubmission now fetched.batchId
          "0x_offchain_simulated".toList none (some ['0']))
        (.confirming fetched)
  | submitted {fetched result tx now} :
      UpdateStep cfg (.submitted fetched result tx)
        (fun outbox => outbox.updateSubmission now fetched.batchId result.txHash
          (initialGas result tx).1 (initialGas result tx).2)
        (.confirming fetched)
  | confirming {fetched now} :
      UpdateStep cfg (.confirming fetched)
        (fun outbox => outbox.updateState now fetched.batchId .confirmedOnL1) (.cleaning fetched)

/-- The two calls of `submit`, with their arguments and where `run` goes on. -/
inductive SubmitStep (rt : Runtime) (cfg : Config) (tx : Option L1Transaction) :
    Activity → (recovered : Bool) → Batch → (proofHex : Text) → (verifierId : UInt8) →
      (SubmissionResult → Activity) → Activity → Prop where
  | resuming {batch proofHex queue} :
      SubmitStep rt cfg tx (.resuming batch proofHex queue) true batch proofHex 0
        (fun result => .resumed batch result tx queue) (.resume queue)
  | compressed {fetched id} : cfg.verificationMode = .onChain →
      SubmitStep rt cfg tx (.compressed fetched id) false (.ofFetched rt fetched id)
        (hexText (formatProofForVerifier fetched.proof cfg.verifierId)) cfg.verifierId
        (fun result => .submitted fetched result tx) .polling

/-- The update of a row that an event reports. -/
def DaemonEvent.rowWrite : DaemonEvent → Option OutboxWrite
  | .scan _ _ _ w => some w
  | .write w => some w
  | _ => none

/-- Arithmetic and bit packing can panic. -/
def Activity.mayPanic : Activity → Bool
  | .scanning _ _ _ => true
  | .resuming _ _ _ => true
  | .compressed _ _ => true
  | _ => false

/-- Everything that a step can do. -/
inductive StepEffect (rt : Runtime) (d : Daemon) : DaemonEvent → Daemon → Prop where
  | started {cfg queried} : d.phase = .stopped →
      StepEffect rt d (.start cfg queried)
        (d.enter cfg (.scan (if queried then d.outbox.getUnconfirmedBatches else []) []))
  | refused {cfg queried} : d.phase = .stopped → StepEffect rt d (.start cfg queried) d
  | stopped {cfg activity} : d.phase = .running cfg activity → StepEffect rt d .stop d.halt
  | panicked {cfg activity event} : d.phase = .running cfg activity → activity.mayPanic = true →
      StepEffect rt d event d.halt
  | moved {cfg activity event activity'} : d.phase = .running cfg activity →
      MoveStep rt activity event activity' → StepEffect rt d event (d.enter cfg activity')
  | updated {cfg activity event w f activity'} : d.phase = .running cfg activity →
      event.rowWrite = some w → w.succeeds = true → UpdateStep cfg activity f activity' →
      StepEffect rt d event ((d.setOutbox (f d.outbox)).enter cfg activity')
  | notUpdated {cfg activity event w f activity'} : d.phase = .running cfg activity →
      event.rowWrite = some w → w.succeeds = false → UpdateStep cfg activity f activity' →
      StepEffect rt d event (d.enter cfg activity')
  | submitted {cfg activity answers tx recovered batch proofHex verifierId onOk onError files
        submission result} : d.phase = .running cfg activity →
      SubmitStep rt cfg tx activity recovered batch proofHex verifierId onOk onError →
      cfg.submit rt d.files answers recovered batch proofHex verifierId =
        some (files, submission) →
      submission.result = .ok result →
      StepEffect rt d (.submit answers tx) ((d.record files submission).enter cfg (onOk result))
  | submitFailed {cfg activity answers tx recovered batch proofHex verifierId onOk onError files
        submission e} : d.phase = .running cfg activity →
      SubmitStep rt cfg tx activity recovered batch proofHex verifierId onOk onError →
      cfg.submit rt d.files answers recovered batch proofHex verifierId =
        some (files, submission) →
      submission.result = .error e →
      StepEffect rt d (.submit answers tx) ((d.record files submission).enter cfg onError)
  | accepted {cfg fetched id looked w outbox} : d.phase = .running cfg .polling →
      d.outbox.insertOrIgnore w.now fetched.batchId
        (rt.batchToString (.ofFetched rt fetched id)) (hexText fetched.proof) = (true, outbox) →
      w.succeeds = true →
      StepEffect rt d (.deliver fetched id looked w)
        ((d.setOutbox outbox).enter cfg (.received fetched id))
  | fileWritten {cfg fetched id} : d.phase = .running cfg (.received fetched id) →
      StepEffect rt d (.writeFile .done)
        ((d.setFiles (Function.update d.files (dataFileOf fetched.batchId)
          (some fetched.batchData))).enter cfg (.written fetched id))
  | fileFailed {cfg fetched id message left} : d.phase = .running cfg (.received fetched id) →
      StepEffect rt d (.writeFile (.failed message left))
        ((d.setFiles (Function.update d.files (dataFileOf fetched.batchId) left)).enter cfg
          .polling)
  | removed {cfg fetched} : d.phase = .running cfg (.cleaning fetched) →
      StepEffect rt d (.removeFile true)
        ((d.setFiles (Function.update d.files (dataFileOf fetched.batchId) none)).enter cfg
          .polling)
  | notRemoved {cfg fetched} : d.phase = .running cfg (.cleaning fetched) →
      StepEffect rt d (.removeFile false) (d.enter cfg .polling)

section Inversion

variable {rt : Runtime} {d d' : Daemon} {cfg : Config} {activity : Activity} {event : DaemonEvent}

theorem move_effect (hphase : d.phase = .running cfg activity)
    (hstep : MoveStep rt activity event activity) : StepEffect rt d event d := by
  have hself : d.enter cfg activity = d := by
    obtain ⟨outbox, files, submissions, phase⟩ := d
    cases hphase
    rfl
  have h := StepEffect.moved hphase hstep
  rwa [hself] at h

theorem write_effect {w : OutboxWrite} {f : ℤ → SagaOutbox → SagaOutbox} {activity' : Activity}
    (hphase : d.phase = .running cfg activity) (hwrite : event.rowWrite = some w)
    (hstep : UpdateStep cfg activity (f w.now) activity') :
    StepEffect rt d event ((d.write w f).enter cfg activity') := by
  cases hw : w.succeeds with
  | true =>
    have : d.write w f = d.setOutbox (f w.now d.outbox) := by
      simp [Daemon.write, Daemon.setOutbox, hw]
    rw [this]
    exact .updated hphase hwrite hw hstep
  | false =>
    have : d.write w f = d := by simp [Daemon.write, hw]
    rw [this]
    exact .notUpdated hphase hwrite hw hstep

theorem submit_effect {answers : Answers} {tx : Option L1Transaction} {recovered : Bool}
    {batch : Batch} {proofHex : Text} {verifierId : UInt8} {onOk : SubmissionResult → Activity}
    {onError : Activity} (hphase : d.phase = .running cfg activity)
    (hpanic : activity.mayPanic = true)
    (hstep : SubmitStep rt cfg tx activity recovered batch proofHex verifierId onOk onError) :
    StepEffect rt d (.submit answers tx)
      (d.submit rt cfg answers recovered batch proofHex verifierId onOk onError) := by
  unfold Daemon.submit
  split
  · exact .panicked hphase hpanic
  · rename_i files submission hsubmit
    dsimp only
    split
    · rename_i result hresult
      exact .submitted hphase hstep hsubmit hresult
    · rename_i e hresult
      exact .submitFailed hphase hstep hsubmit hresult

theorem stuck_state {record : BatchSagaRecord} {now : ℤ} {tx : Option L1Transaction}
    {found : L1Transaction} (h : record.stuck now tx = some found) :
    record.state = .submittedToL1 := by
  unfold BatchSagaRecord.stuck at h
  split at h
  · rename_i hcond
    exact hcond.1
  · contradiction

theorem scan_effect {record : BatchSagaRecord} {rest : List BatchSagaRecord}
    {queue : List (Batch × Text)} {now : ℤ} {tx : Option L1Transaction}
    {sending : Except String H256} {w : OutboxWrite}
    (hphase : d.phase = .running cfg (.scanning record rest queue)) :
    StepEffect rt d (.scan now tx sending w)
      (d.scan rt cfg record rest queue now tx sending w) := by
  unfold Daemon.scan
  split
  · rename_i found hstuck
    have hstate := stuck_state hstuck
    split
    · exact .panicked hphase rfl
    · exact write_effect hphase rfl (.gaveUp hstate)
    · split
      · exact .moved hphase (.bumpSent hstate)
      · exact .moved hphase (.bumpFailed hstate)
  · exact .moved hphase .queued

theorem deliver_effect {fetched : FetchedBatch} {id : BatchId} {looked : Bool} {w : OutboxWrite}
    (hphase : d.phase = .running cfg .polling) :
    StepEffect rt d (.deliver fetched id looked w) (d.deliver rt cfg fetched id looked w) := by
  have hskip : StepEffect rt d (.deliver fetched id looked w) d := move_effect hphase .skipped
  unfold Daemon.deliver
  split
  · exact hskip
  · split
    · rename_i hsucceeds
      split
      · rename_i outbox hinsert
        exact .accepted hphase hinsert hsucceeds
      · exact hskip
    · exact hskip

theorem writeFile_effect {fetched : FetchedBatch} {id : BatchId} {outcome : FileWrite}
    (hphase : d.phase = .running cfg (.received fetched id)) :
    StepEffect rt d (.writeFile outcome) (d.writeFile cfg fetched id outcome) := by
  cases outcome with
  | done => exact .fileWritten hphase
  | failed message left => exact .fileFailed hphase

theorem removeFile_effect {fetched : FetchedBatch} {removed : Bool}
    (hphase : d.phase = .running cfg (.cleaning fetched)) :
    StepEffect rt d (.removeFile removed) ((d.removeFile fetched removed).enter cfg .polling) := by
  cases removed with
  | true => exact .removed hphase
  | false => exact .notRemoved hphase

theorem advance_effect (hphase : d.phase = .running cfg activity)
    (h : d.advance rt cfg activity event = some d') : StepEffect rt d event d' := by
  unfold Daemon.advance at h
  split at h
  · cases h
    exact scan_effect hphase
  · cases h
    exact write_effect hphase rfl .bumped
  · cases h
    exact submit_effect hphase rfl .resuming
  · cases h
    exact write_effect hphase rfl .resumed
  · cases h
    exact write_effect hphase rfl .resumedSubmitted
  · cases h
    exact deliver_effect hphase
  · cases h
    exact move_effect hphase .fetchFailed
  · cases h
    exact writeFile_effect hphase
  · cases h
    exact write_effect hphase rfl .written
  · split at h
    · rename_i hmode
      cases h
      exact write_effect hphase rfl (.simulated hmode)
    · rename_i hmode
      cases h
      exact submit_effect hphase rfl (.compressed hmode)
    · contradiction
  · cases h
    exact write_effect hphase rfl .submitted
  · cases h
    exact write_effect hphase rfl .confirming
  · cases h
    exact removeFile_effect hphase
  · contradiction

theorem step_effect (h : DaemonStep rt d event d') : StepEffect rt d event d' := by
  unfold DaemonStep daemonStep at h
  split at h
  · rename_i cfg queried hphase
    cases h
    unfold Daemon.start
    split
    · exact .refused hphase
    · exact .started hphase
  · contradiction
  · rename_i hphase
    cases h
    exact .stopped hphase
  · rename_i hphase _
    exact advance_effect hphase h

end Inversion

theorem dataFileOf_injective : Function.Injective dataFileOf := by
  intro id id' h
  exact List.append_cancel_left (List.append_cancel_right h)

theorem storePath_ne_dataFileOf (name batchId : Text) :
    offchainStore ++ '/' :: name ++ ['.', 'b', 'i', 'n'] ≠ dataFileOf batchId := by
  intro h
  have hhead : 'o' = 'b' := Option.some.inj (congrArg List.head? h)
  exact absurd hhead (by decide)

section Submit

variable {rt : Runtime} {cfg : Config} {files files' : Files} {answers : Answers} {recovered : Bool}
  {batch : Batch} {proofHex : Text} {verifierId : UInt8} {submission : Submission}

theorem Files.write_of_ne (files : Files) {path path' : Text} (hne : path' ≠ path)
    (contents : List UInt8) (outcome : FileWrite) :
    (files.write path contents outcome).1 path' = files path' := by
  cases outcome with
  | done | failed message left => exact Function.update_of_ne hne _ _

theorem prepareOffChain_of_ne {storeDir path : Text}
    (hne : ∀ name, path ≠ storeDir ++ '/' :: name ++ ['.', 'b', 'i', 'n']) :
    (prepareOffChain rt files answers batch proofHex verifierId storeDir).1 path = files path := by
  unfold prepareOffChain
  split
  · rfl
  · rename_i data _
    dsimp only
    split
    · rfl
    · have hwrite := files.write_of_ne
        (hne (hexEncode (rt.keccak256 data).toList)) data answers.writeStore
      split
      · rename_i hfailed
        rwa [hfailed] at hwrite
      · rename_i hdone
        rwa [hdone] at hwrite

theorem prepare_dataFile (batchId : Text) :
    (cfg.daStrategy.prepare rt files answers batch proofHex verifierId).1 (dataFileOf batchId) =
      files (dataFileOf batchId) := by
  unfold Config.daStrategy
  cases cfg.da.mode with
  | calldata => rfl
  | blob => rfl
  | offChain => exact prepareOffChain_of_ne fun name => (storePath_ne_dataFileOf name batchId).symm

/-- A call that returns did so before the sending, or with what came of it. -/
theorem submit_cases
    (h : cfg.submit rt files answers recovered batch proofHex verifierId =
      some (files', submission)) :
    files' = (cfg.daStrategy.prepare rt files answers batch proofHex verifierId).1 ∧
      ((∃ e, submission =
        ⟨recovered, batch, proofHex, verifierId, files batch.dataFile, none, .error e⟩) ∨
      ∃ call, (cfg.daStrategy.prepare rt files answers batch proofHex verifierId).2 = .ok call ∧
        submission = ⟨recovered, batch, proofHex, verifierId, files batch.dataFile,
          some (call.args, answers.sending), cfg.daStrategy.finish call answers.sending⟩) := by
  unfold Config.submit at h
  revert h
  cases cfg.daStrategy.prepare rt files answers batch proofHex verifierId with
  | mk stored prepared =>
    intro h
    cases prepared with
    | error failure =>
      cases failure with
      | panicked => contradiction
      | error e =>
        cases h
        exact ⟨rfl, .inl ⟨e, rfl⟩⟩
    | ok call =>
      cases h
      exact ⟨rfl, .inr ⟨call, rfl, rfl⟩⟩

/-- What a submission records of the call. -/
structure Submission.Records (submission : Submission) (files : Files) (answers : Answers)
    (recovered : Bool) (batch : Batch) (proofHex : Text) (verifierId : UInt8) : Prop where
  recovered_eq : submission.recovered = recovered
  batch_eq : submission.batch = batch
  proofHex_eq : submission.proofHex = proofHex
  verifierId_eq : submission.verifierId = verifierId
  data_eq : submission.data = files batch.dataFile
  mined : ∀ result, submission.result = .ok result → ∃ args txHash receipt,
    submission.sent = some (args, .mined txHash receipt) ∧
      answers.sending = .mined txHash receipt ∧ result.txHash = H256.debug txHash

theorem submit_spec
    (h : cfg.submit rt files answers recovered batch proofHex verifierId =
      some (files', submission)) :
    submission.Records files answers recovered batch proofHex verifierId ∧
      ∀ batchId, files' (dataFileOf batchId) = files (dataFileOf batchId) := by
  obtain ⟨rfl, ⟨e, rfl⟩ | ⟨call, -, rfl⟩⟩ := submit_cases h
  · exact ⟨⟨rfl, rfl, rfl, rfl, rfl, nofun⟩, prepare_dataFile⟩
  · refine ⟨⟨rfl, rfl, rfl, rfl, rfl, ?_⟩, prepare_dataFile⟩
    intro result hresult
    cases hsending : answers.sending with
    | mined txHash receipt =>
      simp only [hsending, DaStrategy.finish, Except.ok.injEq] at hresult
      exact ⟨call.args, txHash, receipt, rfl, rfl, by rw [← hresult]⟩
    | failed message | receiptFailed txHash message | dropped txHash =>
      simp [hsending, DaStrategy.finish] at hresult

end Submit

def BatchSagaRecord.payload (row : BatchSagaRecord) : Text × Option Text × Option Text :=
  (row.batchId, row.batchData, row.proofHex)

def BatchSagaRecord.isPending (row : BatchSagaRecord) : Bool :=
  row.state = .receivedFromExecutor ∨ row.state = .compressed

section Rows

variable {outbox : SagaOutbox} {now : ℤ} {batchId txHash : Text} {state : SagaState}
  {nonce : Option ℤ} {gasPrice : Option Text} {row : BatchSagaRecord}

theorem mem_updateState (h : row ∈ (outbox.updateState now batchId state).rows) :
    (row ∈ outbox.rows ∧ row.batchId ≠ batchId) ∨
      ∃ old ∈ outbox.rows, old.batchId = batchId ∧ row = { old with state, lastUpdated := now } :=
  KeyedTable.mem_update h

theorem mem_updateSubmission
    (h : row ∈ (outbox.updateSubmission now batchId txHash nonce gasPrice).rows) :
    (row ∈ outbox.rows ∧ row.batchId ≠ batchId) ∨
      (row.batchId = batchId ∧ row.state = .submittedToL1 ∧ row.txHash = some txHash) := by
  rcases KeyedTable.mem_update h with h | ⟨old, hold, hid, rfl⟩
  · exact .inl h
  · exact .inr ⟨hid, rfl, rfl⟩

theorem mem_updateState_self (h : row ∈ outbox.rows) :
    { row with state, lastUpdated := now } ∈ (outbox.updateState now row.batchId state).rows :=
  List.mem_map.mpr ⟨row, h, if_pos rfl⟩

theorem mem_updateSubmission_self (h : row ∈ outbox.rows) :
    { row with
      state := .submittedToL1
      txHash := some txHash
      nonce
      lastUpdated := now
      originalGasPrice := gasPrice.or row.originalGasPrice } ∈
        (outbox.updateSubmission now row.batchId txHash nonce gasPrice).rows :=
  List.mem_map.mpr ⟨row, h, if_pos rfl⟩

theorem UpdateStep.payloads {cfg : Config} {activity activity' : Activity}
    {f : SagaOutbox → SagaOutbox} (h : UpdateStep cfg activity f activity') (outbox : SagaOutbox) :
    (f outbox).rows.map BatchSagaRecord.payload = outbox.rows.map BatchSagaRecord.payload := by
  cases h <;> exact KeyedTable.map_update _ fun _ => rfl

theorem insertOrIgnore_rows {batchData proofHex : Text} {outbox' : SagaOutbox}
    (h : outbox.insertOrIgnore now batchId batchData proofHex = (true, outbox')) :
    (∀ r ∈ outbox.rows, r.batchId ≠ batchId) ∧ ∃ row, outbox'.rows = outbox.rows ++ [row] ∧
      row.payload = (batchId, some batchData, some proofHex) ∧
      row.state = .receivedFromExecutor := by
  have hspec := KeyedTable.insertOrIgnore_true (congrArg Prod.fst h)
  have hrows := congrArg (fun r => r.2.rows) h
  exact ⟨hspec.1, _, hrows.symm.trans hspec.2, rfl, rfl⟩

end Rows

section Loops

variable {P : Activity → Prop}

theorem Activity.resume_elim (queue : List (Batch × Text)) (hpolling : P .polling)
    (hresuming : ∀ batch proofHex queue, P (.resuming batch proofHex queue)) :
    P (.resume queue) := by
  cases queue with
  | nil => exact hpolling
  | cons head queue => exact hresuming head.1 head.2 queue

theorem Activity.scan_elim (records : List BatchSagaRecord) (queue : List (Batch × Text))
    (hpolling : P .polling)
    (hresuming : ∀ batch proofHex queue, P (.resuming batch proofHex queue))
    (hscanning : ∀ record rest, P (.scanning record rest queue)) : P (.scan records queue) := by
  cases records with
  | nil => exact resume_elim queue hpolling hresuming
  | cons record rest => exact hscanning record rest

end Loops

section Queue

variable (rt : Runtime)

def Activity.queue : Activity → List (Batch × Text)
  | .scanning record rest queue =>
    queue ++ (record :: rest).filterMap (BatchSagaRecord.toResume rt)
  | .bumped _ _ rest queue => queue ++ rest.filterMap (BatchSagaRecord.toResume rt)
  | .resuming batch proofHex queue => (batch, proofHex) :: queue
  | .resumed _ _ _ queue => queue
  | .resumedSubmitted _ queue => queue
  | _ => []

@[simp] theorem queue_resume (queue : List (Batch × Text)) :
    (Activity.resume queue).queue rt = queue := by
  cases queue <;> rfl

@[simp] theorem queue_scan (records : List BatchSagaRecord) (queue : List (Batch × Text)) :
    (Activity.scan records queue).queue rt =
      queue ++ records.filterMap (BatchSagaRecord.toResume rt) := by
  cases records with
  | nil => simp [Activity.scan]
  | cons record rest => rfl

def Activity.fresh : Activity → List Batch
  | .received fetched id => [.ofFetched rt fetched id]
  | .written fetched id => [.ofFetched rt fetched id]
  | .compressed fetched id => [.ofFetched rt fetched id]
  | _ => []

@[simp] theorem fresh_resume (queue : List (Batch × Text)) :
    (Activity.resume queue).fresh rt = [] :=
  Activity.resume_elim (P := fun a => a.fresh rt = []) queue rfl fun _ _ _ => rfl

@[simp] theorem fresh_scan (records : List BatchSagaRecord) (queue : List (Batch × Text)) :
    (Activity.scan records queue).fresh rt = [] :=
  Activity.scan_elim (P := fun a => a.fresh rt = []) records queue rfl (fun _ _ _ => rfl)
    fun _ _ => rfl

variable {rt}

theorem toResume_of_submitted {record : BatchSagaRecord} (h : record.state = .submittedToL1) :
    record.toResume rt = none := by
  simp [BatchSagaRecord.toResume, h]

theorem MoveStep.queue_eq {activity activity' : Activity} {event : DaemonEvent}
    (h : MoveStep rt activity event activity') :
    activity'.queue rt = activity.queue rt ∧ activity'.fresh rt = activity.fresh rt := by
  cases h with
  | @queued record rest queue =>
    rw [queue_scan, fresh_scan]
    cases hresume : record.toResume rt <;> simp [Activity.queue, Activity.fresh, hresume]
  | bumpSent hstate =>
    simp [Activity.queue, Activity.fresh, toResume_of_submitted hstate]
  | bumpFailed hstate =>
    rw [queue_scan, fresh_scan]
    simp [Activity.queue, Activity.fresh, toResume_of_submitted hstate]
  | skipped | fetchFailed => exact ⟨rfl, rfl⟩

theorem UpdateStep.queue_eq {cfg : Config} {activity activity' : Activity}
    {f : SagaOutbox → SagaOutbox} (h : UpdateStep cfg activity f activity') :
    activity'.queue rt = activity.queue rt ∧
      (activity'.fresh rt).Sublist (activity.fresh rt) := by
  cases h with
  | gaveUp hstate =>
    rw [queue_scan, fresh_scan]
    simp [Activity.queue, toResume_of_submitted hstate]
  | bumped =>
    rw [queue_scan, fresh_scan]
    exact ⟨rfl, List.nil_sublist _⟩
  | resumed | simulated hmode | submitted | confirming => exact ⟨rfl, List.nil_sublist _⟩
  | resumedSubmitted =>
    rw [queue_resume, fresh_resume]
    exact ⟨rfl, List.nil_sublist _⟩
  | written => exact ⟨rfl, List.Sublist.refl _⟩

end Queue

section Restore

variable (rt : Runtime)

/-- A row that can be read back gives a batch with the data file of its own id. -/
def SagaOutbox.Restores (outbox : SagaOutbox) : Prop :=
  ∀ columns ∈ outbox.rows.map BatchSagaRecord.payload, ∀ batch,
    columns.2.1.bind rt.batchFromStr = some batch → batch.dataFile = dataFileOf columns.1

theorem restores_initial : Daemon.initial.outbox.Restores rt :=
  fun _ hcolumns => absurd hcolumns List.not_mem_nil

/-- A delivered batch can be read back from its text. -/
def DaemonEvent.RoundTrips : DaemonEvent → Prop
  | .deliver fetched id _ _ =>
    rt.batchFromStr (rt.batchToString (.ofFetched rt fetched id)) =
      some (.ofFetched rt fetched id)
  | _ => True

instance (event : DaemonEvent) : Decidable (event.RoundTrips rt) :=
  match event with
  | .deliver fetched id _ _ => inferInstanceAs (Decidable (rt.batchFromStr
      (rt.batchToString (.ofFetched rt fetched id)) = some (.ofFetched rt fetched id)))
  | .start _ _ => .isTrue trivial
  | .stop => .isTrue trivial
  | .scan _ _ _ _ => .isTrue trivial
  | .submit _ _ => .isTrue trivial
  | .write _ => .isTrue trivial
  | .fetchFailed => .isTrue trivial
  | .writeFile _ => .isTrue trivial
  | .removeFile _ => .isTrue trivial

variable {rt}

theorem StepEffect.restores {d d' : Daemon} {event : DaemonEvent} (h : StepEffect rt d event d')
    (htrip : event.RoundTrips rt) (hd : d.outbox.Restores rt) : d'.outbox.Restores rt := by
  cases h with
  | started hphase | refused hphase | stopped hphase | panicked hphase hpanic
  | moved hphase hmove | notUpdated hphase hwrite hw hstep
  | submitted hphase hstep hsubmit hresult | submitFailed hphase hstep hsubmit hresult
  | fileWritten hphase | fileFailed hphase | removed hphase | notRemoved hphase =>
    exact hd
  | updated hphase hwrite hw hstep =>
    intro columns hcolumns
    rw [Daemon.enter, Daemon.setOutbox, hstep.payloads] at hcolumns
    exact hd columns hcolumns
  | accepted hphase hinsert =>
    obtain ⟨-, row, hrows, hpayload, -⟩ := insertOrIgnore_rows hinsert
    intro columns hcolumns batch hbatch
    rw [Daemon.enter, Daemon.setOutbox, hrows, List.map_append, List.mem_append] at hcolumns
    rcases hcolumns with hold | hnew
    · exact hd columns hold batch hbatch
    · rw [List.map_singleton, List.mem_singleton, hpayload] at hnew
      subst hnew
      have htext : rt.batchFromStr (rt.batchToString (.ofFetched rt _ _)) = some batch := hbatch
      rw [htrip, Option.some.injEq] at htext
      rw [← htext]
      rfl

/-- No step removes a row or changes the batch and the proof in it. -/
theorem StepEffect.payloads {d d' : Daemon} {event : DaemonEvent} (h : StepEffect rt d event d') :
    d.outbox.rows.map BatchSagaRecord.payload ⊆ d'.outbox.rows.map BatchSagaRecord.payload := by
  cases h with
  | updated hphase hwrite hw hstep =>
    rw [Daemon.enter, Daemon.setOutbox, hstep.payloads]
    exact List.Subset.refl _
  | accepted hphase hinsert =>
    obtain ⟨-, row, hrows, -, -⟩ := insertOrIgnore_rows hinsert
    rw [Daemon.enter, Daemon.setOutbox, hrows, List.map_append]
    exact List.subset_append_left _ _
  | _ => exact List.Subset.refl _

theorem toResume_eq_some {row : BatchSagaRecord} {batch : Batch} {proofHex : Text}
    (h : row.toResume rt = some (batch, proofHex)) :
    row.isPending = true ∧ row.batchData.bind rt.batchFromStr = some batch ∧
      row.proofHex = some proofHex := by
  unfold BatchSagaRecord.toResume at h
  split at h
  · rename_i hstate
    simp only [bind, pure, Option.bind_eq_some_iff, Option.some.injEq, Prod.mk.injEq] at h
    obtain ⟨text, htext, proof, hproof, read, hread, rfl, rfl⟩ := h
    exact ⟨by simpa [BatchSagaRecord.isPending] using hstate, by rw [htext]; exact hread, hproof⟩
  · contradiction

theorem mem_getUnconfirmedBatches {outbox : SagaOutbox} {row : BatchSagaRecord}
    (h : row ∈ outbox.getUnconfirmedBatches) : row ∈ outbox.rows :=
  (List.mem_filter.mp ((List.perm_insertionSort _ _).mem_iff.mp h)).1

theorem mem_getUnconfirmedBatches_of_pending {outbox : SagaOutbox} {row : BatchSagaRecord}
    (h : row ∈ outbox.rows) (hpending : row.isPending = true) :
    row ∈ outbox.getUnconfirmedBatches := by
  refine (List.perm_insertionSort _ _).mem_iff.mpr (List.mem_filter.mpr ⟨h, ?_⟩)
  rcases of_decide_eq_true hpending with hstate | hstate <;> simp [hstate]

theorem toResume_of_pending {row : BatchSagaRecord} {batchId proofHex : Text} {batch : Batch}
    (hpending : row.isPending = true)
    (hpayload : row.payload = (batchId, some (rt.batchToString batch), some proofHex))
    (htrips : rt.batchFromStr (rt.batchToString batch) = some batch) :
    row.toResume rt = some (batch, proofHex) := by
  simp only [BatchSagaRecord.payload, Prod.mk.injEq] at hpayload
  obtain ⟨-, hdata, hproof⟩ := hpayload
  rw [BatchSagaRecord.toResume, if_pos (of_decide_eq_true hpending), hdata, hproof]
  simp [htrips]

theorem toResume_dataFiles {outbox : SagaOutbox} (h : outbox.Restores rt)
    {records : List BatchSagaRecord} (hrecords : ∀ row ∈ records, row ∈ outbox.rows) :
    ((records.filterMap (BatchSagaRecord.toResume rt)).map fun entry => entry.1.dataFile).Sublist
      (records.map fun row => dataFileOf row.batchId) := by
  induction records with
  | nil => exact List.Sublist.slnil
  | cons row rest ih =>
    have hrest := ih fun r hr => hrecords r (List.mem_cons_of_mem _ hr)
    cases hresume : row.toResume rt with
    | none =>
      rw [List.filterMap_cons_none hresume]
      exact hrest.trans (List.sublist_cons_self _ _)
    | some entry =>
      rw [List.filterMap_cons_some hresume]
      have hread := (toResume_eq_some hresume).2.1
      have hfile := h row.payload (List.mem_map_of_mem (hrecords row List.mem_cons_self))
        entry.1 hread
      rw [List.map_cons, List.map_cons, hfile]
      exact hrest.cons_cons _

theorem nodup_unconfirmed_ids (outbox : SagaOutbox) :
    (outbox.getUnconfirmedBatches.map BatchSagaRecord.batchId).Nodup :=
  ((List.perm_insertionSort _ _).map _).nodup_iff.mpr
    (outbox.unique.sublist (List.filter_sublist.map _))

theorem nodup_getUnconfirmedBatches (outbox : SagaOutbox) :
    (outbox.getUnconfirmedBatches.map fun row => dataFileOf row.batchId).Nodup := by
  have hmap := (nodup_unconfirmed_ids outbox).map dataFileOf_injective
  rwa [List.map_map] at hmap

end Restore

def jsonOption : Option Text → Text
  | none => "null".toList
  | some text => quoted text

/-- The text of a batch that the daemon builds. The times, which the model leaves out, are
those of a fixed moment. -/
def batchJson (b : Batch) : Text :=
  objectText [
    ("id", quoted b.id.toString),
    ("data_file", quoted b.dataFile),
    ("new_root", quoted b.newRoot),
    ("status", quoted "Proving".toList),
    ("da_mode", quoted b.daMode),
    ("proof", jsonOption b.proof),
    ("tx_hash", jsonOption b.txHash),
    ("attempts", natText b.attempts.toNat),
    ("created_at", quoted "2026-01-01T00:00:00Z".toList),
    ("updated_at", quoted "2026-01-01T00:00:00Z".toList),
    ("blob_versioned_hash", jsonOption b.blobVersionedHash),
    ("blob_index", (b.blobIndex.map fun i => natText i.toNat).getD "null".toList),
    ("fee", natText b.fee.toNat),
    ("experiment_id", jsonOption b.experimentId),
    ("tx_count", natText b.txCount.toNat),
    ("batch_receive_ms", "1767225600000".toList),
    ("gas_bumped", "false".toList),
    ("gas_bump_count", ['0']),
    ("original_gas_price_gwei", jsonOption none),
    ("final_gas_price_gwei", jsonOption none),
    ("prover_rtt_ms", jsonOption none),
    ("proof_generation_ms", jsonOption none)]

/-- The libraries on the inputs of the runs below: the data of their batches is the text of
an empty array, and a batch is read back by the id that its text starts with, as one of those
in `known`. No run compresses. -/
def localRuntime (known : List Batch) : Runtime where
  keccak256 := Keccak.hash
  zlib := id
  parseTransactions := fun data => if data = [91, 93] then some [] else none
  batchToString := batchJson
  batchFromStr := fun text =>
    known.find? fun batch => (quoted batch.id.toString).isPrefixOf (text.drop 6)

def calldataConfig : Config where
  da := ⟨.calldata, none, none⟩
  batch := ⟨none⟩
  aggregator := none
  proof := none

def fetchedBatch (batchId : Text) (root : UInt8) (proof : List UInt8) : FetchedBatch where
  batchId := batchId
  batchData := [91, 93]
  preStateRoot := Vector.replicate 32 (root - 1)
  postStateRoot := Vector.replicate 32 root
  daCommitment := []
  proof := proof
  experimentId := none

def freshId (n : UInt8) : BatchId :=
  ⟨#v[0xf4, 0x7a, 0xc1, 0x0b, 0x58, 0xcc, 0x43, 0x72, 0xa5, 0x67, 0x0e, 0x02, 0xb2, 0xc3, 0xd4, n]⟩

def writeAt (now : ℤ) : OutboxWrite :=
  ⟨now, true⟩

def tenWei : L1Transaction :=
  ⟨3, some 10, some 2, some 10, some 1⟩

def minedWith (status : ℕ) (txHash : UInt8) : DaemonEvent :=
  .submit ⟨.accepted, .ok (), .done,
    .mined (Vector.replicate 32 txHash) ⟨some status, some 7, some 90000⟩⟩ (some tenWei)

def notSent : DaemonEvent :=
  .submit ⟨.accepted, .ok (), .done, .failed "error sending request"⟩ none

def receive (fetched : FetchedBatch) (id : BatchId) (now : ℤ) : List DaemonEvent :=
  [.deliver fetched id true (writeAt now), .writeFile .done, .write (writeAt (now + 5))]

def resumeOne (cfg : Config) (now : ℤ) : List DaemonEvent :=
  [.start cfg true, .scan now none (.error "") (writeAt now)]

end RollupX.Submitter
