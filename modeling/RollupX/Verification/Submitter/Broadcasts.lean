import RollupX.Verification.Submitter.Lifecycle

/-! What was broadcast for a row, and what the row says of it. -/

namespace RollupX.Submitter

open Machine

/-- A transaction that a node accepted for the batch with this data file. -/
structure Broadcast where
  dataFile : Text
  txHash : H256
  replacement : Bool
  deriving DecidableEq, Repr

/-- A transaction is out from its first hash on, whatever comes of the receipt. -/
def Sending.hash : Sending → Option H256
  | .failed _ => none
  | .receiptFailed txHash _ => some txHash
  | .dropped txHash => some txHash
  | .mined txHash _ => some txHash

def Submission.broadcast (s : Submission) : Option Broadcast := do
  let (_, sending) ← s.sent
  let txHash ← sending.hash
  pure ⟨s.batch.dataFile, txHash, false⟩

def Activity.replacement : Activity → Option Broadcast
  | .bumped record newHash _ _ => some ⟨dataFileOf record.batchId, newHash, true⟩
  | _ => none

def Daemon.replacement (d : Daemon) : Option Broadcast :=
  match d.phase with
  | .stopped => none
  | .running _ activity => activity.replacement

/-- What the step from `d` to `d'` broadcasts. No step stays in `bumped`. -/
def broadcasts (d d' : Daemon) : List Broadcast :=
  (d'.submissions.drop d.submissions.length).filterMap Submission.broadcast ++
    d'.replacement.toList

/-- The daemon with all that it has broadcast so far, oldest first. -/
structure LoggedDaemon where
  daemon : Daemon
  log : List Broadcast

def LoggedDaemon.initial : LoggedDaemon :=
  ⟨.initial, []⟩

def loggedStep (rt : Runtime) (l : LoggedDaemon) (event : DaemonEvent) : Option LoggedDaemon :=
  (daemonStep rt l.daemon event).map fun d => ⟨d, l.log ++ broadcasts l.daemon d⟩

abbrev LoggedStep (rt : Runtime) (l : LoggedDaemon) (event : DaemonEvent) (l' : LoggedDaemon) :
    Prop :=
  loggedStep rt l event = some l'

theorem run_loggedStep_iff {rt : Runtime} {l : LoggedDaemon} {events : List DaemonEvent}
    {d : Daemon} :
    Run (DaemonStep rt) l.daemon events d ↔
      ∃ l', Run (LoggedStep rt) l events l' ∧ l'.daemon = d :=
  run_forget_iff LoggedDaemon.daemon fun l event => by
    rw [loggedStep, Option.map_map]
    exact Option.map_id'

def logOf (log : List Broadcast) (batchId : Text) : List Broadcast :=
  log.filter fun b => b.dataFile = dataFileOf batchId

/-- The counter is the number of replacements, and the hash that of the last broadcast. -/
def BatchSagaRecord.Counted (log : List Broadcast) (row : BatchSagaRecord) : Prop :=
  row.gasBumpCount = (logOf log row.batchId).countP Broadcast.replacement ∧
    ∀ b, (logOf log row.batchId).getLast? = some b → row.txHash = some b.txHash.debug

/-- The row and the hash that the process is about to write to it. -/
def Activity.awaiting : Activity → Option (Text × Text)
  | .bumped record newHash _ _ => some (record.batchId, newHash.debug)
  | .submitted fetched result _ => some (fetched.batchId, result.txHash)
  | _ => none

def Daemon.awaiting (d : Daemon) : Option (Text × Text) :=
  match d.phase with
  | .stopped => none
  | .running _ activity => activity.awaiting

/-- The transaction did not go out, or it was mined. -/
def Sending.settled : Sending → Bool
  | .failed _ => true
  | .mined _ _ => true
  | _ => false

def Daemon.resumes (d : Daemon) : Bool :=
  match d.phase with
  | .running _ (.resuming _ _ _) => true
  | _ => false

/-- The process does not stop between a broadcast and its record, a transaction that goes out is
mined, and none goes out for a batch that was found in the outbox. -/
def Recorded (d : Daemon) : DaemonEvent → Prop
  | .stop => d.awaiting = none
  | .submit answers _ =>
    answers.sending.settled = true ∧ (d.resumes = true → answers.sending.hash = none)
  | _ => True

instance (d : Daemon) (event : DaemonEvent) : Decidable (Recorded d event) := by
  unfold Recorded
  split <;> infer_instance

theorem broadcast_of_error {rt : Runtime} {cfg : Config} {files files' : Files} {answers : Answers}
    {recovered : Bool} {batch : Batch} {proofHex : Text} {verifierId : UInt8}
    {submission : Submission} {e : DomainError}
    (h : cfg.submit rt files answers recovered batch proofHex verifierId =
      some (files', submission)) (hsettled : answers.sending.settled = true)
    (hresult : submission.result = .error e) : submission.broadcast = none := by
  obtain ⟨-, ⟨e, rfl⟩ | ⟨call, -, rfl⟩⟩ := submit_cases h
  · rfl
  · cases hsending : answers.sending with
    | failed message => simp [Submission.broadcast, Sending.hash]
    | mined txHash receipt => simp [hsending, DaStrategy.finish] at hresult
    | receiptFailed txHash message | dropped txHash => simp [hsending, Sending.settled] at hsettled

/-- The hash that a row has once the awaited write is done. -/
def BatchSagaRecord.hashAfter (row : BatchSagaRecord) : Option (Text × Text) → Option Text
  | none => row.txHash
  | some (batchId, txHash) => if row.batchId = batchId then some txHash else row.txHash

/-- No row counts a replacement, every broadcast has its row, and a row has, or is about to get,
the hash of the last one for it. -/
structure Tracks (log : List Broadcast) (outbox : SagaOutbox)
    (awaiting : Option (Text × Text)) : Prop where
  uncounted : ∀ row ∈ outbox.rows, row.gasBumpCount = 0
  known : ∀ b ∈ log, ∃ row ∈ outbox.rows, b.dataFile = dataFileOf row.batchId
  last : ∀ row ∈ outbox.rows, ∀ b, (logOf log row.batchId).getLast? = some b →
    row.hashAfter awaiting = some b.txHash.debug

section Tracks

variable {log : List Broadcast} {outbox outbox' : SagaOutbox} {awaiting : Option (Text × Text)}
  {batchId txHash : Text} {nonce : Option ℤ} {gasPrice : Option Text} {now : ℤ}

theorem logOf_append_of_eq {b : Broadcast} (h : b.dataFile = dataFileOf batchId) :
    logOf (log ++ [b]) batchId = logOf log batchId ++ [b] := by
  simp [logOf, h]

theorem logOf_append_of_ne {b : Broadcast} (h : b.dataFile ≠ dataFileOf batchId) :
    logOf (log ++ [b]) batchId = logOf log batchId := by
  simp [logOf, h]

theorem Tracks.of_rows (h : Tracks log outbox awaiting)
    (hrows : ∀ row ∈ outbox'.rows, ∃ old ∈ outbox.rows, row.gasBumpCount = old.gasBumpCount ∧
      row.batchId = old.batchId ∧ row.hashAfter none = old.hashAfter awaiting)
    (hids : outbox'.rows.map BatchSagaRecord.batchId = outbox.rows.map BatchSagaRecord.batchId) :
    Tracks log outbox' none := by
  refine ⟨fun row hrow => ?_, fun b hb => ?_, fun row hrow b hb => ?_⟩
  · obtain ⟨old, hold, hcount, -, -⟩ := hrows row hrow
    rw [hcount, h.uncounted old hold]
  · obtain ⟨old, hold, hfile⟩ := h.known b hb
    have hin := hids ▸ List.mem_map_of_mem (f := BatchSagaRecord.batchId) hold
    obtain ⟨row, hrow, hid⟩ := List.mem_map.mp hin
    exact ⟨row, hrow, by rw [hfile, hid]⟩
  · obtain ⟨old, hold, -, hid, hhash⟩ := hrows row hrow
    rw [hhash, h.last old hold b (by rw [← hid, hb])]

theorem Tracks.updateState {state : SagaState} (h : Tracks log outbox none) :
    Tracks log (outbox.updateState now batchId state) none := by
  refine h.of_rows (fun row hrow => ?_) (KeyedTable.map_update _ fun _ => rfl)
  rcases mem_updateState hrow with ⟨hrow, -⟩ | ⟨old, hold, -, rfl⟩
  · exact ⟨row, hrow, rfl, rfl, rfl⟩
  · exact ⟨old, hold, rfl, rfl, rfl⟩

theorem Tracks.updateSubmission (h : Tracks log outbox (some (batchId, txHash))) :
    Tracks log (outbox.updateSubmission now batchId txHash nonce gasPrice) none := by
  refine h.of_rows (fun row hrow => ?_) (KeyedTable.map_update _ fun _ => rfl)
  rcases KeyedTable.mem_update hrow with ⟨hrow, hne⟩ | ⟨old, hold, hid, rfl⟩
  · exact ⟨row, hrow, rfl, rfl, by simp [BatchSagaRecord.hashAfter, hne]⟩
  · exact ⟨old, hold, rfl, rfl, by simp [BatchSagaRecord.hashAfter, hid]⟩

/-- Any hash may be written to a row for which nothing was broadcast. -/
theorem Tracks.await (h : Tracks log outbox none) (hnone : logOf log batchId = []) :
    Tracks log outbox (some (batchId, txHash)) := by
  refine ⟨h.uncounted, h.known, fun row hrow b hb => ?_⟩
  by_cases hid : row.batchId = batchId
  · rw [hid, hnone] at hb
    contradiction
  · simpa [BatchSagaRecord.hashAfter, hid] using h.last row hrow b hb

theorem Tracks.broadcast (h : Tracks log outbox none) {b : Broadcast}
    (hknown : batchId ∈ outbox.rows.map BatchSagaRecord.batchId)
    (hfile : b.dataFile = dataFileOf batchId) :
    Tracks (log ++ [b]) outbox (some (batchId, b.txHash.debug)) := by
  refine ⟨h.uncounted, fun b' hb' => ?_, fun row hrow b' hb' => ?_⟩
  · rcases List.mem_append.mp hb' with hb' | hb'
    · exact h.known b' hb'
    · obtain ⟨row, hrow, rfl⟩ := List.mem_map.mp hknown
      cases List.mem_singleton.mp hb'
      exact ⟨row, hrow, hfile⟩
  · by_cases hid : row.batchId = batchId
    · rw [hid, logOf_append_of_eq hfile, List.getLast?_concat] at hb'
      cases hb'
      simp [BatchSagaRecord.hashAfter, hid]
    · have hne : b.dataFile ≠ dataFileOf row.batchId := by
        rw [hfile]
        exact fun heq => hid (dataFileOf_injective heq).symm
      rw [logOf_append_of_ne hne] at hb'
      simpa [BatchSagaRecord.hashAfter, hid] using h.last row hrow b' hb'

theorem Tracks.insert {batchData proofHex : Text} (h : Tracks log outbox none)
    (hinsert : outbox.insertOrIgnore now batchId batchData proofHex = (true, outbox')) :
    Tracks log outbox' none ∧ logOf log batchId = [] ∧
      batchId ∈ outbox'.rows.map BatchSagaRecord.batchId := by
  have hspec := KeyedTable.insertOrIgnore_true (congrArg Prod.fst hinsert)
  have hrows : outbox'.rows = _ := (congrArg (fun r => r.2.rows) hinsert).symm.trans hspec.2
  have hnone : logOf log batchId = [] := by
    rw [logOf, List.filter_eq_nil_iff]
    intro b hb hfile
    obtain ⟨row, hrow, hid⟩ := h.known b hb
    have heq := dataFileOf_injective (hid.symm.trans (of_decide_eq_true hfile))
    exact hspec.1 row hrow heq
  refine ⟨⟨fun row hrow => ?_, fun b hb => ?_, fun row hrow b hb => ?_⟩, hnone, by simp [hrows]⟩
  · rcases List.mem_append.mp (hrows ▸ hrow) with hrow | hrow
    · exact h.uncounted row hrow
    · cases List.mem_singleton.mp hrow
      rfl
  · obtain ⟨row, hrow, hfile⟩ := h.known b hb
    exact ⟨row, hrows ▸ List.mem_append_left _ hrow, hfile⟩
  · rcases List.mem_append.mp (hrows ▸ hrow) with hrow | hrow
    · exact h.last row hrow b hb
    · cases List.mem_singleton.mp hrow
      rw [hnone] at hb
      contradiction

end Tracks

/-- The new batch for which nothing has been sent. -/
def Activity.unsent : Activity → Option Text
  | .received fetched _ => some fetched.batchId
  | .written fetched _ => some fetched.batchId
  | .compressed fetched _ => some fetched.batchId
  | _ => none

/-- The rows that the process works on are there, and it records no batch of the outbox. -/
structure Activity.Tracked (log : List Broadcast) (outbox : SagaOutbox) (activity : Activity) :
    Prop where
  known : ∀ record ∈ activity.records, record.batchId ∈ outbox.rows.map BatchSagaRecord.batchId
  unsent : ∀ batchId, activity.unsent = some batchId →
    logOf log batchId = [] ∧ batchId ∈ outbox.rows.map BatchSagaRecord.batchId
  recording : activity.recording = []

structure LoggedDaemon.Tracked (l : LoggedDaemon) : Prop where
  tracks : Tracks l.log l.daemon.outbox l.daemon.awaiting
  running : l.daemon.Running fun _ activity => activity.Tracked l.log l.daemon.outbox

section Steps

variable {rt : Runtime} {cfg : Config} {d d' : Daemon} {log log' : List Broadcast}
  {outbox outbox' : SagaOutbox} {activity activity' : Activity} {event : DaemonEvent}
  {queue : List (Batch × Text)} {records : List BatchSagaRecord}

theorem awaiting_of_phase (h : d.phase = .running cfg activity) :
    d.awaiting = activity.awaiting := by
  rw [Daemon.awaiting, h]

theorem awaiting_of_stopped (h : d.phase = .stopped) : d.awaiting = none := by
  rw [Daemon.awaiting, h]

theorem replacement_of_awaiting (h : activity.awaiting = none) : activity.replacement = none := by
  cases activity with
  | bumped record newHash rest queue => contradiction
  | _ => rfl

theorem awaiting_of_mayPanic (h : activity.mayPanic = true) : activity.awaiting = none := by
  cases activity with
  | scanning record rest queue | resuming batch proofHex queue | compressed fetched id => rfl
  | _ => contradiction

theorem resume_idle : (Activity.resume queue).awaiting = none ∧
    (Activity.resume queue).unsent = none :=
  Activity.resume_elim (P := fun a => a.awaiting = none ∧ a.unsent = none) queue ⟨rfl, rfl⟩
    fun _ _ _ => ⟨rfl, rfl⟩

theorem scan_idle : (Activity.scan records queue).awaiting = none ∧
    (Activity.scan records queue).unsent = none :=
  Activity.scan_elim (P := fun a => a.awaiting = none ∧ a.unsent = none) records queue ⟨rfl, rfl⟩
    (fun _ _ _ => ⟨rfl, rfl⟩) fun _ _ => ⟨rfl, rfl⟩

theorem Activity.Tracked.of_unsent (hrecords : activity.records = [])
    (hrecording : activity.recording = [])
    (hunsent : ∀ batchId, activity.unsent = some batchId →
      logOf log batchId = [] ∧ batchId ∈ outbox.rows.map BatchSagaRecord.batchId) :
    activity.Tracked log outbox :=
  ⟨by simp [hrecords], hunsent, hrecording⟩

theorem Activity.Tracked.of_sent
    (hknown : ∀ record ∈ activity.records,
      record.batchId ∈ outbox.rows.map BatchSagaRecord.batchId)
    (hrecording : activity.recording = []) (hunsent : activity.unsent = none) :
    activity.Tracked log outbox :=
  ⟨hknown, by simp [hunsent], hrecording⟩

theorem Activity.Tracked.of_idle (hrecords : activity.records = [])
    (hrecording : activity.recording = []) (hunsent : activity.unsent = none) :
    activity.Tracked log outbox :=
  .of_sent (by simp [hrecords]) hrecording hunsent

theorem Activity.Tracked.polling : Activity.polling.Tracked log outbox :=
  .of_idle rfl rfl rfl

theorem Activity.Tracked.resume : (Activity.resume queue).Tracked log outbox :=
  .of_idle records_resume recording_resume resume_idle.2

theorem Activity.Tracked.scan
    (h : ∀ record ∈ records, record.batchId ∈ outbox.rows.map BatchSagaRecord.batchId) :
    (Activity.scan records queue).Tracked log outbox :=
  .of_sent (by simpa using h) recording_scan scan_idle.2

theorem broadcasts_enter (h : d'.submissions = d.submissions) :
    broadcasts d (d'.enter cfg activity) = activity.replacement.toList := by
  simp [broadcasts, Daemon.enter, h, Daemon.replacement]

theorem broadcasts_record {files : Files} {submission : Submission}
    (h : activity.replacement = none) :
    broadcasts d ((d.record files submission).enter cfg activity) =
      submission.broadcast.toList := by
  cases hb : submission.broadcast <;>
    simp [broadcasts, Daemon.enter, Daemon.record, Daemon.replacement, h, hb]

theorem broadcasts_stopped (hsub : d'.submissions = d.submissions) (h : d'.phase = .stopped) :
    broadcasts d d' = [] := by
  simp [broadcasts, hsub, Daemon.replacement, h]

theorem LoggedDaemon.Tracked.at_phase (h : LoggedDaemon.Tracked ⟨d, log⟩)
    (hphase : d.phase = .running cfg activity) :
    Tracks log d.outbox activity.awaiting ∧ activity.Tracked log d.outbox := by
  refine ⟨?_, h.running cfg activity hphase⟩
  rw [← awaiting_of_phase hphase]
  exact h.tracks

theorem LoggedDaemon.Tracked.of_stopped (h : Tracks log d'.outbox none)
    (hsub : d'.submissions = d.submissions) (hphase : d'.phase = .stopped) :
    LoggedDaemon.Tracked ⟨d', log ++ broadcasts d d'⟩ := by
  rw [broadcasts_stopped hsub hphase, List.append_nil]
  exact ⟨awaiting_of_stopped hphase ▸ h, Daemon.running_of_stopped hphase⟩

theorem LoggedDaemon.Tracked.enter (h : Tracks log d'.outbox none)
    (hactivity : activity.Tracked log d'.outbox) (hidle : activity.awaiting = none)
    (hsub : d'.submissions = d.submissions) :
    LoggedDaemon.Tracked ⟨d'.enter cfg activity, log ++ broadcasts d (d'.enter cfg activity)⟩ := by
  rw [broadcasts_enter hsub, replacement_of_awaiting hidle, Option.toList_none, List.append_nil]
  refine ⟨?_, Daemon.running_enter hactivity⟩
  change Tracks log d'.outbox activity.awaiting
  rw [hidle]
  exact h

theorem LoggedDaemon.Tracked.moved (h : LoggedDaemon.Tracked ⟨d, log⟩)
    (hphase : d.phase = .running cfg activity) (hmove : MoveStep rt activity event activity') :
    LoggedDaemon.Tracked
      ⟨d.enter cfg activity', log ++ broadcasts d (d.enter cfg activity')⟩ := by
  obtain ⟨htracks, hknown, -, -⟩ := h.at_phase hphase
  cases hmove with
  | queued | bumpFailed hstate =>
    exact .enter htracks (.scan fun r hr => hknown r (List.mem_cons_of_mem _ hr)) scan_idle.1 rfl
  | @bumpSent record rest queue now tx sending w newHash hstate =>
    rw [broadcasts_enter rfl]
    exact ⟨htracks.broadcast (hknown record List.mem_cons_self) rfl,
      Daemon.running_enter (.of_sent hknown rfl rfl)⟩
  | skipped | fetchFailed => exact .enter htracks .polling rfl rfl

theorem UpdateStep.ids {f : SagaOutbox → SagaOutbox} (h : UpdateStep cfg activity f activity')
    (outbox : SagaOutbox) :
    (f outbox).rows.map BatchSagaRecord.batchId = outbox.rows.map BatchSagaRecord.batchId := by
  cases h <;> exact KeyedTable.map_update _ fun _ => rfl

theorem LoggedDaemon.Tracked.updated {f : SagaOutbox → SagaOutbox}
    (h : LoggedDaemon.Tracked ⟨d, log⟩) (hphase : d.phase = .running cfg activity)
    (hupdate : UpdateStep cfg activity f activity') :
    LoggedDaemon.Tracked ⟨(d.setOutbox (f d.outbox)).enter cfg activity',
      log ++ broadcasts d ((d.setOutbox (f d.outbox)).enter cfg activity')⟩ := by
  obtain ⟨htracks, hknown, hunsent, hrecording⟩ := h.at_phase hphase
  have hids := hupdate.ids d.outbox
  rw [← hids] at hknown hunsent
  cases hupdate with
  | gaveUp hstate =>
    exact .enter htracks.updateState (.scan fun r hr => hknown r (List.mem_cons_of_mem _ hr))
      scan_idle.1 rfl
  | bumped =>
    exact .enter htracks.updateSubmission
      (.scan fun r hr => hknown r (List.mem_cons_of_mem _ hr)) scan_idle.1 rfl
  | resumed | resumedSubmitted => contradiction
  | written => exact .enter htracks.updateState (.of_unsent rfl rfl hunsent) rfl rfl
  | simulated hmode =>
    exact .enter (htracks.await (hunsent _ rfl).1).updateSubmission (.of_idle rfl rfl rfl) rfl rfl
  | submitted => exact .enter htracks.updateSubmission (.of_idle rfl rfl rfl) rfl rfl
  | confirming => exact .enter htracks.updateState (.of_idle rfl rfl rfl) rfl rfl

section Submissions

variable {tx : Option L1Transaction} {answers : Answers} {recovered : Bool} {batch : Batch}
  {proofHex : Text} {verifierId : UInt8} {onOk : SubmissionResult → Activity} {onError : Activity}
  {files : Files} {submission : Submission}

theorem LoggedDaemon.Tracked.submitFailed {e : DomainError} (h : LoggedDaemon.Tracked ⟨d, log⟩)
    (hok : Recorded d (.submit answers tx)) (hphase : d.phase = .running cfg activity)
    (hsubmit : SubmitStep rt cfg tx activity recovered batch proofHex verifierId onOk onError)
    (hcall : cfg.submit rt d.files answers recovered batch proofHex verifierId =
      some (files, submission)) (hresult : submission.result = .error e) :
    LoggedDaemon.Tracked ⟨(d.record files submission).enter cfg onError,
      log ++ broadcasts d ((d.record files submission).enter cfg onError)⟩ := by
  obtain ⟨htracks, -⟩ := h.at_phase hphase
  have hnone := broadcast_of_error hcall hok.1 hresult
  cases hsubmit with
  | resuming =>
    rw [broadcasts_record (replacement_of_awaiting resume_idle.1), hnone, Option.toList_none,
      List.append_nil]
    refine ⟨?_, Daemon.running_enter .resume⟩
    change Tracks log d.outbox (Activity.resume _).awaiting
    rw [resume_idle.1]
    exact htracks
  | compressed hmode =>
    rw [broadcasts_record rfl, hnone, Option.toList_none, List.append_nil]
    exact ⟨htracks, Daemon.running_enter .polling⟩

theorem LoggedDaemon.Tracked.submitted {result : SubmissionResult}
    (h : LoggedDaemon.Tracked ⟨d, log⟩)
    (hok : Recorded d (.submit answers tx)) (hphase : d.phase = .running cfg activity)
    (hsubmit : SubmitStep rt cfg tx activity recovered batch proofHex verifierId onOk onError)
    (hcall : cfg.submit rt d.files answers recovered batch proofHex verifierId =
      some (files, submission)) (hresult : submission.result = .ok result) :
    LoggedDaemon.Tracked ⟨(d.record files submission).enter cfg (onOk result),
      log ++ broadcasts d ((d.record files submission).enter cfg (onOk result))⟩ := by
  obtain ⟨htracks, -, hunsent, -⟩ := h.at_phase hphase
  have hspec := (submit_spec hcall).1
  obtain ⟨args, txHash, receipt, hsent, hanswer, htext⟩ := hspec.mined result hresult
  have hbroadcast : submission.broadcast = some ⟨batch.dataFile, txHash, false⟩ := by
    simp [Submission.broadcast, hsent, Sending.hash, hspec.batch_eq]
  cases hsubmit with
  | resuming =>
    have hnone := hok.2 (by rw [Daemon.resumes, hphase])
    rw [hanswer] at hnone
    contradiction
  | compressed hmode =>
    rw [broadcasts_record rfl, hbroadcast]
    refine ⟨?_, Daemon.running_enter (.of_idle rfl rfl rfl)⟩
    have hafter := htracks.broadcast (b := ⟨_, txHash, false⟩) (hunsent _ rfl).2 rfl
    rw [← htext] at hafter
    exact hafter

end Submissions

theorem LoggedStep.tracked {l l' : LoggedDaemon} (hstep : LoggedStep rt l event l')
    (hwrite : ∀ w, event.rowWrite = some w → w.succeeds = true)
    (hok : Recorded l.daemon event) (h : l.Tracked) : l'.Tracked := by
  obtain ⟨d, log⟩ := l
  obtain ⟨d', hd, rfl⟩ := Option.map_eq_some_iff.mp hstep
  cases step_effect hd with
  | started hphase =>
    refine .enter (awaiting_of_stopped hphase ▸ h.tracks) (.scan fun r hr => ?_) scan_idle.1 rfl
    split at hr
    · exact List.mem_map_of_mem (mem_getUnconfirmedBatches hr)
    · contradiction
  | refused hphase => exact .of_stopped (awaiting_of_stopped hphase ▸ h.tracks) rfl hphase
  | stopped hphase =>
    have hnone : d.awaiting = none := hok
    exact .of_stopped (hnone ▸ h.tracks) rfl rfl
  | panicked hphase hpanic =>
    exact .of_stopped (awaiting_of_mayPanic hpanic ▸ (h.at_phase hphase).1) rfl rfl
  | moved hphase hmove => exact h.moved hphase hmove
  | updated hphase hevent hw hupdate => exact h.updated hphase hupdate
  | notUpdated hphase hevent hw hupdate =>
    rw [hwrite _ hevent] at hw
    contradiction
  | submitted hphase hsubmit hcall hresult => exact h.submitted hok hphase hsubmit hcall hresult
  | submitFailed hphase hsubmit hcall hresult =>
    exact h.submitFailed hok hphase hsubmit hcall hresult
  | accepted hphase hinsert =>
    obtain ⟨htracks, hnone, hknown⟩ := (h.at_phase hphase).1.insert hinsert
    refine .enter htracks (.of_unsent rfl rfl ?_) rfl rfl
    rintro _ ⟨⟩
    exact ⟨hnone, hknown⟩
  | fileWritten hphase =>
    obtain ⟨htracks, -, hunsent, -⟩ := h.at_phase hphase
    exact .enter htracks (.of_unsent rfl rfl hunsent) rfl rfl
  | fileFailed hphase | removed hphase | notRemoved hphase =>
    exact .enter (h.at_phase hphase).1 .polling rfl rfl

end Steps

theorem tracked_initial : LoggedDaemon.initial.Tracked :=
  ⟨⟨fun _ h => absurd h List.not_mem_nil, fun _ h => absurd h List.not_mem_nil,
    fun _ h => absurd h List.not_mem_nil⟩, Daemon.running_of_stopped rfl⟩

/-- The rows of a run in which every broadcast gets its record: a row's counter and hash are
right if and only if no replacement was broadcast for it. -/
theorem bumps_counted_iff (rt : Runtime) (events : List DaemonEvent) (l : LoggedDaemon)
    (hrun : Run (LoggedStep rt) .initial events l)
    (hwrites : ∀ event ∈ events, ∀ w, event.rowWrite = some w → w.succeeds = true)
    (hrecorded : Along (LoggedStep rt) (fun l event => Recorded l.daemon event) .initial events)
    (hrest : l.daemon.awaiting = none) :
    ∀ row ∈ l.daemon.outbox.rows, row.Counted l.log ↔
      ∀ b ∈ logOf l.log row.batchId, b.replacement = false := by
  have htracked : l.Tracked := by
    refine hrun.invariant (I := LoggedDaemon.Tracked) ?_
      ((Along.of_forall fun event hevent _ => hwrites event hevent).and hrecorded) tracked_initial
    intro s event t hs hok hstep
    exact hstep.tracked hok.1 hok.2 hs
  intro row hrow
  have hlast := htracked.tracks.last row hrow
  simp only [hrest, BatchSagaRecord.hashAfter] at hlast
  rw [BatchSagaRecord.Counted, htracked.tracks.uncounted row hrow, and_iff_left hlast, eq_comm,
    Nat.cast_eq_zero, List.countP_eq_zero]
  simp

theorem bumps_counted_stoppedSubmitted :
    ∃ l, Run (LoggedStep oneBatchRuntime) .initial stoppedSubmitted l ∧
      l.daemon.outbox.rows.map (fun row => row.txHash.isSome) = [true] ∧
      ∀ row ∈ l.daemon.outbox.rows, row.Counted l.log := by
  obtain ⟨l, hrun, hend⟩ := exists_run_of_foldlM (loggedStep oneBatchRuntime) .initial
    stoppedSubmitted (fun l => (l.daemon.outbox.rows.map (fun row => row.txHash.isSome),
      l.daemon.awaiting, l.log.map Broadcast.replacement))
    (b := ([true], none, [false])) (by decide +kernel)
  simp only [Prod.mk.injEq] at hend
  obtain ⟨hrows, hrest, hlog⟩ := hend
  refine ⟨l, hrun, hrows, fun row hrow => (bumps_counted_iff oneBatchRuntime stoppedSubmitted l hrun
    (by decide) ?_ hrest row hrow).mpr fun b hb => ?_⟩
  · exact Along.of_check (f := loggedStep oneBatchRuntime) (by decide +kernel)
  · have hin := List.mem_map_of_mem (f := Broadcast.replacement) (List.mem_of_mem_filter hb)
    rw [hlog] at hin
    exact List.mem_singleton.mp hin

/-- The next process replaces the transaction; the row has its hash and counts nothing. -/
theorem bumps_notCounted_bumpedOnce :
    ∃ l row, Run (LoggedStep oneBatchRuntime) .initial (stoppedSubmitted ++ bumpedOnce) l ∧
      l.daemon.outbox.rows = [row] ∧ l.daemon.awaiting = none ∧
      (logOf l.log row.batchId).map Broadcast.replacement = [false, true] ∧
      row.txHash = some (H256.debug (Vector.replicate 32 0xb1)) ∧ row.gasBumpCount = 0 ∧
      ¬ row.Counted l.log := by
  obtain ⟨l, hrun, hend⟩ := exists_run_of_foldlM (loggedStep oneBatchRuntime) .initial
    (stoppedSubmitted ++ bumpedOnce)
    (fun l => (l.daemon.outbox.rows.map (fun row : BatchSagaRecord =>
      ((logOf l.log row.batchId).map Broadcast.replacement,
        decide (row.txHash = some (H256.debug (Vector.replicate 32 0xb1))), row.gasBumpCount)),
      l.daemon.awaiting.isNone))
    (b := ([([false, true], true, 0)], true))
    (by decide +kernel)
  simp only [Prod.mk.injEq, List.map_eq_singleton_iff] at hend
  obtain ⟨⟨row, hrows, hlog, hhash, hcount⟩, hrest⟩ := hend
  refine ⟨l, row, hrun, hrows, Option.isNone_iff_eq_none.mp hrest, hlog,
    of_decide_eq_true hhash, hcount, fun hcounted => ?_⟩
  have hone : (logOf l.log row.batchId).countP Broadcast.replacement = 1 := by
    rw [← Function.id_comp Broadcast.replacement, ← List.countP_map, hlog]
    rfl
  have hcontra := hcounted.1
  rw [hone, hcount] at hcontra
  contradiction

end RollupX.Submitter
