import RollupX.Library.Pipeline
import RollupX.Verification.Submitter.Resubmission

/-! The order of commits. A batch whose submission fails is left in the outbox for the next
start, and the daemon goes on with the one after it. -/

namespace RollupX.Submitter

open Machine

/-- The daemon with the batches it has been fed so far, in the order of their first
delivery. -/
structure FedDaemon where
  daemon : Daemon
  fed : List Text

def feed (fed : List Text) : DaemonEvent → List Text
  | .deliver fetched _ _ _ =>
    if fetched.batchId ∈ fed then fed else fed ++ [fetched.batchId]
  | _ => fed

def fedStep (rt : Runtime) (f : FedDaemon) (event : DaemonEvent) : Option FedDaemon :=
  (daemonStep rt f.daemon event).map fun d => ⟨d, feed f.fed event⟩

abbrev FedStep (rt : Runtime) (f : FedDaemon) (event : DaemonEvent) (f' : FedDaemon) : Prop :=
  fedStep rt f event = some f'

theorem run_fedStep_iff {rt : Runtime} {f : FedDaemon} {events : List DaemonEvent} {d : Daemon} :
    Run (DaemonStep rt) f.daemon events d ↔
      ∃ f', Run (FedStep rt) f events f' ∧ f'.daemon = d :=
  run_forget_iff FedDaemon.daemon fun f event => by
    rw [fedStep, Option.map_map]
    exact Option.map_id'

def FedDaemon.initial : FedDaemon :=
  ⟨.initial, []⟩

def FedDaemon.files (f : FedDaemon) : List Text :=
  f.fed.map dataFileOf

def Submission.onBridge (s : Submission) : Bool :=
  match s.sent with
  | some (_, .mined _ receipt) => receipt.status = some 1
  | _ => false

/-- The data files of the batches that the bridge has committed, oldest first. Each stands on
the root of the one before it. -/
def Daemon.onBridge (d : Daemon) : List Text :=
  (d.submissions.filter Submission.onBridge).map fun s => s.batch.dataFile

theorem isOk_of_onBridge {rt : Runtime} {cfg : Config} {files files' : Files} {answers : Answers}
    {recovered : Bool} {batch : Batch} {proofHex : Text} {verifierId : UInt8}
    {submission : Submission}
    (h : cfg.submit rt files answers recovered batch proofHex verifierId =
      some (files', submission)) (hbridge : submission.onBridge = true) :
    submission.result.isOk = true := by
  obtain ⟨-, ⟨e, rfl⟩ | ⟨call, -, rfl⟩⟩ := submit_cases h
  · cases hbridge
  · cases hsending : answers.sending with
    | mined txHash receipt => rfl
    | failed message | receiptFailed txHash message | dropped txHash =>
      simp [Submission.onBridge, hsending] at hbridge

/-- A batch gets a row only when the bridge has committed all that were first delivered before it,
and no process starts and queries the outbox while this has a row in one of the first two states
whose batch was committed. -/
def InTurn (f : FedDaemon) : DaemonEvent → Prop
  | .deliver fetched _ _ w =>
    w.succeeds = true → (∀ row ∈ f.daemon.outbox.rows, row.batchId ≠ fetched.batchId) →
      ∀ batchId ∈ f.fed.takeWhile (· ≠ fetched.batchId), dataFileOf batchId ∈ f.daemon.onBridge
  | .start _ true =>
    ∀ row ∈ f.daemon.outbox.rows, row.isPending = true →
      dataFileOf row.batchId ∉ f.daemon.committed
  | _ => True

instance (f : FedDaemon) (event : DaemonEvent) : Decidable (InTurn f event) :=
  match event with
  | .deliver _ _ _ w => inferInstanceAs (Decidable (w.succeeds = true → _))
  | .start _ true => inferInstanceAs (Decidable (∀ row ∈ f.daemon.outbox.rows, _))
  | .start _ false | .stop | .scan _ _ _ _ | .submit _ _ | .write _ | .fetchFailed | .writeFile _
  | .removeFile _ => isTrue trivial

structure FedDaemon.InOrder (rt : Runtime) (f : FedDaemon) : Prop where
  pipeline : Pipeline.InOrder f.files f.daemon.outbox.dataFiles f.daemon.committed
    f.daemon.onBridge (f.daemon.toSubmit rt)
  restores : f.daemon.outbox.Restores rt

section Step

variable {rt : Runtime} {d d' : Daemon} {fed : List Text} {cfg : Config}
  {activity activity' : Activity}

theorem FedDaemon.InOrder.keep (h : FedDaemon.InOrder rt ⟨d, fed⟩)
    (hsubmissions : d'.submissions = d.submissions)
    (hsubmit : (d'.toSubmit rt).Sublist (d.toSubmit rt))
    (hfiles : d'.outbox.dataFiles = d.outbox.dataFiles) (hrestores : d'.outbox.Restores rt) :
    FedDaemon.InOrder rt ⟨d', fed⟩ := by
  have hcommitted : d'.committed = d.committed := by
    rw [Daemon.committed, Daemon.committed, hsubmissions]
  have hbridge : d'.onBridge = d.onBridge := by
    rw [Daemon.onBridge, Daemon.onBridge, hsubmissions]
  refine ⟨?_, hrestores⟩
  simp only [hcommitted, hbridge, hfiles]
  exact h.pipeline.drop hsubmit

theorem FedDaemon.InOrder.feeds (h : FedDaemon.InOrder rt ⟨d, fed⟩) (event : DaemonEvent) :
    FedDaemon.InOrder rt ⟨d, feed fed event⟩ := by
  cases event with
  | deliver fetched id looked w =>
    rw [feed]
    split
    · exact h
    · rename_i hnew
      refine ⟨?_, h.restores⟩
      rw [FedDaemon.files, List.map_append, List.map_singleton]
      refine h.pipeline.feed fun hfile => ?_
      obtain ⟨other, hother, hsame⟩ := List.mem_map.mp hfile
      exact hnew (dataFileOf_injective hsame ▸ hother)
  | _ => exact h

/-- A delivered batch has its place behind those that were first delivered before it. -/
theorem exists_feed_eq (fed : List Text) (fetched : FetchedBatch) (id : BatchId) (looked : Bool)
    (w : OutboxWrite) :
    ∃ after, feed fed (.deliver fetched id looked w) =
      fed.takeWhile (· ≠ fetched.batchId) ++ fetched.batchId :: after := by
  rw [feed]
  by_cases hmem : fetched.batchId ∈ fed
  · obtain ⟨before, after, rfl, hnot⟩ := List.eq_append_cons_of_mem hmem
    refine ⟨after, ?_⟩
    rw [if_pos hmem, List.takeWhile_append_of_pos, List.takeWhile_cons_of_neg (by simp),
      List.append_nil]
    intro other hother
    exact decide_eq_true fun heq => hnot (heq ▸ hother)
  · refine ⟨[], ?_⟩
    rw [if_neg hmem, List.takeWhile_eq_self_iff.mpr]
    intro other hother
    exact decide_eq_true fun heq => hmem (heq ▸ hother)

/-- A delivered batch that gets a row is the one to be submitted. -/
theorem FedDaemon.InOrder.accepted (h : FedDaemon.InOrder rt ⟨d, fed⟩)
    {fetched : FetchedBatch} {id : BatchId} {looked : Bool} {w : OutboxWrite}
    {outbox : SagaOutbox} {now : ℤ} {text proofHex : Text}
    (hturn : InTurn ⟨d, fed⟩ (.deliver fetched id looked w))
    (hinsert : d.outbox.insertOrIgnore now fetched.batchId text proofHex = (true, outbox))
    (hsucceeds : w.succeeds = true) (hrestores : outbox.Restores rt) :
    FedDaemon.InOrder rt ⟨(d.setOutbox outbox).enter cfg (.received fetched id),
      feed fed (.deliver fetched id looked w)⟩ := by
  obtain ⟨hnew, hdataFiles⟩ := insertOrIgnore_dataFiles hinsert
  have hfinal := hturn hsucceeds (insertOrIgnore_rows hinsert).1
  obtain ⟨after, hfed⟩ := exists_feed_eq fed fetched id looked w
  have hfiles : (feed fed (.deliver fetched id looked w)).map dataFileOf =
      (fed.takeWhile (· ≠ fetched.batchId)).map dataFileOf ++
        dataFileOf fetched.batchId :: after.map dataFileOf := by
    rw [hfed, List.map_append, List.map_cons]
  refine ⟨?_, hrestores⟩
  change Pipeline.InOrder _ (SagaOutbox.dataFiles outbox) d.committed d.onBridge
    [dataFileOf fetched.batchId]
  rw [hdataFiles]
  refine (h.feeds (.deliver fetched id looked w)).pipeline.take hfiles hnew fun file hfile => ?_
  obtain ⟨other, hother, rfl⟩ := List.mem_map.mp hfile
  exact hfinal other hother

theorem FedDaemon.InOrder.started (h : FedDaemon.InOrder rt ⟨d, fed⟩) {queried : Bool}
    (hturn : InTurn ⟨d, fed⟩ (.start cfg queried)) :
    FedDaemon.InOrder rt ⟨d.enter cfg
      (.scan (if queried then d.outbox.getUnconfirmedBatches else []) []), fed⟩ := by
  obtain ⟨hnodup, hrows⟩ := toSubmit_started cfg h.restores queried
  refine ⟨h.pipeline.resume hnodup (fun file hfile => ?_) fun file hfile => ?_, h.restores⟩
  · obtain ⟨-, row, hrow, -, rfl⟩ := hrows file hfile
    exact List.mem_map_of_mem hrow
  · obtain ⟨rfl, row, hrow, hpending, rfl⟩ := hrows file hfile
    exact hturn row hrow hpending

section Submit

variable {answers : Answers} {tx : Option L1Transaction} {recovered : Bool} {batch : Batch}
  {proofHex : Text} {verifierId : UInt8} {onOk : SubmissionResult → Activity}
  {onError : Activity} {files : Files} {submission : Submission}

theorem FedDaemon.InOrder.submitted {result : SubmissionResult}
    (h : FedDaemon.InOrder rt ⟨d, fed⟩) (hphase : d.phase = .running cfg activity)
    (hstep : SubmitStep rt cfg tx activity recovered batch proofHex verifierId onOk onError)
    (hbatch : submission.batch = batch) (hresult : submission.result = .ok result) :
    FedDaemon.InOrder rt ⟨(d.record files submission).enter cfg (onOk result), fed⟩ := by
  have hto : d.toSubmit rt = batch.dataFile :: (onOk result).toSubmit rt := by
    rw [← hstep.toSubmit.1 result]
    exact toSubmit_of_phase hphase
  have hok : submission.result.isOk = true := by rw [hresult]; rfl
  have hcommitted : ((d.record files submission).enter cfg (onOk result)).committed =
      d.committed ++ [batch.dataFile] := by
    rw [committed_record_of_ok files hok, hbatch]
  have hbridge : ((d.record files submission).enter cfg (onOk result)).onBridge = d.onBridge ∨
      ((d.record files submission).enter cfg (onOk result)).onBridge =
        d.onBridge ++ [batch.dataFile] := by
    cases hsubmission : submission.onBridge with
    | true =>
      right
      simp [Daemon.onBridge, Daemon.record, Daemon.enter, List.filter_append, hsubmission,
        hbatch]
    | false =>
      left
      simp [Daemon.onBridge, Daemon.record, Daemon.enter, List.filter_append, hsubmission]
  have hpipeline := h.pipeline
  simp only [hto] at hpipeline
  refine ⟨?_, h.restores⟩
  simp only [hcommitted]
  exact hpipeline.commit hbridge

theorem FedDaemon.InOrder.submitFailed {e : DomainError} (h : FedDaemon.InOrder rt ⟨d, fed⟩)
    (hphase : d.phase = .running cfg activity)
    (hstep : SubmitStep rt cfg tx activity recovered batch proofHex verifierId onOk onError)
    (hsubmit : cfg.submit rt d.files answers recovered batch proofHex verifierId =
      some (files, submission)) (hresult : submission.result = .error e) :
    FedDaemon.InOrder rt ⟨(d.record files submission).enter cfg onError, fed⟩ := by
  have hok : submission.result.isOk = false := by rw [hresult]; rfl
  have hnot : submission.onBridge = false := by
    cases hbridge : submission.onBridge with
    | false => rfl
    | true =>
      rw [isOk_of_onBridge hsubmit hbridge] at hok
      cases hok
  have hcommitted : ((d.record files submission).enter cfg onError).committed = d.committed :=
    committed_record_of_error files hok
  have hbridge : ((d.record files submission).enter cfg onError).onBridge = d.onBridge := by
    simp [Daemon.onBridge, Daemon.record, Daemon.enter, List.filter_append, hnot]
  have hsub : (onError.toSubmit rt).Sublist (d.toSubmit rt) := by
    rw [toSubmit_of_phase hphase, hstep.toSubmit.2]
    exact List.sublist_cons_self _ _
  refine ⟨?_, h.restores⟩
  simp only [hcommitted, hbridge]
  exact h.pipeline.drop hsub

end Submit

theorem feed_of_mayPanic {event : DaemonEvent} (hstep : DaemonStep rt d event d')
    (hphase : d.phase = .running cfg activity) (hpanic : activity.mayPanic = true) :
    feed fed event = fed := by
  cases event with
  | deliver fetched id looked w =>
    cases activity with
    | scanning record rest queue | compressed fetched id | resuming batch proofHex queue =>
      simp [DaemonStep, daemonStep, hphase, Daemon.advance] at hstep
    | _ => cases hpanic
  | _ => rfl

theorem feed_of_rowWrite {event : DaemonEvent} {w : OutboxWrite}
    (hwrite : event.rowWrite = some w) : feed fed event = fed := by
  cases event with
  | deliver fetched id looked w => cases hwrite
  | _ => rfl

theorem FedDaemon.InOrder.enter (h : FedDaemon.InOrder rt ⟨d, fed⟩)
    (hphase : d.phase = .running cfg activity)
    (hsubmit : (activity'.toSubmit rt).Sublist (activity.toSubmit rt)) :
    FedDaemon.InOrder rt ⟨d.enter cfg activity', fed⟩ := by
  refine h.keep rfl ?_ rfl h.restores
  rw [toSubmit_of_phase hphase]
  exact hsubmit

theorem FedStep.inOrder {f f' : FedDaemon} {event : DaemonEvent} (hstep : FedStep rt f event f')
    (htrips : event.RoundTrips rt) (hturn : InTurn f event) (h : f.InOrder rt) :
    f'.InOrder rt := by
  obtain ⟨d, fed⟩ := f
  obtain ⟨d', hd, rfl⟩ := Option.map_eq_some_iff.mp hstep
  have hrestores := (step_effect hd).restores htrips h.restores
  cases step_effect hd with
  | started hphase => exact h.started hturn
  | refused hphase => exact h
  | stopped hphase | fileFailed hphase | removed hphase | notRemoved hphase =>
    exact h.keep rfl (List.nil_sublist _) rfl hrestores
  | panicked hphase hpanic =>
    rw [feed_of_mayPanic hd hphase hpanic]
    exact h.keep rfl (List.nil_sublist _) rfl hrestores
  | moved hphase hmove => exact (h.feeds event).enter hphase hmove.toSubmit
  | updated hphase hwrite hw hupdate =>
    rw [feed_of_rowWrite hwrite]
    refine h.keep rfl ?_ (hupdate.dataFiles d.outbox) hrestores
    rw [toSubmit_of_phase hphase]
    exact hupdate.toSubmit
  | notUpdated hphase hwrite hw hupdate =>
    rw [feed_of_rowWrite hwrite]
    exact h.enter hphase hupdate.toSubmit
  | submitted hphase hsubmitStep hsubmit hresult =>
    exact h.submitted hphase hsubmitStep (submit_spec hsubmit).1.batch_eq hresult
  | submitFailed hphase hsubmitStep hsubmit hresult =>
    exact h.submitFailed hphase hsubmitStep hsubmit hresult
  | accepted hphase hinsert hsucceeds => exact h.accepted hturn hinsert hsucceeds hrestores
  | fileWritten hphase =>
    refine h.keep rfl ?_ rfl hrestores
    rw [toSubmit_of_phase hphase]
    exact List.Sublist.refl _

end Step

/-- In every run in which a batch is taken up only after the bridge has committed the ones
before it, and no process starts with a row to resume whose batch was committed, the batches
for which `submit` returned `Ok` are the first ones that were delivered, in order, and so are
those that the bridge has committed. -/
theorem committed_inOrder_of_inTurn (rt : Runtime) (events : List DaemonEvent) (f : FedDaemon)
    (hr : Run (FedStep rt) .initial events f)
    (htrips : ∀ event ∈ events, event.RoundTrips rt)
    (hturn : Along (FedStep rt) InTurn .initial events) :
    f.daemon.committed <+: f.files ∧ f.daemon.onBridge <+: f.files := by
  have hinit : FedDaemon.initial.InOrder rt :=
    ⟨.nil, restores_initial rt⟩
  have htrips' : Along (FedStep rt) (fun _ event => event.RoundTrips rt) .initial events :=
    Along.of_forall fun event hevent _ => htrips event hevent
  have hend := hr.invariant (I := fun f => f.InOrder rt)
    (fun f event f' h hok hstep => FedStep.inOrder hstep hok.1 hok.2 h) (htrips'.and hturn) hinit
  exact ⟨hend.pipeline.committed_isPrefix, hend.pipeline.final_isPrefix⟩

def oneAtATime : List DaemonEvent :=
  [.start calldataConfig true] ++ receive firstBatch (freshId 1) 1000 ++ [notSent, .stop] ++
    resumeOne calldataConfig 3000 ++
    [minedWith 1 0xa1, .write (writeAt 3010), .write (writeAt 3020)] ++
    receive secondBatch (freshId 2) 4000 ++ [minedWith 1 0xa2]

theorem committed_inOrder_oneAtATime :
    ∃ f, Run (FedStep twoBatches) .initial oneAtATime f ∧
      f.daemon.committed = [dataFileOf ['b', '1'], dataFileOf ['b', '2']] ∧
      f.daemon.committed <+: f.files ∧ f.daemon.onBridge <+: f.files := by
  obtain ⟨f, hr, h⟩ := exists_run_of_foldlM (fedStep twoBatches) .initial oneAtATime
    (fun f => f.daemon.committed) (b := [dataFileOf ['b', '1'], dataFileOf ['b', '2']])
    (by decide +kernel)
  have hturn : Along (FedStep twoBatches) InTurn .initial oneAtATime :=
    Along.of_check (f := fedStep twoBatches) (by decide +kernel)
  exact ⟨f, hr, h, committed_inOrder_of_inTurn twoBatches oneAtATime f hr (by decide +kernel)
    hturn⟩

def goesOn : List DaemonEvent :=
  [.start calldataConfig true] ++ receive firstBatch (freshId 1) 1000 ++ [notSent] ++
    receive secondBatch (freshId 2) 2000 ++ [minedWith 1 0xa2]

theorem committed_not_inOrder_goesOn :
    ∃ f, Run (FedStep twoBatches) .initial goesOn f ∧ f.fed = [['b', '1'], ['b', '2']] ∧
      f.daemon.committed = [dataFileOf ['b', '2']] ∧
      f.daemon.onBridge = [dataFileOf ['b', '2']] ∧
      ¬f.daemon.committed <+: f.files ∧ ¬f.daemon.onBridge <+: f.files := by
  obtain ⟨f, hr, h⟩ := exists_run_of_foldlM (fedStep twoBatches) .initial goesOn
    (fun f => (f.fed, f.daemon.committed, f.daemon.onBridge))
    (b := ([['b', '1'], ['b', '2']], [dataFileOf ['b', '2']], [dataFileOf ['b', '2']]))
    (by decide +kernel)
  obtain ⟨hfed, h⟩ := Prod.mk.inj h
  obtain ⟨hcommitted, hbridge⟩ := Prod.mk.inj h
  have hnot : ¬[dataFileOf ['b', '2']] <+: f.files := by
    rw [FedDaemon.files, hfed]
    decide +kernel
  exact ⟨f, hr, hfed, hcommitted, hbridge, hcommitted ▸ hnot, hbridge ▸ hnot⟩

end RollupX.Submitter
