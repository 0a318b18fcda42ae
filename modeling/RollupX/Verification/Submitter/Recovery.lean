import Mathlib.Tactic.IntervalCases
import RollupX.Verification.Submitter.Steps

/-! The recovery pass and the normal path. A batch that was left in one of the first two
states is submitted again by the next process, from what is in its row and in its data file. -/

namespace RollupX.Submitter

open Machine
open Executor (hexDigit hexNibble hexPairs hexDecode)

theorem hexDigit_encode {n : ℕ} (h : n < 16) :
    ∃ b, String.utf8EncodeChar (hexDigit n) = [b] ∧
      ∀ index, hexNibble index b = .ok (UInt8.ofNat n) := by
  interval_cases n <;> exact ⟨_, rfl, fun _ => rfl⟩

theorem nibbles_eq (b : UInt8) :
    UInt8.ofNat (b.toNat / 16) * 16 + UInt8.ofNat (b.toNat % 16) = b := by
  have h := b.toNat_lt
  apply UInt8.toNat_inj.mp
  simp only [UInt8.toNat_add, UInt8.toNat_mul, UInt8.toNat_ofNat', UInt8.reduceToNat]
  omega

theorem hexPairs_hexEncode (index : ℕ) (bytes : List UInt8) :
    hexPairs index ((hexEncode bytes).flatMap String.utf8EncodeChar) = .ok bytes ∧
      ((hexEncode bytes).flatMap String.utf8EncodeChar).length % 2 = 0 := by
  induction bytes generalizing index with
  | nil => exact ⟨rfl, rfl⟩
  | cons b bytes ih =>
    have hlt := b.toNat_lt
    obtain ⟨high, hhigh, hhighDigit⟩ := hexDigit_encode (n := b.toNat / 16) (by omega)
    obtain ⟨low, hlow, hlowDigit⟩ := hexDigit_encode (n := b.toNat % 16) (by omega)
    obtain ⟨hrest, hlength⟩ := ih (index + 2)
    have hchars : (hexEncode (b :: bytes)).flatMap String.utf8EncodeChar =
        high :: low :: (hexEncode bytes).flatMap String.utf8EncodeChar := by
      simp [hexEncode, hhigh, hlow]
    rw [hchars, List.length_cons, List.length_cons]
    refine ⟨?_, by omega⟩
    simp [hexPairs, hhighDigit, hlowDigit, hrest, bind, Except.bind, pure, Except.pure,
      nibbles_eq]

theorem trimStart0x_hexEncode (bytes : List UInt8) :
    trimStart0x (hexEncode bytes) = hexEncode bytes := by
  cases bytes with
  | nil => rfl
  | cons b bytes =>
    have hdigits : ∀ n < 16, hexDigit n ≠ 'x' := by decide
    have hlow := hdigits (b.toNat % 16) (by omega)
    simp only [hexEncode, List.flatMap_cons, List.cons_append, List.nil_append]
    unfold trimStart0x
    split
    · rename_i heq
      exact absurd (List.cons.inj (List.cons.inj heq).2).1 hlow
    · rfl

theorem decodeHexText_hexText (bytes : List UInt8) : decodeHexText (hexText bytes) = .ok bytes := by
  obtain ⟨hpairs, hlength⟩ := hexPairs_hexEncode 0 bytes
  have htrim : trimStart0x (hexText bytes) = hexEncode bytes := trimStart0x_hexEncode bytes
  rw [decodeHexText, htrim, hexDecode, if_neg (by omega), hpairs]

theorem formatProofForVerifier_zero_eq_iff (proof : List UInt8) :
    formatProofForVerifier proof 0 = proof ↔ proof.length = 256 := by
  unfold formatProofForVerifier
  rw [if_pos rfl]
  split
  · rename_i hlt
    refine ⟨fun h => ?_, fun h => by omega⟩
    have := congrArg List.length h
    simp only [List.length_append, List.length_replicate] at this
    omega
  · split
    · rename_i hlt
      refine ⟨fun h => ?_, fun h => by omega⟩
      have := congrArg List.length h
      rw [List.length_take] at this
      omega
    · refine ⟨fun _ => by omega, fun _ => rfl⟩

/-- What goes on chain if nothing outside fails: the verifier, the bytes of the proof and the
data of the batch. -/
structure Attempt where
  verifierId : UInt8
  proof : List UInt8
  batchData : List UInt8
  deriving DecidableEq, Repr

/-- Without a data file, or with a proof that is no hexadecimal text, nothing is sent. -/
def Submission.attempt (s : Submission) : Option Attempt :=
  match decodeHexText s.proofHex, s.data with
  | .ok proof, some data => some ⟨s.verifierId, proof, data⟩
  | _, _ => none

def attempts (batchId : Text) (submissions : List Submission) : List Attempt :=
  (submissions.filter fun s => s.batch.dataFile = dataFileOf batchId).filterMap Submission.attempt

def DaemonEvent.isNormal : DaemonEvent → Bool
  | .write _ => true
  | .submit _ _ => true
  | .removeFile _ => true
  | _ => false

def normalAttempts (cfg : Config) (fetched : FetchedBatch) : List Attempt :=
  match cfg.verificationMode with
  | .onChain =>
    [⟨cfg.verifierId, formatProofForVerifier fetched.proof cfg.verifierId, fetched.batchData⟩]
  | .offChainOnly => []

/-- Up to the call of `submit` the data file is complete and nothing has been submitted since
`base`, and after it what was submitted is settled. -/
def OnItsWay (cfg : Config) (fetched : FetchedBatch) (base : List Submission) (d : Daemon) :
    Activity → Prop
  | .written fetched' _ => fetched' = fetched ∧ d.submissions = base ∧
      d.files (dataFileOf fetched.batchId) = some fetched.batchData
  | .compressed fetched' _ => fetched' = fetched ∧ d.submissions = base ∧
      d.files (dataFileOf fetched.batchId) = some fetched.batchData
  | .submitted _ _ _ =>
    attempts fetched.batchId (d.submissions.drop base.length) = normalAttempts cfg fetched
  | .confirming _ =>
    attempts fetched.batchId (d.submissions.drop base.length) = normalAttempts cfg fetched
  | .cleaning _ =>
    attempts fetched.batchId (d.submissions.drop base.length) = normalAttempts cfg fetched
  | .polling =>
    attempts fetched.batchId (d.submissions.drop base.length) = normalAttempts cfg fetched
  | _ => False

section Normal

variable {rt : Runtime} {cfg : Config} {fetched : FetchedBatch} {base : List Submission}
  {d d' : Daemon} {activity activity' : Activity}

theorem UpdateStep.onItsWay {f : SagaOutbox → SagaOutbox} (h : UpdateStep cfg activity f activity')
    (hd : OnItsWay cfg fetched base d activity) (hsubmissions : d'.submissions = d.submissions)
    (hfiles : d'.files = d.files) : OnItsWay cfg fetched base d' activity' := by
  cases h with
  | gaveUp hstate | bumped | resumed | resumedSubmitted => exact hd.elim
  | written =>
    obtain ⟨hsame, hbase, hdata⟩ := hd
    exact ⟨hsame, hsubmissions.trans hbase, hfiles ▸ hdata⟩
  | simulated hmode =>
    obtain ⟨-, hbase, -⟩ := hd
    simp [OnItsWay, hsubmissions, hbase, attempts, normalAttempts, hmode]
  | submitted | confirming =>
    rw [OnItsWay, hsubmissions]
    exact hd

theorem attempts_normal {fetched' : FetchedBatch} {answers : Answers} {id : BatchId}
    {s : Submission} (hmode : cfg.verificationMode = .onChain)
    (hs : s.Records d.files answers false (.ofFetched rt fetched' id)
      (hexText (formatProofForVerifier fetched'.proof cfg.verifierId)) cfg.verifierId)
    (hway : OnItsWay cfg fetched base d (.compressed fetched' id)) :
    attempts fetched.batchId ((d.submissions ++ [s]).drop base.length) =
      normalAttempts cfg fetched := by
  obtain ⟨rfl, hbase, hdata⟩ := hway
  have hfile : s.batch.dataFile = dataFileOf fetched'.batchId := by rw [hs.batch_eq]; rfl
  have hattempt : s.attempt = some ⟨cfg.verifierId,
      formatProofForVerifier fetched'.proof cfg.verifierId, fetched'.batchData⟩ := by
    have hread : s.data = some fetched'.batchData := hs.data_eq.trans hdata
    rw [Submission.attempt, hs.proofHex_eq, decodeHexText_hexText, hread, hs.verifierId_eq]
  rw [hbase, List.drop_left]
  simp [attempts, hfile, hattempt, normalAttempts, hmode]

theorem DaemonStep.onItsWay {event : DaemonEvent} (hstep : DaemonStep rt d event d')
    (hevent : event.isNormal = true)
    (h : d.Running fun cfg' activity => cfg' = cfg ∧ OnItsWay cfg fetched base d activity) :
    d'.Running fun cfg' activity => cfg' = cfg ∧ OnItsWay cfg fetched base d' activity := by
  cases step_effect hstep with
  | started hphase | refused hphase | stopped hphase | accepted hphase hinsert
  | fileWritten hphase | fileFailed hphase =>
    contradiction
  | panicked hphase hpanic => exact Daemon.running_of_stopped rfl
  | moved hphase hmove =>
    cases hmove with
    | queued | bumpSent hstate | bumpFailed hstate | skipped | fetchFailed => contradiction
  | updated hphase hwrite hw hupdate | notUpdated hphase hwrite hw hupdate =>
    obtain ⟨rfl, hway⟩ := h _ _ hphase
    exact Daemon.running_enter ⟨rfl, hupdate.onItsWay hway rfl rfl⟩
  | submitted hphase hsubmitStep hsubmit hresult
  | submitFailed hphase hsubmitStep hsubmit hresult =>
    obtain ⟨rfl, hway⟩ := h _ _ hphase
    cases hsubmitStep with
    | resuming => exact hway.elim
    | compressed hmode =>
      exact Daemon.running_enter ⟨rfl, attempts_normal hmode (submit_spec hsubmit).1 hway⟩
  | removed hphase | notRemoved hphase => exact Daemon.running_enter (h _ _ hphase)

/-- A batch that goes its way without a stop is submitted as it was fetched. -/
theorem attempts_of_normal_run {id : BatchId} {events : List DaemonEvent} {n : Daemon}
    (hphase : d.phase = .running cfg (.received fetched id))
    (hr : Run (DaemonStep rt) d (.writeFile .done :: events) n)
    (hevents : ∀ event ∈ events, event.isNormal = true) (hn : n.phase = .running cfg .polling) :
    attempts fetched.batchId (n.submissions.drop d.submissions.length) =
      normalAttempts cfg fetched := by
  obtain ⟨written, hwrite, hr⟩ := run_cons_iff.mp hr
  have hstart : written.Running fun cfg' activity =>
      cfg' = cfg ∧ OnItsWay cfg fetched d.submissions written activity := by
    have hwritten : written = (d.setFiles (Function.update d.files (dataFileOf fetched.batchId)
        (some fetched.batchData))).enter cfg (.written fetched id) := by
      simp only [DaemonStep, daemonStep, hphase, Daemon.advance, Option.some.injEq] at hwrite
      rw [← hwrite]
      rfl
    rw [hwritten]
    exact Daemon.running_enter ⟨rfl, rfl, rfl, Function.update_self _ _ _⟩
  have hend := hr.invariant (I := fun d' => d'.Running fun cfg' activity =>
      cfg' = cfg ∧ OnItsWay cfg fetched d.submissions d' activity)
    (fun _ _ _ h hevent hstep => hstep.onItsWay hevent h)
    (Along.of_forall fun event hevent _ => hevents event hevent) hstart
  exact (hend cfg .polling hn).2

end Normal

def DaemonEvent.isRecovery : DaemonEvent → Bool
  | .scan _ _ _ _ => true
  | .submit _ _ => true
  | .write _ => true
  | _ => false

def Activity.isRecovery : Activity → Bool
  | .scanning _ _ _ => true
  | .bumped _ _ _ _ => true
  | .resuming _ _ _ => true
  | .resumed _ _ _ _ => true
  | .resumedSubmitted _ _ => true
  | .polling => true
  | _ => false

theorem isRecovery_resume (queue : List (Batch × Text)) :
    (Activity.resume queue).isRecovery = true := by
  cases queue <;> rfl

theorem isRecovery_scan (records : List BatchSagaRecord) (queue : List (Batch × Text)) :
    (Activity.scan records queue).isRecovery = true := by
  cases records with
  | nil => exact isRecovery_resume queue
  | cons record rest => rfl

/-- The submissions of a pass that started from `s`: for verifier 0, with the contents that
the data file had then. -/
def Submission.Resumes (s : Daemon) (submission : Submission) : Prop :=
  submission.verifierId = 0 ∧ ∀ batchId, submission.batch.dataFile = dataFileOf batchId →
    submission.data = s.files (dataFileOf batchId)

/-- The pass that started from `s` has submitted a part of `queue` and goes on with the rest. -/
structure InPass (rt : Runtime) (s : Daemon) (queue : List (Batch × Text)) (files : Files)
    (submissions : List Submission) (activity : Activity) : Prop where
  recovery : activity.isRecovery = true
  dataFiles : ∀ batchId, files (dataFileOf batchId) = s.files (dataFileOf batchId)
  progress : ∃ done, submissions = s.submissions ++ done ∧
    done.map (fun e => (e.batch, e.proofHex)) ++ activity.queue rt = queue ∧
    ∀ e ∈ done, e.Resumes s

section Pass

variable {rt : Runtime} {s d d' : Daemon} {cfg : Config} {queue : List (Batch × Text)}
  {files files' : Files} {submissions : List Submission} {activity activity' : Activity}

theorem MoveStep.isRecovery {event : DaemonEvent} (h : MoveStep rt activity event activity') :
    activity'.isRecovery = true := by
  cases h with
  | queued | bumpFailed hstate => exact isRecovery_scan _ _
  | bumpSent hstate | skipped | fetchFailed => rfl

theorem UpdateStep.isRecovery {f : SagaOutbox → SagaOutbox}
    (h : UpdateStep cfg activity f activity') (hrecovery : activity.isRecovery = true) :
    activity'.isRecovery = true := by
  cases h with
  | gaveUp hstate | bumped => exact isRecovery_scan _ _
  | resumed => rfl
  | resumedSubmitted => exact isRecovery_resume _
  | written | simulated hmode | submitted | confirming => contradiction

theorem InPass.enter (h : InPass rt s queue files submissions activity)
    (hrecovery : activity'.isRecovery = true) (hqueue : activity'.queue rt = activity.queue rt) :
    InPass rt s queue files submissions activity' :=
  ⟨hrecovery, h.dataFiles, hqueue ▸ h.progress⟩

theorem InPass.submitted {batch : Batch} {proofHex : Text} {rest : List (Batch × Text)}
    {answers : Answers} {submission : Submission}
    (h : InPass rt s queue files submissions (.resuming batch proofHex rest))
    (hrecords : submission.Records files answers true batch proofHex 0)
    (hfiles : ∀ batchId, files' (dataFileOf batchId) = files (dataFileOf batchId))
    (hrecovery : activity'.isRecovery = true) (hqueue : activity'.queue rt = rest) :
    InPass rt s queue files' (submissions ++ [submission]) activity' := by
  obtain ⟨done, hdone, hrest, hresumes⟩ := h.progress
  refine ⟨hrecovery, fun batchId => (hfiles batchId).trans (h.dataFiles batchId),
    done ++ [submission], ?_, ?_, ?_⟩
  · rw [hdone, List.append_assoc]
  · rw [← hrest, hqueue, List.map_append, List.append_assoc, List.map_singleton,
      hrecords.batch_eq, hrecords.proofHex_eq]
    rfl
  · intro e he
    rcases List.mem_append.mp he with hold | hnew
    · exact hresumes e hold
    · rw [List.mem_singleton.mp hnew]
      refine ⟨hrecords.verifierId_eq, fun batchId hfile => ?_⟩
      rw [hrecords.batch_eq] at hfile
      rw [hrecords.data_eq, hfile]
      exact h.dataFiles batchId

theorem DaemonStep.inPass {event : DaemonEvent} (hstep : DaemonStep rt d event d')
    (hevent : event.isRecovery = true)
    (h : d.Running fun _ => InPass rt s queue d.files d.submissions) :
    d'.Running fun _ => InPass rt s queue d'.files d'.submissions := by
  cases step_effect hstep with
  | started hphase | refused hphase | stopped hphase | accepted hphase hinsert
  | fileWritten hphase | fileFailed hphase | removed hphase | notRemoved hphase =>
    contradiction
  | panicked hphase hpanic => exact Daemon.running_of_stopped rfl
  | moved hphase hmove =>
    exact Daemon.running_enter ((h _ _ hphase).enter hmove.isRecovery hmove.queue_eq.1)
  | updated hphase hwrite hw hupdate | notUpdated hphase hwrite hw hupdate =>
    have hpass := h _ _ hphase
    exact Daemon.running_enter
      (hpass.enter (hupdate.isRecovery hpass.recovery) hupdate.queue_eq.1)
  | submitted hphase hsubmitStep hsubmit hresult =>
    have hpass := h _ _ hphase
    obtain ⟨hrecords, hfiles⟩ := submit_spec hsubmit
    cases hsubmitStep with
    | resuming => exact Daemon.running_enter (hpass.submitted hrecords hfiles rfl rfl)
    | compressed hmode => exact absurd hpass.recovery (by simp [Activity.isRecovery])
  | submitFailed hphase hsubmitStep hsubmit hresult =>
    have hpass := h _ _ hphase
    obtain ⟨hrecords, hfiles⟩ := submit_spec hsubmit
    cases hsubmitStep with
    | resuming =>
      exact Daemon.running_enter
        (hpass.submitted hrecords hfiles (isRecovery_resume _) (queue_resume rt _))
    | compressed hmode => exact absurd hpass.recovery (by simp [Activity.isRecovery])

/-- A pass that comes to its end has submitted every row that can be read back. -/
theorem submissions_of_pass {events : List DaemonEvent} {t : Daemon}
    (hr : Run (DaemonStep rt) s (.start cfg true :: events) t) (hs : s.phase = .stopped)
    (hevents : ∀ event ∈ events, event.isRecovery = true) (ht : t.phase = .running cfg .polling) :
    ∃ done, t.submissions = s.submissions ++ done ∧
      done.map (fun e => (e.batch, e.proofHex)) =
        s.outbox.getUnconfirmedBatches.filterMap (BatchSagaRecord.toResume rt) ∧
      ∀ e ∈ done, e.Resumes s := by
  obtain ⟨first, hstart, hr⟩ := run_cons_iff.mp hr
  have hfirst : first.Running fun _ => InPass rt s
      (s.outbox.getUnconfirmedBatches.filterMap (BatchSagaRecord.toResume rt)) first.files
      first.submissions := by
    have hbegin : InPass rt s
        (s.outbox.getUnconfirmedBatches.filterMap (BatchSagaRecord.toResume rt)) s.files
        s.submissions (.scan s.outbox.getUnconfirmedBatches []) :=
      ⟨isRecovery_scan _ _, fun _ => rfl, [], by simp, by simp, by simp⟩
    have hidle : ∀ cfg activity, s.phase ≠ .running cfg activity := by simp [hs]
    cases step_effect hstart with
    | started hphase => exact Daemon.running_enter hbegin
    | refused hphase => exact Daemon.running_of_stopped hphase
    | panicked hphase hpanic | moved hphase hmove | updated hphase hwrite hw hupdate
    | notUpdated hphase hwrite hw hupdate =>
      exact absurd hphase (hidle _ _)
  have hend := hr.invariant (I := fun d => d.Running fun _ => InPass rt s
      (s.outbox.getUnconfirmedBatches.filterMap (BatchSagaRecord.toResume rt)) d.files
      d.submissions) (fun _ _ _ h hevent hstep => hstep.inPass hevent h)
    (Along.of_forall fun event hevent _ => hevents event hevent) hfirst
  obtain ⟨done, hdone, hqueue, hresumes⟩ := (hend cfg .polling ht).progress
  exact ⟨done, hdone, by simpa [Activity.queue] using hqueue, hresumes⟩

/-- The pass submits a row that can be read back once, for verifier 0, with the proof that is
in the row and the contents of the data file. -/
theorem attempts_of_pass {events : List DaemonEvent} {t : Daemon} {row : BatchSagaRecord}
    {batch : Batch} {batchId : Text} {proof : List UInt8}
    (hr : Run (DaemonStep rt) s (.start cfg true :: events) t) (hs : s.phase = .stopped)
    (hevents : ∀ event ∈ events, event.isRecovery = true) (ht : t.phase = .running cfg .polling)
    (hrestores : s.outbox.Restores rt) (hrow : row ∈ s.outbox.rows)
    (hresume : row.toResume rt = some (batch, hexText proof))
    (hfile : batch.dataFile = dataFileOf batchId) :
    attempts batchId (t.submissions.drop s.submissions.length) =
      ((s.files (dataFileOf batchId)).map fun data => ⟨0, proof, data⟩).toList := by
  obtain ⟨done, hdone, hqueue, hresumes⟩ := submissions_of_pass hr hs hevents ht
  rw [hdone, List.drop_left]
  have hnodup : (done.map fun e => e.batch.dataFile).Nodup := by
    have hfiles := (nodup_getUnconfirmedBatches s.outbox).sublist
      (toResume_dataFiles hrestores fun _ => mem_getUnconfirmedBatches)
    rw [← hqueue, List.map_map] at hfiles
    exact hfiles
  have hmem : (batch, hexText proof) ∈
      s.outbox.getUnconfirmedBatches.filterMap (BatchSagaRecord.toResume rt) :=
    List.mem_filterMap.mpr ⟨row,
      mem_getUnconfirmedBatches_of_pending hrow (toResume_eq_some hresume).1, hresume⟩
  rw [← hqueue] at hmem
  obtain ⟨e, he, hpair⟩ := List.mem_map.mp hmem
  obtain ⟨hbatch, hproof⟩ := Prod.mk.inj hpair
  have hefile : e.batch.dataFile = dataFileOf batchId := hbatch ▸ hfile
  obtain ⟨hverifier, hdata⟩ := hresumes e he
  have hfilter : done.filter (fun x => x.batch.dataFile = dataFileOf batchId) = [e] := by
    rw [← hefile]
    exact KeyedTable.filter_key ⟨done, hnodup⟩ he
  have hattempt : e.attempt = (s.files (dataFileOf batchId)).map fun data => ⟨0, proof, data⟩ := by
    rw [Submission.attempt, hproof, decodeHexText_hexText, hdata batchId hefile, hverifier]
    cases s.files (dataFileOf batchId) <;> rfl
  rw [attempts, hfilter, ← hattempt]
  cases hsome : e.attempt <;> simp [hsome]

end Pass

/-- With verification on chain, the verifier is number 0, the proof has the length that
verifier takes, and the data file is complete. Otherwise there is no data file. -/
def Agrees (cfg : Config) (fetched : FetchedBatch) (stored : Option (List UInt8)) : Prop :=
  match cfg.verificationMode with
  | .onChain =>
    cfg.verifierId = 0 ∧ fetched.proof.length = 256 ∧ stored = some fetched.batchData
  | .offChainOnly => stored = none

theorem resumed_eq_normalAttempts_iff (cfg : Config) (fetched : FetchedBatch)
    (stored : Option (List UInt8)) :
    (stored.map fun data => (⟨0, fetched.proof, data⟩ : Attempt)).toList =
      normalAttempts cfg fetched ↔ Agrees cfg fetched stored := by
  unfold normalAttempts Agrees
  cases cfg.verificationMode with
  | offChainOnly => cases stored <;> simp
  | onChain =>
    cases stored with
    | none => simp
    | some data =>
      simp only [Option.map_some, Option.toList_some, List.cons.injEq, and_true,
        Attempt.mk.injEq, Option.some.injEq]
      constructor
      · rintro ⟨hverifier, hproof, hdata⟩
        rw [← hverifier] at hproof ⊢
        exact ⟨rfl, (formatProofForVerifier_zero_eq_iff _).mp hproof.symm, hdata⟩
      · rintro ⟨hverifier, hlength, hdata⟩
        rw [hverifier]
        exact ⟨rfl, ((formatProofForVerifier_zero_eq_iff _).mpr hlength).symm, hdata⟩

theorem payload_of_accepted {rt : Runtime} {cfg : Config} {fetched : FetchedBatch} {id : BatchId}
    {looked : Bool} {w : OutboxWrite} {s accepted : Daemon}
    (hdeliver : DaemonStep rt s (.deliver fetched id looked w) accepted)
    (haccepted : accepted.phase = .running cfg (.received fetched id)) :
    (fetched.batchId, some (rt.batchToString (.ofFetched rt fetched id)),
      some (hexText fetched.proof)) ∈ accepted.outbox.rows.map BatchSagaRecord.payload := by
  cases step_effect hdeliver with
  | panicked hphase hpanic | updated hphase hwrite hw hupdate
  | notUpdated hphase hwrite hw hupdate =>
    contradiction
  | moved hphase hmove =>
    cases hmove with
    | skipped => cases haccepted
  | accepted hphase hinsert =>
    obtain ⟨-, row, hrows, hpayload, -⟩ := insertOrIgnore_rows hinsert
    rw [Daemon.enter, Daemon.setOutbox, hrows, List.map_append, List.map_singleton, hpayload]
    exact List.mem_append_right _ (List.mem_singleton.mpr rfl)

/-- A daemon accepts a batch. In one run the batch goes its way, in another the process stops,
at whatever point and in whatever way, while the row is in one of the first two states, and
the next process comes to the end of its recovery pass. The two submit the same just when
`Agrees` holds of the data file that was left. -/
theorem recovery_eq_normal_iff (rt : Runtime) (cfg : Config) (fetched : FetchedBatch) (id : BatchId)
    (looked : Bool) (w : OutboxWrite) (history before normal pass : List DaemonEvent)
    (s accepted n stopped t : Daemon) (row : BatchSagaRecord)
    (hhistory : Run (DaemonStep rt) .initial history s)
    (hdeliver : DaemonStep rt s (.deliver fetched id looked w) accepted)
    (haccepted : accepted.phase = .running cfg (.received fetched id))
    (hnormal : Run (DaemonStep rt) accepted (.writeFile .done :: normal) n)
    (hnormalEvents : ∀ event ∈ normal, event.isNormal = true)
    (hn : n.phase = .running cfg .polling)
    (hbefore : Run (DaemonStep rt) accepted before stopped) (hstopped : stopped.phase = .stopped)
    (hrow : row ∈ stopped.outbox.rows) (hid : row.batchId = fetched.batchId)
    (hpending : row.isPending = true)
    (hpass : Run (DaemonStep rt) stopped (.start cfg true :: pass) t)
    (hpassEvents : ∀ event ∈ pass, event.isRecovery = true)
    (ht : t.phase = .running cfg .polling)
    (htrips : ∀ event ∈ history ++ .deliver fetched id looked w :: before, event.RoundTrips rt) :
    attempts fetched.batchId (t.submissions.drop stopped.submissions.length) =
        attempts fetched.batchId (n.submissions.drop accepted.submissions.length) ↔
      Agrees cfg fetched (stopped.files (dataFileOf fetched.batchId)) := by
  have hrestores : stopped.outbox.Restores rt := by
    have hrun : Run (DaemonStep rt) .initial
        (history ++ .deliver fetched id looked w :: before) stopped :=
      run_append_iff.mpr ⟨s, hhistory, .cons hdeliver hbefore⟩
    exact hrun.invariant (I := fun d => d.outbox.Restores rt)
      (fun _ _ _ h htrip hstep => (step_effect hstep).restores htrip h)
      (Along.of_forall fun event hevent _ => htrips event hevent) (restores_initial rt)
  have hpayload : row.payload = (fetched.batchId,
      some (rt.batchToString (.ofFetched rt fetched id)), some (hexText fetched.proof)) := by
    have hkept : (fetched.batchId, some (rt.batchToString (.ofFetched rt fetched id)),
        some (hexText fetched.proof)) ∈ stopped.outbox.rows.map BatchSagaRecord.payload :=
      hbefore.invariant_of_step (I := fun d => _ ∈ d.outbox.rows.map BatchSagaRecord.payload)
        (fun _ _ _ h hstep => (step_effect hstep).payloads h)
        (payload_of_accepted hdeliver haccepted)
    obtain ⟨row', hrow', hpayload'⟩ := List.mem_map.mp hkept
    have hsame : row = row' := stopped.outbox.eq_of_key_eq hrow hrow'
      (hid.trans (congrArg Prod.fst hpayload').symm)
    rw [hsame, hpayload']
  have htrip : rt.batchFromStr (rt.batchToString (.ofFetched rt fetched id)) =
      some (.ofFetched rt fetched id) :=
    htrips (.deliver fetched id looked w) (List.mem_append_right _ List.mem_cons_self)
  rw [attempts_of_normal_run haccepted hnormal hnormalEvents hn,
    attempts_of_pass hpass hstopped hpassEvents ht hrestores hrow
      (toResume_of_pending hpending hpayload htrip) rfl]
  exact resumed_eq_normalAttempts_iff cfg fetched _

def groth16Batch : FetchedBatch :=
  fetchedBatch ['b', '1'] 2 (List.replicate 256 7)

def groth16Runtime : Runtime :=
  localRuntime [.ofFetched (localRuntime []) groth16Batch (freshId 1)]

def normalWay : List DaemonEvent :=
  [.write (writeAt 1005), minedWith 1 0xa1, .write (writeAt 1010), .write (writeAt 1020),
    .removeFile true]

def stoppedCompressed : List DaemonEvent :=
  [.writeFile .done, .write (writeAt 1005), .stop]

def passOverOne : List DaemonEvent :=
  [.scan 3000 none (.error "") (writeAt 3000), minedWith 1 0xa2, .write (writeAt 3010),
    .write (writeAt 3020)]

theorem recovery_eq_normal_groth16 :
    ∃ accepted n stopped t,
      Run (DaemonStep groth16Runtime) accepted (.writeFile .done :: normalWay) n ∧
      Run (DaemonStep groth16Runtime) accepted stoppedCompressed stopped ∧
      Run (DaemonStep groth16Runtime) stopped (.start calldataConfig true :: passOverOne) t ∧
      attempts ['b', '1'] (t.submissions.drop stopped.submissions.length) =
        attempts ['b', '1'] (n.submissions.drop accepted.submissions.length) := by
  obtain ⟨s, accepted, hs, hdeliver, h⟩ := exists_step_of_foldlM (daemonStep groth16Runtime)
    .initial [.start calldataConfig true] (.deliver groth16Batch (freshId 1) true (writeAt 1000))
    (fun _ accepted =>
      (decide (accepted.phase = .running calldataConfig (.received groth16Batch (freshId 1))),
        ((DaemonEvent.writeFile .done :: normalWay).foldlM (daemonStep groth16Runtime) accepted).map
          fun n : Daemon => decide (n.phase = .running calldataConfig .polling),
        (stoppedCompressed.foldlM (daemonStep groth16Runtime) accepted).bind fun stopped =>
          ((DaemonEvent.start calldataConfig true :: passOverOne).foldlM (daemonStep groth16Runtime)
            stopped).map fun t : Daemon => decide (stopped.phase = .stopped ∧
              stopped.files (dataFileOf ['b', '1']) = some [91, 93] ∧
              (∃ row ∈ stopped.outbox.rows, row.batchId = ['b', '1'] ∧ row.isPending = true) ∧
              t.phase = .running calldataConfig .polling)))
    (b := (true, some true, some true)) (by decide +kernel)
  obtain ⟨haccepted, h⟩ := Prod.mk.inj h
  obtain ⟨hnormal, hstop⟩ := Prod.mk.inj h
  obtain ⟨n, hn, hpolling⟩ := exists_run_of_foldlM _ accepted _ _ hnormal
  obtain ⟨stopped, t, hbefore, hpass, h⟩ := exists_runs_of_foldlM _ accepted _ _ _ hstop
  obtain ⟨hstopped, hfile, ⟨row, hrow, hid, hpending⟩, ht⟩ := of_decide_eq_true h
  have hagree := (recovery_eq_normal_iff groth16Runtime calldataConfig groth16Batch (freshId 1) true
    (writeAt 1000) [.start calldataConfig true] stoppedCompressed normalWay passOverOne s accepted n
    stopped t row hs hdeliver (of_decide_eq_true haccepted) hn (by decide)
    (of_decide_eq_true hpolling) hbefore hstopped hrow hid hpending hpass (by decide) ht
    (by decide +kernel)).mpr ⟨rfl, List.length_replicate, hfile⟩
  exact ⟨accepted, n, stopped, t, hn, hbefore, hpass, hagree⟩

def plonky2Config : Config :=
  { calldataConfig with proof := some ⟨some .plonky2, none, none⟩ }

/-- With another verifier than number 0 the recovery pass submits for the wrong one. -/
theorem recovery_ne_normal_plonky2 :
    ∃ accepted n stopped t,
      Run (DaemonStep groth16Runtime) .initial
        [.start plonky2Config true, .deliver groth16Batch (freshId 1) true (writeAt 1000)]
        accepted ∧
      Run (DaemonStep groth16Runtime) accepted (.writeFile .done :: normalWay) n ∧
      Run (DaemonStep groth16Runtime) accepted stoppedCompressed stopped ∧
      Run (DaemonStep groth16Runtime) stopped (.start plonky2Config true :: passOverOne) t ∧
      attempts ['b', '1'] (n.submissions.drop accepted.submissions.length) =
        [⟨1, List.replicate 256 7, [91, 93]⟩] ∧
      attempts ['b', '1'] (t.submissions.drop stopped.submissions.length) =
        [⟨0, List.replicate 256 7, [91, 93]⟩] := by
  obtain ⟨accepted, hr, h⟩ := exists_run_of_foldlM (daemonStep groth16Runtime) .initial
    [.start plonky2Config true, .deliver groth16Batch (freshId 1) true (writeAt 1000)]
    (fun accepted =>
      (((DaemonEvent.writeFile .done :: normalWay).foldlM (daemonStep groth16Runtime) accepted).map
          fun n : Daemon =>
            attempts ['b', '1'] (n.submissions.drop accepted.submissions.length),
        (stoppedCompressed.foldlM (daemonStep groth16Runtime) accepted).bind fun stopped =>
          ((DaemonEvent.start plonky2Config true :: passOverOne).foldlM (daemonStep groth16Runtime)
            stopped).map fun t : Daemon =>
              attempts ['b', '1'] (t.submissions.drop stopped.submissions.length)))
    (b := (some [⟨1, List.replicate 256 7, [91, 93]⟩], some [⟨0, List.replicate 256 7, [91, 93]⟩]))
    (by decide +kernel)
  obtain ⟨hnormal, hstop⟩ := Prod.mk.inj h
  obtain ⟨n, hn, hattempts⟩ := exists_run_of_foldlM _ accepted _ _ hnormal
  obtain ⟨stopped, t, hbefore, hpass, hresumed⟩ := exists_runs_of_foldlM _ accepted _ _ _ hstop
  exact ⟨accepted, n, stopped, t, hr, hn, hbefore, hpass, hattempts, hresumed⟩

end RollupX.Submitter
