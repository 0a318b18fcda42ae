import RollupX.Verification.Submitter.Steps

/-! Where the submissions of the daemon come from. -/

namespace RollupX.Submitter

open Machine

/-- The batch that was accepted under an executor's id, with its fresh id. The daemon keeps no
such table. -/
abbrev Owners := Text → Option (FetchedBatch × BatchId)

def Activity.current : Activity → Option (FetchedBatch × BatchId)
  | .received fetched id => some (fetched, id)
  | .written fetched id => some (fetched, id)
  | .compressed fetched id => some (fetched, id)
  | _ => none

@[simp] theorem current_resume (queue : List (Batch × Text)) :
    (Activity.resume queue).current = none := by
  cases queue <;> rfl

@[simp] theorem current_scan (records : List BatchSagaRecord) (queue : List (Batch × Text)) :
    (Activity.scan records queue).current = none := by
  cases records with
  | nil => exact current_resume queue
  | cons record rest => rfl

/-- The batch of the outbox or of a submission that an accepted batch was made into. -/
def Owners.Made (rt : Runtime) (owner : Owners) (batch : Batch) : Prop :=
  ∃ fetched id, owner fetched.batchId = some (fetched, id) ∧ batch = .ofFetched rt fetched id

/-- A call of `submit` for an accepted batch. If the files are written in full, its data is
that of the batch, if there is any. -/
def Owners.Submitted (rt : Runtime) (cfg : Config) (full : Prop) (owner : Owners)
    (s : Submission) : Prop :=
  ∃ fetched id, owner fetched.batchId = some (fetched, id) ∧ s.batch = .ofFetched rt fetched id ∧
    (full → ∀ data ∈ s.data, data = fetched.batchData) ∧
    ∃ files answers files',
      cfg.submit rt files answers s.recovered s.batch s.proofHex s.verifierId = some (files', s)

/-- Everything that the daemon keeps belongs to a batch that was accepted. -/
structure Provenance (rt : Runtime) (cfg : Config) (delivered : FetchedBatch → BatchId → Prop)
    (full : Prop) (owner : Owners) (d : Daemon) : Prop where
  delivered : ∀ batchId fetched id, owner batchId = some (fetched, id) →
    delivered fetched id ∧ fetched.batchId = batchId
  known : ∀ batchId entry, owner batchId = some entry →
    ∃ row ∈ d.outbox.rows, row.batchId = batchId
  rows : ∀ columns ∈ d.outbox.rows.map BatchSagaRecord.payload, ∃ fetched id,
    owner columns.1 = some (fetched, id) ∧
      columns.2.1 = some (rt.batchToString (.ofFetched rt fetched id))
  files : full → ∀ batchId data, d.files (dataFileOf batchId) = some data →
    ∃ fetched id, owner batchId = some (fetched, id) ∧ data = fetched.batchData
  running : d.Running fun cfg' activity => cfg' = cfg ∧
    (∀ entry ∈ activity.queue rt, owner.Made rt entry.1) ∧
    ∀ fetched id, activity.current = some (fetched, id) →
      owner fetched.batchId = some (fetched, id)
  submissions : ∀ s ∈ d.submissions, owner.Submitted rt cfg full s

/-- The events of a run in which only these batches are delivered and all processes have the
same configuration. -/
def DaemonEvent.Allowed (cfg : Config) (delivered : FetchedBatch → BatchId → Prop)
    (full : Prop) : DaemonEvent → Prop
  | .start cfg' _ => cfg' = cfg
  | .deliver fetched id _ _ => delivered fetched id
  | .writeFile outcome => full → outcome = .done
  | _ => True

section Step

variable {rt : Runtime} {cfg : Config} {delivered : FetchedBatch → BatchId → Prop} {full : Prop}
  {owner : Owners} {d d' : Daemon} {activity activity' : Activity}

theorem MoveStep.current_eq {event : DaemonEvent} (h : MoveStep rt activity event activity') :
    activity'.current = activity.current := by
  cases h with
  | queued | bumpFailed hstate => exact current_scan _ _
  | bumpSent hstate | skipped | fetchFailed => rfl

theorem UpdateStep.current_eq {f : SagaOutbox → SagaOutbox}
    (h : UpdateStep cfg activity f activity') :
    activity'.current = none ∨ activity'.current = activity.current := by
  cases h with
  | gaveUp hstate | bumped => exact .inl (current_scan _ _)
  | resumed | simulated hmode | submitted | confirming => exact .inl rfl
  | resumedSubmitted => exact .inl (current_resume _)
  | written => exact .inr rfl

theorem SubmitStep.queue_subset {tx : Option L1Transaction} {recovered : Bool} {batch : Batch}
    {proofHex : Text} {verifierId : UInt8} {onOk : SubmissionResult → Activity}
    {onError : Activity}
    (h : SubmitStep rt cfg tx activity recovered batch proofHex verifierId onOk onError) :
    (∀ result, (onOk result).queue rt ⊆ activity.queue rt) ∧
      onError.queue rt ⊆ activity.queue rt := by
  cases h with
  | resuming =>
    rw [queue_resume]
    exact ⟨fun _ => List.subset_cons_self _ _, List.subset_cons_self _ _⟩
  | compressed hmode => exact ⟨fun _ => List.Subset.refl _, List.Subset.refl _⟩

theorem SubmitStep.current_eq {tx : Option L1Transaction} {recovered : Bool} {batch : Batch}
    {proofHex : Text} {verifierId : UInt8} {onOk : SubmissionResult → Activity}
    {onError : Activity}
    (h : SubmitStep rt cfg tx activity recovered batch proofHex verifierId onOk onError) :
    (∀ result, (onOk result).current = none) ∧ onError.current = none := by
  cases h with
  | resuming => exact ⟨fun _ => rfl, current_resume _⟩
  | compressed hmode => exact ⟨fun _ => rfl, rfl⟩

namespace Provenance

theorem initial : Provenance rt cfg delivered full (fun _ => none) .initial where
  delivered := nofun
  known := nofun
  rows := fun _ hcolumns => absurd hcolumns List.not_mem_nil
  files := nofun
  running := Daemon.running_of_stopped rfl
  submissions := fun _ hs => absurd hs List.not_mem_nil

theorem halt (h : Provenance rt cfg delivered full owner d) :
    Provenance rt cfg delivered full owner d.halt :=
  ⟨h.delivered, h.known, h.rows, h.files, Daemon.running_of_stopped rfl, h.submissions⟩

theorem enter (h : Provenance rt cfg delivered full owner d)
    (hphase : d.phase = .running cfg activity)
    (hqueue : activity'.queue rt ⊆ activity.queue rt)
    (hcurrent : activity'.current = none ∨ activity'.current = activity.current) :
    Provenance rt cfg delivered full owner (d.enter cfg activity') := by
  obtain ⟨-, hmade, howner⟩ := h.running cfg activity hphase
  refine ⟨h.delivered, h.known, h.rows, h.files, Daemon.running_enter ⟨rfl, ?_, ?_⟩,
    h.submissions⟩
  · intro entry hentry
    exact hmade entry (hqueue hentry)
  · intro fetched id hsome
    rcases hcurrent with hnone | hsame
    · rw [hnone] at hsome
      contradiction
    · exact howner fetched id (hsame ▸ hsome)

theorem setOutbox {outbox : SagaOutbox} (h : Provenance rt cfg delivered full owner d)
    (hpayloads : outbox.rows.map BatchSagaRecord.payload =
      d.outbox.rows.map BatchSagaRecord.payload) :
    Provenance rt cfg delivered full owner (d.setOutbox outbox) := by
  refine ⟨h.delivered, fun batchId entry howner => ?_, ?_, h.files, h.running, h.submissions⟩
  · obtain ⟨row, hrow, hid⟩ := h.known batchId entry howner
    have hmem : row.payload ∈ outbox.rows.map BatchSagaRecord.payload :=
      hpayloads ▸ List.mem_map_of_mem hrow
    obtain ⟨row', hrow', hpayload⟩ := List.mem_map.mp hmem
    exact ⟨row', hrow', (congrArg Prod.fst hpayload).trans hid⟩
  · intro columns hcolumns
    rw [Daemon.setOutbox, hpayloads] at hcolumns
    exact h.rows columns hcolumns

theorem setFile (h : Provenance rt cfg delivered full owner d) {batchId : Text}
    {contents : Option (List UInt8)}
    (hcontents : full → ∀ data, contents = some data →
      ∃ fetched id, owner batchId = some (fetched, id) ∧ data = fetched.batchData) :
    Provenance rt cfg delivered full owner
      (d.setFiles (Function.update d.files (dataFileOf batchId) contents)) := by
  refine ⟨h.delivered, h.known, h.rows, fun hfull batchId' data hdata => ?_, h.running,
    h.submissions⟩
  change Function.update d.files (dataFileOf batchId) contents (dataFileOf batchId') =
    some data at hdata
  by_cases hsame : batchId' = batchId
  · rw [hsame, Function.update_self] at hdata
    exact hsame ▸ hcontents hfull data hdata
  · rw [Function.update_of_ne fun hfile => hsame (dataFileOf_injective hfile)] at hdata
    exact h.files hfull batchId' data hdata

/-- A row in the outbox gives back the batch that it was made for. -/
theorem made_of_toResume (h : Provenance rt cfg delivered full owner d)
    (htrips : ∀ fetched id, delivered fetched id →
      rt.batchFromStr (rt.batchToString (.ofFetched rt fetched id)) =
        some (.ofFetched rt fetched id))
    {row : BatchSagaRecord} (hrow : row ∈ d.outbox.rows) {entry : Batch × Text}
    (hresume : row.toResume rt = some entry) : owner.Made rt entry.1 := by
  obtain ⟨fetched, id, howner, htext⟩ := h.rows row.payload (List.mem_map_of_mem hrow)
  obtain ⟨hdelivered, hid⟩ := h.delivered _ fetched id howner
  have hread := (toResume_eq_some hresume).2.1
  have hbatch : rt.batchFromStr (rt.batchToString (.ofFetched rt fetched id)) = some entry.1 := by
    have : row.batchData = some (rt.batchToString (.ofFetched rt fetched id)) := htext
    rwa [this] at hread
  rw [htrips fetched id hdelivered] at hbatch
  exact ⟨fetched, id, hid ▸ howner, (Option.some.inj hbatch).symm⟩

theorem started (h : Provenance rt cfg delivered full owner d)
    (htrips : ∀ fetched id, delivered fetched id →
      rt.batchFromStr (rt.batchToString (.ofFetched rt fetched id)) =
        some (.ofFetched rt fetched id)) (queried : Bool) :
    Provenance rt cfg delivered full owner
      (d.enter cfg (.scan (if queried then d.outbox.getUnconfirmedBatches else []) [])) := by
  refine ⟨h.delivered, h.known, h.rows, h.files, Daemon.running_enter ⟨rfl, ?_, ?_⟩,
    h.submissions⟩
  · intro entry hentry
    rw [queue_scan, List.nil_append] at hentry
    obtain ⟨row, hrow, hresume⟩ := List.mem_filterMap.mp hentry
    cases queried with
    | false => exact absurd hrow List.not_mem_nil
    | true => exact h.made_of_toResume htrips (mem_getUnconfirmedBatches hrow) hresume
  · intro fetched id hsome
    rw [current_scan] at hsome
    contradiction

theorem made_of_submitStep (h : Provenance rt cfg delivered full owner d)
    (hphase : d.phase = .running cfg activity) {tx : Option L1Transaction} {recovered : Bool}
    {batch : Batch} {proofHex : Text} {verifierId : UInt8}
    {onOk : SubmissionResult → Activity} {onError : Activity}
    (hstep : SubmitStep rt cfg tx activity recovered batch proofHex verifierId onOk onError) :
    owner.Made rt batch := by
  obtain ⟨-, hmade, howner⟩ := h.running cfg activity hphase
  cases hstep with
  | resuming => exact hmade _ List.mem_cons_self
  | @compressed fetched id hmode => exact ⟨fetched, id, howner fetched id rfl, rfl⟩

theorem record (h : Provenance rt cfg delivered full owner d) {batch : Batch}
    (hmade : owner.Made rt batch) {answers : Answers} {recovered : Bool} {proofHex : Text}
    {verifierId : UInt8} {files : Files} {submission : Submission}
    (hsubmit : cfg.submit rt d.files answers recovered batch proofHex verifierId =
      some (files, submission)) :
    Provenance rt cfg delivered full owner (d.record files submission) := by
  obtain ⟨hrecords, hfiles⟩ := submit_spec hsubmit
  refine ⟨h.delivered, h.known, h.rows, fun hfull batchId data hdata => ?_, h.running, ?_⟩
  · exact h.files hfull batchId data ((hfiles batchId).symm.trans hdata)
  · intro s hs
    rcases List.mem_append.mp hs with hold | hnew
    · exact h.submissions s hold
    · rw [List.mem_singleton.mp hnew]
      obtain ⟨fetched, id, howner, rfl⟩ := hmade
      refine ⟨fetched, id, howner, hrecords.batch_eq, ?_, d.files, answers, files, ?_⟩
      · intro hfull data hdata
        obtain ⟨owned, id', howned, hsame⟩ :=
          h.files hfull fetched.batchId data (hrecords.data_eq.symm.trans hdata)
        rw [howner, Option.some.injEq, Prod.mk.injEq] at howned
        rw [hsame, howned.1]
      · rw [hrecords.recovered_eq, hrecords.batch_eq, hrecords.proofHex_eq,
          hrecords.verifierId_eq]
        exact hsubmit

/-- Nothing is kept for a batch that is not in the outbox yet. -/
theorem accepted (h : Provenance rt cfg delivered full owner d) {fetched : FetchedBatch}
    {id : BatchId} (hdelivered : delivered fetched id) {now : ℤ} {proofHex : Text}
    {outbox : SagaOutbox}
    (hinsert : d.outbox.insertOrIgnore now fetched.batchId
      (rt.batchToString (.ofFetched rt fetched id)) proofHex = (true, outbox)) :
    Provenance rt cfg delivered full (Function.update owner fetched.batchId (some (fetched, id)))
      ((d.setOutbox outbox).enter cfg (.received fetched id)) := by
  obtain ⟨hnew, row, hrows, hpayload, -⟩ := insertOrIgnore_rows hinsert
  have hnone : owner fetched.batchId = none := by
    cases hsome : owner fetched.batchId with
    | none => rfl
    | some entry =>
      obtain ⟨old, hold, hid⟩ := h.known _ entry hsome
      exact absurd hid (hnew old hold)
  have hkeeps : ∀ batchId entry, owner batchId = some entry →
      Function.update owner fetched.batchId (some (fetched, id)) batchId = some entry := by
    intro batchId entry hsome
    rw [Function.update_of_ne]
    · exact hsome
    · rintro rfl
      rw [hnone] at hsome
      contradiction
  have hself := Function.update_self fetched.batchId (some (fetched, id)) owner
  refine ⟨?_, ?_, ?_, ?_, Daemon.running_enter ⟨rfl, ?_, ?_⟩, ?_⟩
  · intro batchId fetched' id' howner
    by_cases hsame : batchId = fetched.batchId
    · rw [hsame, hself, Option.some.injEq, Prod.mk.injEq] at howner
      obtain ⟨rfl, rfl⟩ := howner
      exact ⟨hdelivered, hsame.symm⟩
    · rw [Function.update_of_ne hsame] at howner
      exact h.delivered batchId fetched' id' howner
  · intro batchId entry howner
    change ∃ r ∈ outbox.rows, r.batchId = batchId
    by_cases hsame : batchId = fetched.batchId
    · refine ⟨row, by simp [hrows], (congrArg Prod.fst hpayload).trans hsame.symm⟩
    · rw [Function.update_of_ne hsame] at howner
      obtain ⟨old, hold, hid⟩ := h.known batchId entry howner
      exact ⟨old, by simp [hrows, hold], hid⟩
  · intro columns hcolumns
    change columns ∈ outbox.rows.map BatchSagaRecord.payload at hcolumns
    rw [hrows, List.map_append, List.mem_append] at hcolumns
    rcases hcolumns with hold | hlast
    · obtain ⟨fetched', id', howner, htext⟩ := h.rows columns hold
      exact ⟨fetched', id', hkeeps _ _ howner, htext⟩
    · rw [List.map_singleton, List.mem_singleton, hpayload] at hlast
      subst hlast
      exact ⟨fetched, id, hself, rfl⟩
  · intro hfull batchId data hdata
    obtain ⟨fetched', id', howner, hsame⟩ := h.files hfull batchId data hdata
    exact ⟨fetched', id', hkeeps _ _ howner, hsame⟩
  · intro entry hentry
    exact absurd hentry List.not_mem_nil
  · intro fetched' id' hsome
    obtain ⟨rfl, rfl⟩ := Prod.mk.inj (Option.some.inj hsome)
    exact hself
  · intro s hs
    obtain ⟨fetched', id', howner, hrest⟩ := h.submissions s hs
    exact ⟨fetched', id', hkeeps _ _ howner, hrest⟩

end Provenance

theorem StepEffect.provenance {event : DaemonEvent} (h : StepEffect rt d event d')
    (htrips : ∀ fetched id, delivered fetched id →
      rt.batchFromStr (rt.batchToString (.ofFetched rt fetched id)) =
        some (.ofFetched rt fetched id))
    (hevent : event.Allowed cfg delivered full)
    (hd : ∃ owner, Provenance rt cfg delivered full owner d) :
    ∃ owner, Provenance rt cfg delivered full owner d' := by
  obtain ⟨owner, hd⟩ := hd
  have hcfg : ∀ {cfg' activity}, d.phase = .running cfg' activity → cfg' = cfg :=
    fun hphase => (hd.running _ _ hphase).1
  cases h with
  | started hphase =>
    cases hevent
    exact ⟨owner, hd.started htrips _⟩
  | refused hphase => exact ⟨owner, hd⟩
  | stopped hphase | panicked hphase hpanic => exact ⟨owner, hd.halt⟩
  | moved hphase hmove =>
    obtain rfl := hcfg hphase
    exact ⟨owner, hd.enter hphase (hmove.queue_eq.1 ▸ List.Subset.refl _) (.inr hmove.current_eq)⟩
  | updated hphase hwrite hw hupdate =>
    obtain rfl := hcfg hphase
    exact ⟨owner, (hd.setOutbox (hupdate.payloads _)).enter hphase
      (hupdate.queue_eq.1 ▸ List.Subset.refl _) hupdate.current_eq⟩
  | notUpdated hphase hwrite hw hupdate =>
    obtain rfl := hcfg hphase
    exact ⟨owner, hd.enter hphase (hupdate.queue_eq.1 ▸ List.Subset.refl _) hupdate.current_eq⟩
  | submitted hphase hstep hsubmit hresult =>
    obtain rfl := hcfg hphase
    refine ⟨owner, (hd.record (hd.made_of_submitStep hphase hstep) hsubmit).enter hphase ?_ ?_⟩
    · exact hstep.queue_subset.1 _
    · exact .inl (hstep.current_eq.1 _)
  | submitFailed hphase hstep hsubmit hresult =>
    obtain rfl := hcfg hphase
    refine ⟨owner, (hd.record (hd.made_of_submitStep hphase hstep) hsubmit).enter hphase ?_ ?_⟩
    · exact hstep.queue_subset.2
    · exact .inl hstep.current_eq.2
  | accepted hphase hinsert =>
    obtain rfl := hcfg hphase
    exact ⟨_, hd.accepted hevent hinsert⟩
  | fileWritten hphase =>
    obtain rfl := hcfg hphase
    have howner := (hd.running _ _ hphase).2.2 _ _ rfl
    refine ⟨owner, (hd.setFile fun _ data hdata => ?_).enter hphase (List.Subset.refl _)
      (.inr rfl)⟩
    exact ⟨_, _, howner, (Option.some.inj hdata).symm⟩
  | fileFailed hphase =>
    obtain rfl := hcfg hphase
    refine ⟨owner, (hd.setFile fun hfull => ?_).enter hphase (List.Subset.refl _) (.inl rfl)⟩
    exact absurd (hevent hfull) nofun
  | removed hphase =>
    obtain rfl := hcfg hphase
    refine ⟨owner, (hd.setFile fun _ data hdata => ?_).enter hphase (List.Subset.refl _)
      (.inl rfl)⟩
    contradiction
  | notRemoved hphase =>
    obtain rfl := hcfg hphase
    exact ⟨owner, hd.enter hphase (List.Subset.refl _) (.inl rfl)⟩

end Step

/-- Every submission of a run is a call of `submit` for a batch that was delivered in it, with
the data of that batch, if the data files were written in full. -/
theorem submissions_of_run {rt : Runtime} {cfg : Config} {events : List DaemonEvent} {d : Daemon}
    (hr : Run (DaemonStep rt) .initial events d)
    (hcfg : ∀ cfg' queried, .start cfg' queried ∈ events → cfg' = cfg)
    (htrips : ∀ event ∈ events, event.RoundTrips rt) (s : Submission) (hs : s ∈ d.submissions) :
    ∃ fetched id, (∃ looked w, .deliver fetched id looked w ∈ events) ∧
      s.batch = .ofFetched rt fetched id ∧
      ((∀ outcome, .writeFile outcome ∈ events → outcome = .done) →
        ∀ data ∈ s.data, data = fetched.batchData) ∧
      ∃ files answers files',
        cfg.submit rt files answers s.recovered s.batch s.proofHex s.verifierId =
          some (files', s) := by
  let delivered : FetchedBatch → BatchId → Prop := fun fetched id =>
    ∃ looked w, .deliver fetched id looked w ∈ events
  let full : Prop := ∀ outcome, .writeFile outcome ∈ events → outcome = .done
  have hallowed : ∀ event ∈ events, event.Allowed cfg delivered full := by
    intro event hmem
    cases event with
    | start cfg' queried => exact hcfg cfg' queried hmem
    | deliver fetched id looked w => exact ⟨looked, w, hmem⟩
    | writeFile outcome => exact fun hfull => hfull outcome hmem
    | _ => trivial
  obtain ⟨owner, hend⟩ := hr.invariant
    (I := fun d => ∃ owner, Provenance rt cfg delivered full owner d)
    (fun _ _ _ hd hevent hstep => (step_effect hstep).provenance
      (fun _ _ ⟨_, _, hmem⟩ => htrips _ hmem) hevent hd)
    (Along.of_forall fun event hmem _ => hallowed event hmem) ⟨_, Provenance.initial⟩
  obtain ⟨fetched, id, howner, hbatch, hdata, hsubmit⟩ := hend.submissions s hs
  exact ⟨fetched, id, (hend.delivered _ fetched id howner).1, hbatch, hdata, hsubmit⟩

end RollupX.Submitter
