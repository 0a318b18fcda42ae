import RollupX.Library.Selection
import RollupX.Verification.Sequencer.Steps

/-! What happens to forced transactions. Each is in the queue, in the hands of the orchestrator, or
in a sealed batch. -/

namespace RollupX.Sequencer

open Machine

variable {env : OrchestratorEnv}

theorem selectForced_eq (c : BatchConfig) (txs : List ForcedTransaction) :
    selectForced c txs = Selection.select
      (fun accepted tx => canAddTransaction c (accepted.map .forced) (.forced tx)) txs :=
  rfl

theorem forced_schedule (batchId : UInt64) (accepted : List ForcedTransaction)
    (ordered : List PooledTransaction) (root : Executor.Hash) (timestamp : UInt64) :
    (Batch.mk batchId (schedule accepted ordered) root timestamp).forced = accepted := by
  have hforced : (accepted.map Transaction.forced).filterMap Transaction.asForced =
      accepted := by
    induction accepted with
    | nil => rfl
    | cons tx accepted ih => simp [Transaction.asForced, ih]
  have hnormal : (ordered.map Transaction.normal).filterMap Transaction.asForced = [] := by
    simp [Transaction.asForced]
  rw [Batch.forced, schedule, List.filterMap_append, hforced, hnormal, List.append_nil]

def OrchestratorPhase.inFlight : OrchestratorPhase → List ForcedTransaction
  | .requeueForced accepted deferred => accepted ++ deferred
  | .countPool accepted => accepted
  | .takeNormal accepted _ => accepted
  | .requeueNormal accepted _ _ => accepted
  | .sealing accepted _ => accepted
  | _ => []

def Orchestrator.sealedForced (o : Orchestrator) : List ForcedTransaction :=
  o.sealed.flatMap Batch.forced

def Orchestrator.held (o : Orchestrator) : List ForcedTransaction :=
  o.queue ++ o.phase.inFlight ++ o.sealedForced

def forcedAdded (events : List OrchestratorEvent) : List ForcedTransaction :=
  events.filterMap fun event =>
    match event with
    | .addForced tx => some tx
    | _ => none

theorem forcedAdded_cons (event : OrchestratorEvent) (events : List OrchestratorEvent) :
    forcedAdded (event :: events) = forcedAdded [event] ++ forcedAdded events := by
  rw [forcedAdded, ← List.singleton_append, List.filterMap_append]
  rfl

/-- If the step is the second `get_all` after a seal, the forced queue is empty. -/
def DrainFindsEmpty (o : Orchestrator) : OrchestratorEvent → Prop
  | .tick _ => o.phase = .bookkeeping → o.queue = []
  | _ => True

instance (o : Orchestrator) (event : OrchestratorEvent) : Decidable (DrainFindsEmpty o event) :=
  match event with
  | .tick _ => inferInstanceAs (Decidable (_ → _))
  | .addForced _ => isTrue trivial
  | .addPooled _ => isTrue trivial

theorem Orchestrator.held_congr {o o' : Orchestrator} (hqueue : o'.queue = o.queue)
    (hsealed : o'.sealed = o.sealed) (hphase : o'.phase.inFlight = o.phase.inFlight) :
    o.held.Perm o'.held := by
  rw [held, held, sealedForced, sealedForced, hqueue, hsealed, hphase]

theorem Orchestrator.held_triggered {o : Orchestrator} {reason : TriggerReason}
    (hphase : o.phase = .triggered reason) :
    o.held.Perm { o with
      queue := []
      phase := .requeueForced (selectForced env.config o.queue).1
        (selectForced env.config o.queue).2 : Orchestrator }.held := by
  have hselect := Selection.select_perm (fun accepted tx =>
    canAddTransaction env.config (accepted.map .forced) (.forced tx)) o.queue
  rw [← selectForced_eq] at hselect
  simp only [held, sealedForced, hphase, OrchestratorPhase.inFlight, List.append_nil,
    List.nil_append]
  exact hselect.symm.append_right _

theorem Orchestrator.held_requeued {o : Orchestrator} {tx : ForcedTransaction}
    {accepted deferred : List ForcedTransaction}
    (hphase : o.phase = .requeueForced accepted (tx :: deferred)) :
    o.held.Perm { o with
      queue := o.queue ++ [tx]
      phase := .requeueForced accepted deferred : Orchestrator }.held := by
  rw [List.perm_iff_count]
  intro a
  simp only [held, sealedForced, hphase, OrchestratorPhase.inFlight, List.count_append,
    List.count_cons, List.count_nil]
  omega

theorem Orchestrator.held_sealed {o : Orchestrator} {accepted : List ForcedTransaction}
    {normal ordered : List PooledTransaction} (hphase : o.phase = .sealing accepted normal)
    (nextBatchId batchId : UInt64) (root : Executor.Hash) (timestamp : UInt64) :
    o.held.Perm { o with
      nextBatchId
      sealed := o.sealed ++ [⟨batchId, schedule accepted ordered, root, timestamp⟩]
      phase := .bookkeeping : Orchestrator }.held := by
  rw [List.perm_iff_count]
  intro a
  simp only [held, sealedForced, hphase, OrchestratorPhase.inFlight, List.flatMap_append,
    List.flatMap_cons, List.flatMap_nil, forced_schedule, List.count_append, List.count_nil]
  omega

theorem OrchestratorPhase.inFlight_of_watching {phase : OrchestratorPhase}
    (h : phase.watching = true) : phase.inFlight = [] := by
  cases phase <;> first | rfl | cases h

theorem Orchestrator.held_tick {o o' : Orchestrator} {t : Tick}
    (hstep : o.tick env t = some o') (hok : o.phase = .bookkeeping → o.queue = []) :
    o'.phase = .panicked ∨ o.held.Perm o'.held := by
  cases tick_effect hstep with
  | panics => exact .inl rfl
  | takeForced hphase => exact .inr (held_triggered hphase)
  | putBackForced hphase => exact .inr (held_requeued hphase)
  | seals hphase => exact .inr (held_sealed hphase _ _ _ _)
  | watch hold hnew =>
    refine .inr (held_congr rfl rfl ?_)
    rw [OrchestratorPhase.inFlight_of_watching hold,
      OrchestratorPhase.inFlight_of_watching hnew]
  | drain hphase =>
    refine .inr (held_congr (hok hphase).symm rfl ?_)
    simp [hphase, OrchestratorPhase.inFlight]
  | forcedDone hphase | counted hphase | takeNormal hphase | putBackNormal hphase
  | nothing hphase | normalDone hphase =>
    exact .inr (held_congr rfl rfl (by simp [hphase, OrchestratorPhase.inFlight]))

theorem OrchestratorStep.held {o o' : Orchestrator} {event : OrchestratorEvent}
    (hstep : OrchestratorStep env o event o') (hok : DrainFindsEmpty o event) :
    o'.phase = .panicked ∨ (o.held ++ forcedAdded [event]).Perm o'.held := by
  cases event with
  | addForced tx =>
    right
    rw [← Option.some.inj hstep, List.perm_iff_count]
    intro a
    simp only [forcedAdded, Orchestrator.held, Orchestrator.sealedForced,
      List.filterMap_cons, List.filterMap_nil, List.count_append, List.count_cons,
      List.count_nil]
    omega
  | addPooled tx =>
    right
    rw [← Option.some.inj hstep]
    simp [forcedAdded, Orchestrator.held, Orchestrator.sealedForced]
  | tick t =>
    rcases Orchestrator.held_tick hstep hok with hpanic | hperm
    · exact .inl hpanic
    · right
      simpa [forcedAdded] using hperm

theorem held_run {o o' : Orchestrator} {events : List OrchestratorEvent}
    (hr : Run (OrchestratorStep env) o events o')
    (hok : Along (OrchestratorStep env) DrainFindsEmpty o events) :
    o'.phase = .panicked ∨ (o.held ++ forcedAdded events).Perm o'.held := by
  induction hr with
  | nil o => exact .inr (by simp [forcedAdded])
  | @cons o event o₁ events o' hstep hrest ih =>
    rcases hstep.held hok.1 with hpanic | hfirst
    · left
      exact hrest.invariant_of_step (I := fun k => k.phase = .panicked)
        (fun _ _ _ hk hs => hs.panicked hk) hpanic
    · rcases ih (hok.2 o₁ hstep) with hpanic | hlater
      · exact .inl hpanic
      · right
        rw [forcedAdded_cons, ← List.append_assoc]
        exact (hfirst.append_right _).trans hlater

/-- The forced transactions added so far are those in the queue and those in sealed batches,
each as often as it was added. -/
def NoneDropped (events : List OrchestratorEvent) (o : Orchestrator) : Prop :=
  (forcedAdded events).Perm (o.queue ++ o.sealedForced)

/-- In every interleaving in which each second `get_all` finds the queue empty, no forced
transaction has been dropped or sealed twice when the orchestrator is at the top of its
loop. -/
theorem noneDropped_of_drainFindsEmpty (env : OrchestratorEnv) (nextBatchId : UInt64)
    (events : List OrchestratorEvent) (o : Orchestrator)
    (hr : Run (OrchestratorStep env) (Orchestrator.start nextBatchId) events o)
    (hok : Along (OrchestratorStep env) DrainFindsEmpty (Orchestrator.start nextBatchId) events)
    (htop : o.phase = .loopTop) : NoneDropped events o := by
  rcases held_run hr hok with hpanic | hperm
  · rw [htop] at hpanic
    cases hpanic
  · simpa [NoneDropped, Orchestrator.start, Orchestrator.held, Orchestrator.sealedForced, htop,
      OrchestratorPhase.inFlight] using hperm

/-! An orchestrator with a gas limit of 100, and deposits that use 60. -/

def smallBatches : OrchestratorEnv where
  config :=
    { maxBatchSize := 10
      timeoutIntervalMs := 1000
      minBatchSize := 1
      maxGasLimit := 100
      batchPolicy := "fixed"
      adaptiveLowLoadThreshold := 50
      adaptiveMediumLoadThreshold := 200
      adaptiveSmallBatchSize := 50
      adaptiveMediumBatchSize := 100
      adaptiveLargeBatchSize := 500
      adaptiveSmallTimeoutMs := 500
      adaptiveMediumTimeoutMs := 1000
      adaptiveLargeTimeoutMs := 2000
      blobTargetBytes := 131072
      blobFillBytes := 117964 }
  policy := ⟨"FCFS", some⟩
  daMode := ""

def deposit (nonce : UInt64) : ForcedTransaction :=
  ⟨Vector.replicate 32 0, Vector.replicate 20 5, Vector.replicate 20 5, 1, nonce, 60,
    Vector.replicate 32 0, 1, .deposit, 0⟩

def onceAround (deposits : List ForcedTransaction) (steps : ℕ) : List OrchestratorEvent :=
  deposits.map .addForced ++ List.replicate steps (.tick ⟨0, 0⟩)

theorem noneDropped_oneDeposit :
    ∃ o, Run (OrchestratorStep smallBatches) (Orchestrator.start 1) (onceAround [deposit 0] 9) o ∧
      o.phase = .loopTop ∧ o.sealedForced = [deposit 0] ∧
      NoneDropped (onceAround [deposit 0] 9) o := by
  obtain ⟨o, hr, ho⟩ := exists_run_of_foldlM (Orchestrator.step smallBatches)
    (Orchestrator.start 1) (onceAround [deposit 0] 9) (fun o => (o.phase, o.sealedForced))
    (b := (.loopTop, [deposit 0])) (by decide +kernel)
  obtain ⟨htop, hsealed⟩ := Prod.mk.inj ho
  have hok : Along (OrchestratorStep smallBatches) DrainFindsEmpty (Orchestrator.start 1)
      (onceAround [deposit 0] 9) :=
    Along.of_check (f := Orchestrator.step smallBatches) (by decide +kernel)
  exact ⟨o, hr, htop, hsealed,
    noneDropped_of_drainFindsEmpty smallBatches 1 _ o hr hok htop⟩

/-- Of two deposits the second exceeds the gas limit. It is put back in the queue, and the
second `get_all` then takes it out for good. -/
theorem dropped_secondDeposit :
    ∃ o, Run (OrchestratorStep smallBatches) (Orchestrator.start 1)
        (onceAround [deposit 0, deposit 1] 10) o ∧
      o.phase = .loopTop ∧ o.queue = [] ∧ o.sealedForced = [deposit 0] ∧
      ¬NoneDropped (onceAround [deposit 0, deposit 1] 10) o := by
  obtain ⟨o, hr, ho⟩ := exists_run_of_foldlM (Orchestrator.step smallBatches)
    (Orchestrator.start 1) (onceAround [deposit 0, deposit 1] 10)
    (fun o => (o.phase, o.queue, o.sealedForced)) (b := (.loopTop, [], [deposit 0]))
    (by decide +kernel)
  obtain ⟨htop, hrest⟩ := Prod.mk.inj ho
  obtain ⟨hqueue, hsealed⟩ := Prod.mk.inj hrest
  refine ⟨o, hr, htop, hqueue, hsealed, ?_⟩
  intro hnone
  have hlength := hnone.length_eq
  rw [hqueue, hsealed] at hlength
  exact absurd hlength (by decide)

end RollupX.Sequencer
