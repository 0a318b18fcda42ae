import RollupX.Model.Sequencer.Node
import RollupX.Verification.Sequencer.NonceOrder

/-! What happens to normal transactions. The orchestrator itself keeps every one in the pool, in its
hands or in a sealed batch. -/

namespace RollupX.Sequencer

open Machine

/-- The kinds of steps. -/
inductive NodeEffect (env : NodeEnv) (n : Node) : NodeEvent → Node → Prop where
  | starts {registryRead} : n.process = none →
      NodeEffect env n (.start registryRead) { n with
        process := some (Process.start
          (if registryRead then n.registry.getNextBatchId else 1)) }
  | stops {p} : n.process = some p → NodeEffect env n .stop { n with process := none }
  | moves {p event o} : n.process = some p → p.permits event = true →
      OrchestratorStep env.orchestrator p.orchestrator event o →
      NodeEffect env n (.orchestrator event) { n with
        process := some { p with orchestrator := o } }
  | stores {p batch succeeds} : n.process = some p → p.orchestrator.phase = .bookkeeping →
      p.batch = some batch →
      NodeEffect env n (.store succeeds) { n with
        registry := if succeeds then n.registry.store batch.batchId else n.registry
        process := some { p with stored := true } }
  | publishes {p batch outcome} : n.process = some p → p.orchestrator.phase = .publishing →
      p.batch = some batch →
      NodeEffect env n (.publish outcome) { n with
        process := some (p.publish env outcome)
        published := if outcome.delivered && !p.sent then n.published ++ [batch]
          else n.published
        accepted := if outcome = .response true then n.accepted ++ [batch] else n.accepted }

theorem NodeStep.effect {env : NodeEnv} {n n' : Node} {event : NodeEvent}
    (hstep : NodeStep env n event n') : NodeEffect env n event n' := by
  unfold NodeStep Node.step at hstep
  cases hprocess : n.process with
  | none =>
    cases event with
    | start registryRead =>
      simp only [hprocess, Option.some.injEq] at hstep
      subst hstep
      exact .starts hprocess
    | stop | orchestrator event | store succeeds | publish outcome => simp [hprocess] at hstep
  | some p =>
    cases event with
    | start registryRead => simp [hprocess] at hstep
    | stop =>
      simp only [hprocess, Option.map_some, Option.some.injEq] at hstep
      subst hstep
      exact .stops hprocess
    | orchestrator event =>
      simp only [hprocess] at hstep
      split at hstep
      · rename_i hpermits
        obtain ⟨o, ho, rfl⟩ := Option.map_eq_some_iff.mp hstep
        exact .moves hprocess hpermits ho
      · cases hstep
    | store succeeds =>
      simp only [hprocess] at hstep
      split at hstep
      · rename_i hready
        obtain ⟨batch, hbatch, rfl⟩ := Option.map_eq_some_iff.mp hstep
        exact .stores hprocess hready.1 hbatch
      · cases hstep
    | publish outcome =>
      simp only [hprocess] at hstep
      split at hstep
      · rename_i hready
        obtain ⟨batch, hbatch, rfl⟩ := Option.map_eq_some_iff.mp hstep
        exact .publishes hprocess hready hbatch
      · cases hstep

def Orchestrator.heldNormal (o : Orchestrator) : List PooledTransaction :=
  o.sealedNormal ++ o.phase.normal ++ o.phase.refused ++ o.pool

theorem Orchestrator.heldNormal_congr {o o' : Orchestrator} (hpool : o'.pool = o.pool)
    (hsealed : o'.sealed = o.sealed) (hnormal : o'.phase.normal = o.phase.normal)
    (hrefused : o'.phase.refused = o.phase.refused) : o.heldNormal.Perm o'.heldNormal := by
  rw [heldNormal, heldNormal, sealedNormal, sealedNormal, hpool, hsealed, hnormal, hrefused]

theorem Orchestrator.heldNormal_of_phase {o o' : Orchestrator} {phase : OrchestratorPhase}
    (hphase : o.phase = phase) (hpool : o'.pool = o.pool) (hsealed : o'.sealed = o.sealed)
    (hnormal : o'.phase.normal = phase.normal) (hrefused : o'.phase.refused = phase.refused) :
    o.heldNormal.Perm o'.heldNormal := by
  subst hphase
  exact heldNormal_congr hpool hsealed hnormal hrefused

theorem TickEffect.heldNormal {env : OrchestratorEnv} {o o' : Orchestrator} {t : Tick}
    (horders : ∀ txs ordered, env.policy.orderTransactions txs = some ordered →
      ordered.Perm txs) (heffect : TickEffect env o t o') :
    o'.phase = .panicked ∨ o.heldNormal.Perm o'.heldNormal := by
  cases heffect with
  | panics => exact .inl rfl
  | watch hold hnew =>
    obtain ⟨hnormal, hrefused⟩ := OrchestratorPhase.normal_of_watching hold
    obtain ⟨hnormal', hrefused'⟩ := OrchestratorPhase.normal_of_watching hnew
    exact .inr (Orchestrator.heldNormal_congr rfl rfl (hnormal'.trans hnormal.symm)
      (hrefused'.trans hrefused.symm))
  | takeForced hphase | putBackForced hphase | forcedDone hphase | counted hphase
  | nothing hphase | normalDone hphase | drain hphase =>
    exact .inr (Orchestrator.heldNormal_of_phase hphase rfl rfl rfl rfl)
  | @takeNormal accepted depth hphase =>
    right
    have hperm := (taken_perm env accepted depth o.pool).symm.append_left o.sealedNormal
    simpa [Orchestrator.heldNormal, Orchestrator.sealedNormal, hphase,
      OrchestratorPhase.normal, OrchestratorPhase.refused] using hperm
  | putBackNormal hphase =>
    right
    rw [List.perm_iff_count]
    intro a
    simp only [Orchestrator.heldNormal, Orchestrator.sealedNormal, hphase,
      OrchestratorPhase.normal, OrchestratorPhase.refused, List.count_append,
      List.count_cons, List.count_nil]
    omega
  | @seals accepted normal ordered hphase horder =>
    right
    have hperm := (horders normal ordered horder).symm
    simpa [Orchestrator.heldNormal, Orchestrator.sealedNormal, hphase,
      OrchestratorPhase.normal, OrchestratorPhase.refused, Orchestrator.nextBatch,
      normal_schedule] using (hperm.append_left o.sealedNormal).append_right o.pool

theorem OrchestratorStep.heldNormal {env : OrchestratorEnv} {o o' : Orchestrator}
    {event : OrchestratorEvent}
    (horders : ∀ txs ordered, env.policy.orderTransactions txs = some ordered →
      ordered.Perm txs) (hstep : OrchestratorStep env o event o') :
    o'.phase = .panicked ∨ (o.heldNormal ++ pooledAdded [event]).Perm o'.heldNormal := by
  cases event with
  | addForced tx | addPooled tx =>
    right
    rw [← Option.some.inj hstep]
    simp [pooledAdded, Orchestrator.heldNormal, Orchestrator.sealedNormal]
  | tick t =>
    rcases (tick_effect hstep).heldNormal horders with hpanic | hperm
    · exact .inl hpanic
    · right
      simpa [pooledAdded] using hperm

def Process.pending (p : Process) : List Batch :=
  match p.orchestrator.phase with
  | .bookkeeping => p.batch.toList
  | .publishing => p.batch.toList
  | _ => []

theorem Process.pending_eq_nil {p : Process} (hbookkeeping : p.orchestrator.phase ≠ .bookkeeping)
    (hpublishing : p.orchestrator.phase ≠ .publishing) : p.pending = [] := by
  unfold Process.pending
  split
  · contradiction
  · contradiction
  · rfl

/-- What a step of the orchestrator does to the sealed batches of the process. -/
inductive SealEffect (p : Process) (o : Orchestrator) : Prop where
  | seals {batch : Batch} : (∃ accepted normal, p.orchestrator.phase = .sealing accepted normal) →
      p.pending = [] → batch.batchId = p.orchestrator.nextBatchId →
      o.nextBatchId = p.orchestrator.nextBatchId + 1 →
      o.sealed = p.orchestrator.sealed ++ [batch] →
      ({ p with orchestrator := o } : Process).pending = [batch] → SealEffect p o
  | keeps : o.nextBatchId = p.orchestrator.nextBatchId → o.sealed = p.orchestrator.sealed →
      ({ p with orchestrator := o } : Process).pending = p.pending → SealEffect p o

theorem SealEffect.of_phases {p : Process} {o : Orchestrator}
    (hid : o.nextBatchId = p.orchestrator.nextBatchId)
    (hsealed : o.sealed = p.orchestrator.sealed)
    (hold : p.orchestrator.phase ≠ .bookkeeping ∧ p.orchestrator.phase ≠ .publishing)
    (hnew : o.phase ≠ .bookkeeping ∧ o.phase ≠ .publishing) : SealEffect p o := by
  refine .keeps hid hsealed ?_
  rw [Process.pending_eq_nil hold.1 hold.2, Process.pending_eq_nil hnew.1 hnew.2]

theorem OrchestratorStep.sealEffect {env : OrchestratorEnv} {p : Process}
    {event : OrchestratorEvent} {o : Orchestrator} (hpermits : p.permits event = true)
    (hstep : OrchestratorStep env p.orchestrator event o) : SealEffect p o := by
  cases event with
  | addForced tx | addPooled tx =>
    rw [← Option.some.inj hstep]
    exact .keeps rfl rfl rfl
  | tick t =>
    have hpublishing : p.orchestrator.phase ≠ .publishing := by
      intro hphase
      simp [Process.permits, hphase] at hpermits
    cases tick_effect hstep with
    | watch hold hnew hnot =>
      refine .of_phases rfl rfl ⟨?_, hpublishing⟩ ⟨?_, hnot⟩
      · rintro hphase
        simp [hphase, OrchestratorPhase.watching] at hold
      · rintro rfl
        simp [OrchestratorPhase.watching] at hnew
    | takeForced hphase =>
      exact .of_phases rfl rfl (by simp [hphase]) (by simp)
    | putBackForced hphase | forcedDone hphase | counted hphase | takeNormal hphase
    | putBackNormal hphase | nothing hphase | normalDone hphase | panics hphase =>
      exact .of_phases rfl rfl (by simp [hphase]) (by simp)
    | @seals accepted normal ordered hphase horder =>
      refine .seals ⟨accepted, normal, hphase⟩ ?_ rfl rfl rfl ?_
      · exact Process.pending_eq_nil (by simp [hphase]) hpublishing
      · simp [Process.pending, Process.batch]
    | drain hphase =>
      refine .keeps rfl rfl ?_
      simp [Process.pending, Process.batch, hphase]

def NodeEvent.inProcess : NodeEvent → Bool
  | .start _ => false
  | .stop => false
  | _ => true

def nodeAdded (events : List NodeEvent) : List PooledTransaction :=
  pooledAdded (events.filterMap fun event =>
    match event with
    | .orchestrator event => some event
    | _ => none)

theorem nodeAdded_cons (event : NodeEvent) (events : List NodeEvent) :
    nodeAdded (event :: events) = nodeAdded [event] ++ nodeAdded events := by
  rw [nodeAdded, ← List.singleton_append, List.filterMap_append, pooledAdded,
    List.filterMap_append]
  rfl

/-- The publication of a batch with normal transactions is not over before the executor has
answered `accepted`. -/
def EndsAccepted (env : NodeEnv) (n : Node) : NodeEvent → Prop
  | .publish outcome =>
    ∀ p ∈ n.process, (∀ batch ∈ p.batch, batch.normal = []) ∨
      outcome = .response true ∨
      outcome ≠ .response false ∧ p.attempt + 1 < env.attempts
  | _ => True

instance (env : NodeEnv) (n : Node) (event : NodeEvent) : Decidable (EndsAccepted env n event) :=
  match event with
  | .publish _ => inferInstanceAs (Decidable (∀ p ∈ n.process, _))
  | .start _ | .stop | .orchestrator _ | .store _ => isTrue trivial

/-- Unless the orchestrator has panicked, every transaction that was added is held, and those
in sealed batches are in accepted ones or in the pending one. -/
structure Process.Keeps (added : List PooledTransaction) (accepted : List Batch)
    (p : Process) : Prop where
  held : added.Perm p.orchestrator.heldNormal
  sealed : p.orchestrator.sealedNormal = (accepted ++ p.pending).flatMap Batch.normal

def Node.Keeps (added : List PooledTransaction) (n : Node) : Prop :=
  ∃ p, n.process = some p ∧ (p.orchestrator.phase = .panicked ∨ p.Keeps added n.accepted)

theorem Process.Keeps.moves {env : OrchestratorEnv} {added : List PooledTransaction}
    {accepted : List Batch} {p : Process} {event : OrchestratorEvent} {o : Orchestrator}
    (h : p.Keeps added accepted)
    (horders : ∀ txs ordered, env.policy.orderTransactions txs = some ordered →
      ordered.Perm txs) (hpermits : p.permits event = true)
    (hstep : OrchestratorStep env p.orchestrator event o) :
    o.phase = .panicked ∨
      ({ p with orchestrator := o } : Process).Keeps (added ++ pooledAdded [event]) accepted := by
  rcases hstep.heldNormal horders with hpanic | hheld
  · exact .inl hpanic
  refine .inr ⟨(h.held.append_right _).trans hheld, ?_⟩
  have hsealed := h.sealed
  cases hstep.sealEffect hpermits with
  | seals _ hnone _ _ hbatch hpending =>
    rw [hnone, List.append_nil, Orchestrator.sealedNormal] at hsealed
    rw [Orchestrator.sealedNormal, hbatch, hpending, List.flatMap_append, hsealed,
      List.flatMap_append]
  | keeps _ hsame hpending =>
    rw [Orchestrator.sealedNormal, hsame, hpending]
    exact hsealed

theorem Process.Keeps.over {added : List PooledTransaction} {accepted accepted' : List Batch}
    {p : Process} (h : p.Keeps added accepted) (hphase : p.orchestrator.phase = .publishing)
    (haccepted : accepted'.flatMap Batch.normal =
      (accepted ++ p.pending).flatMap Batch.normal) :
    (⟨{ p.orchestrator with phase := .loopTop }, false, 0, false⟩ : Process).Keeps added
      accepted' := by
  constructor
  · exact h.held.trans (Orchestrator.heldNormal_of_phase hphase rfl rfl rfl rfl)
  · show p.orchestrator.sealedNormal = (accepted' ++ []).flatMap Batch.normal
    rw [List.append_nil, haccepted]
    exact h.sealed

/-- An attempt that goes on leaves the batch pending. One that ends the publication has the
batch accepted, or the batch had no normal transactions. -/
theorem Process.Keeps.publishes {env : NodeEnv} {added : List PooledTransaction}
    {accepted : List Batch} {p : Process} {batch : Batch} {outcome : PublishOutcome}
    (h : p.Keeps added accepted) (hphase : p.orchestrator.phase = .publishing)
    (hbatch : p.batch = some batch)
    (hok : batch.normal = [] ∨ outcome = .response true ∨
      outcome ≠ .response false ∧ p.attempt + 1 < env.attempts) :
    (p.publish env outcome).Keeps added
      (if outcome = .response true then accepted ++ [batch] else accepted) := by
  have hpending : p.pending = [batch] := by simp [Process.pending, hphase, hbatch]
  have hsame : batch.normal = [] →
      accepted.flatMap Batch.normal = (accepted ++ p.pending).flatMap Batch.normal := by
    intro hnone
    rw [hpending, List.flatMap_append, List.flatMap_singleton, hnone, List.append_nil]
  cases outcome with
  | response answer =>
    cases answer with
    | true => exact h.over hphase (by simp [hpending])
    | false => exact h.over hphase (hsame (by simpa using hok))
  | failed delivered =>
    rw [if_neg nofun, Process.publish]
    split
    · rename_i hover
      rw [Process.publicationOver, decide_eq_true_eq] at hover
      refine h.over hphase (hsame ?_)
      rcases hok with hnone | heq | ⟨-, hmore⟩
      · exact hnone
      · cases heq
      · omega
    · exact ⟨h.held, h.sealed⟩

theorem NodeStep.keeps {env : NodeEnv} {n n' : Node} {event : NodeEvent}
    {added : List PooledTransaction}
    (horders : ∀ txs ordered, env.orchestrator.policy.orderTransactions txs = some ordered →
      ordered.Perm txs) (hstep : NodeStep env n event n') (hin : event.inProcess = true)
    (hok : EndsAccepted env n event) (h : n.Keeps added) :
    n'.Keeps (added ++ nodeAdded [event]) := by
  obtain ⟨p, hp, hkeeps⟩ := h
  cases hstep.effect with
  | starts | stops => cases hin
  | @moves p' event o hp' hpermits hmove =>
    obtain rfl : p = p' := Option.some.inj (hp.symm.trans hp')
    refine ⟨_, rfl, ?_⟩
    rcases hkeeps with hpanic | hkeeps
    · exact .inl (hmove.panicked hpanic)
    · exact hkeeps.moves horders hpermits hmove
  | @stores p' batch succeeds hp' hphase hbatch =>
    obtain rfl : p = p' := Option.some.inj (hp.symm.trans hp')
    refine ⟨_, rfl, ?_⟩
    rcases hkeeps with hpanic | hkeeps
    · exact .inl hpanic
    · right
      simpa [nodeAdded, pooledAdded] using (⟨hkeeps.held, hkeeps.sealed⟩ :
        ({ p with stored := true } : Process).Keeps added n.accepted)
  | @publishes p' batch outcome hp' hphase hbatch =>
    obtain rfl : p = p' := Option.some.inj (hp.symm.trans hp')
    refine ⟨_, rfl, ?_⟩
    rcases hkeeps with hpanic | hkeeps
    · rw [hphase] at hpanic
      cases hpanic
    · right
      have hbatches : batch.normal = [] ∨ outcome = .response true ∨
          outcome ≠ .response false ∧ p.attempt + 1 < env.attempts := by
        simpa [hbatch] using hok p hp
      simpa [nodeAdded, pooledAdded] using hkeeps.publishes hphase hbatch hbatches

theorem keeps_run {env : NodeEnv} {n n' : Node} {events : List NodeEvent}
    {added : List PooledTransaction}
    (horders : ∀ txs ordered, env.orchestrator.policy.orderTransactions txs = some ordered →
      ordered.Perm txs) (hr : Run (NodeStep env) n events n')
    (hin : ∀ event ∈ events, event.inProcess = true)
    (hok : Along (NodeStep env) (EndsAccepted env) n events) (h : n.Keeps added) :
    n'.Keeps (added ++ nodeAdded events) := by
  induction hr generalizing added with
  | nil n => simpa [nodeAdded, pooledAdded] using h
  | @cons n event n₁ events n' hstep _ ih =>
    rw [List.forall_mem_cons] at hin
    rw [nodeAdded_cons, ← List.append_assoc]
    exact ih hin.2 (hok.2 n₁ hstep) (hstep.keeps horders hin.1 hok.1 h)

def Node.started (registry : Registry) (nextBatchId : UInt64) : Node :=
  ⟨registry, some (Process.start nextBatchId), [], []⟩

/-- The transactions added to the pool are those in the pool and those in accepted batches,
each as often as it was added. -/
def NoneLost (events : List NodeEvent) (n : Node) (p : Process) : Prop :=
  (nodeAdded events).Perm (p.orchestrator.pool ++ n.accepted.flatMap Batch.normal)

/-- With each of the policies: in every run of a process in which no publication of a batch
with normal transactions ends before the executor has accepted it, no normal transaction is
lost when the orchestrator is at the top of its loop. -/
theorem noneLost_of_endsAccepted (env : NodeEnv) (policy : SchedulingPolicyType)
    (hash : List PooledTransaction → Executor.Address → ℕ)
    (hpolicy : env.orchestrator.policy = createPolicy hash policy) (registry : Registry)
    (nextBatchId : UInt64) (events : List NodeEvent) (n : Node) (p : Process)
    (hr : Run (NodeStep env) (Node.started registry nextBatchId) events n)
    (hin : ∀ event ∈ events, event.inProcess = true)
    (hok : Along (NodeStep env) (EndsAccepted env) (Node.started registry nextBatchId) events)
    (hp : n.process = some p) (htop : p.orchestrator.phase = .loopTop) :
    NoneLost events n p := by
  have hstart : (Node.started registry nextBatchId).Keeps [] :=
    ⟨_, rfl, .inr ⟨.refl _, rfl⟩⟩
  obtain ⟨p', hp', hkeeps⟩ :=
    keeps_run (fun _ _ horder => ordered_perm hpolicy horder) hr hin hok hstart
  obtain rfl : p = p' := Option.some.inj (hp.symm.trans hp')
  rcases hkeeps with hpanic | ⟨hheld, hsealed⟩
  · rw [htop] at hpanic
    cases hpanic
  · have hpending : p.pending = [] := Process.pending_eq_nil (by simp [htop]) (by simp [htop])
    rw [hpending, List.append_nil] at hsealed
    rw [List.nil_append, Orchestrator.heldNormal, hsealed, htop] at hheld
    exact hheld.trans (by simpa [OrchestratorPhase.normal, OrchestratorPhase.refused] using
      List.perm_append_comm)

/-! A process with the default number of attempts, and one payment that it seals. -/

def fcfsNode : NodeEnv :=
  ⟨scheduledBatches .fcfs, none⟩

def publishedWith (outcomes : List PublishOutcome) : List NodeEvent :=
  (timedOut [payment 1 0 30 1] 9).map .orchestrator ++
    [.store true, .orchestrator (.tick ⟨0, 0⟩)] ++ outcomes.map .publish

def Node.view (n : Node) :
    Option (OrchestratorPhase × List PooledTransaction) × List PooledTransaction :=
  (n.process.map fun p => (p.orchestrator.phase, p.orchestrator.pool),
    n.accepted.flatMap Batch.normal)

theorem Node.of_view {n : Node} {phase : OrchestratorPhase}
    {pool accepted : List PooledTransaction} (h : n.view = (some (phase, pool), accepted)) :
    ∃ p, n.process = some p ∧ p.orchestrator.phase = phase ∧ p.orchestrator.pool = pool ∧
      n.accepted.flatMap Batch.normal = accepted := by
  obtain ⟨hprocess, haccepted⟩ := Prod.mk.inj h
  obtain ⟨p, hp, hview⟩ := Option.map_eq_some_iff.mp hprocess
  obtain ⟨hphase, hpool⟩ := Prod.mk.inj hview
  exact ⟨p, hp, hphase, hpool, haccepted⟩

theorem noneLost_secondAttempt :
    ∃ n p, Run (NodeStep fcfsNode) (Node.started [] 1)
        (publishedWith [.failed false, .response true]) n ∧
      n.process = some p ∧ p.orchestrator.phase = .loopTop ∧
      n.accepted.flatMap Batch.normal = [payment 1 0 30 1] ∧
      NoneLost (publishedWith [.failed false, .response true]) n p := by
  obtain ⟨n, hr, hn⟩ := exists_run_of_foldlM (Node.step fcfsNode) (Node.started [] 1)
    (publishedWith [.failed false, .response true]) Node.view
    (b := (some (.loopTop, []), [payment 1 0 30 1])) (by decide +kernel)
  obtain ⟨p, hp, htop, -, haccepted⟩ := Node.of_view hn
  have hok : Along (NodeStep fcfsNode) (EndsAccepted fcfsNode) (Node.started [] 1)
      (publishedWith [.failed false, .response true]) :=
    Along.of_check (f := Node.step fcfsNode) (by decide +kernel)
  exact ⟨n, p, hr, hp, htop, haccepted, noneLost_of_endsAccepted fcfsNode .fcfs (fun _ _ => 0)
    rfl [] 1 _ n p hr (by decide +kernel) hok hp htop⟩

/-- All five attempts fail. The payment is neither in the pool nor in an accepted batch. -/
theorem lost_fiveFailures :
    ∃ n p, Run (NodeStep fcfsNode) (Node.started [] 1)
        (publishedWith (List.replicate 5 (.failed false))) n ∧
      n.process = some p ∧ p.orchestrator.phase = .loopTop ∧ p.orchestrator.pool = [] ∧
      n.accepted.flatMap Batch.normal = [] ∧
      ¬NoneLost (publishedWith (List.replicate 5 (.failed false))) n p := by
  obtain ⟨n, hr, hn⟩ := exists_run_of_foldlM (Node.step fcfsNode) (Node.started [] 1)
    (publishedWith (List.replicate 5 (.failed false))) Node.view
    (b := (some (.loopTop, []), [])) (by decide +kernel)
  obtain ⟨p, hp, htop, hpool, haccepted⟩ := Node.of_view hn
  refine ⟨n, p, hr, hp, htop, hpool, haccepted, fun hnone => ?_⟩
  have hlength := hnone.length_eq
  rw [hpool, haccepted] at hlength
  exact absurd hlength (by decide)

end RollupX.Sequencer
