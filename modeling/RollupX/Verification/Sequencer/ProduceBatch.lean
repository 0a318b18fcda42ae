import RollupX.Verification.Sequencer.Steps

/-! `produce_batch` as one call. A call reads the queue, counts the pool and takes from it in
separate steps. When nothing is added in between, they compute the function `produceBatch`. -/

namespace RollupX.Sequencer

open Machine

variable {env : OrchestratorEnv}

namespace BatchInputs

def forced (env : OrchestratorEnv) (inputs : BatchInputs) : List ForcedTransaction :=
  (selectForced env.config inputs.queue).1

def pooled (env : OrchestratorEnv) (inputs : BatchInputs) :
    List PooledTransaction × List PooledTransaction :=
  takePooled env (inputs.forced env) inputs.depth inputs.pool

def normal (env : OrchestratorEnv) (inputs : BatchInputs) : List PooledTransaction :=
  (selectNormal env.config (inputs.forced env) (inputs.pooled env).1).1

def queueAfter (env : OrchestratorEnv) (inputs : BatchInputs) : List ForcedTransaction :=
  (selectForced env.config inputs.queue).2

def poolAfter (env : OrchestratorEnv) (inputs : BatchInputs) : List PooledTransaction :=
  (inputs.pooled env).2 ++
    (selectNormal env.config (inputs.forced env) (inputs.pooled env).1).2

end BatchInputs

theorem produceBatch_eq (env : OrchestratorEnv) (inputs : BatchInputs)
    (batchId nowSecs : UInt64) :
    produceBatch env inputs batchId nowSecs =
      if inputs.forced env = [] ∧ inputs.normal env = [] then
        some ⟨none, inputs.queueAfter env, inputs.poolAfter env⟩
      else
        match env.policy.orderTransactions (inputs.normal env) with
        | none => none
        | some ordered =>
          if feesFit (schedule (inputs.forced env) ordered) then
            some ⟨some ⟨batchId, schedule (inputs.forced env) ordered, Vector.replicate 32 0,
              nowSecs⟩, inputs.queueAfter env, inputs.poolAfter env⟩
          else none :=
  rfl

/-- The outcomes of a call. -/
inductive CallOutcome (env : OrchestratorEnv) (inputs : BatchInputs) (batchId nowSecs : UInt64) :
    Option ProducedBatch → Prop where
  | nothing : inputs.forced env = [] → inputs.normal env = [] →
      CallOutcome env inputs batchId nowSecs
        (some ⟨none, inputs.queueAfter env, inputs.poolAfter env⟩)
  | batch {ordered} : ¬(inputs.forced env = [] ∧ inputs.normal env = []) →
      env.policy.orderTransactions (inputs.normal env) = some ordered →
      feesFit (schedule (inputs.forced env) ordered) = true →
      CallOutcome env inputs batchId nowSecs
        (some ⟨some ⟨batchId, schedule (inputs.forced env) ordered, Vector.replicate 32 0,
          nowSecs⟩, inputs.queueAfter env, inputs.poolAfter env⟩)
  | orderPanics : ¬(inputs.forced env = [] ∧ inputs.normal env = []) →
      env.policy.orderTransactions (inputs.normal env) = none →
      CallOutcome env inputs batchId nowSecs none
  | feesPanic {ordered} : ¬(inputs.forced env = [] ∧ inputs.normal env = []) →
      env.policy.orderTransactions (inputs.normal env) = some ordered →
      feesFit (schedule (inputs.forced env) ordered) = false →
      CallOutcome env inputs batchId nowSecs none

theorem produceBatch_outcome (env : OrchestratorEnv) (inputs : BatchInputs)
    (batchId nowSecs : UInt64) :
    CallOutcome env inputs batchId nowSecs (produceBatch env inputs batchId nowSecs) := by
  rw [produceBatch_eq]
  by_cases hnone : inputs.forced env = [] ∧ inputs.normal env = []
  · rw [if_pos hnone]
    exact .nothing hnone.1 hnone.2
  · rw [if_neg hnone]
    cases horder : env.policy.orderTransactions (inputs.normal env) with
    | none => exact .orderPanics hnone horder
    | some ordered =>
      simp only
      cases hfees : feesFit (schedule (inputs.forced env) ordered) with
      | true => exact .batch hnone horder hfees
      | false => exact .feesPanic hnone horder hfees

/-- A batch consists of the accepted transactions, the normal ones as the policy orders them. -/
theorem produceBatch_batch {inputs : BatchInputs} {batchId nowSecs : UInt64}
    {produced : ProducedBatch} {batch : Batch}
    (h : produceBatch env inputs batchId nowSecs = some produced)
    (hbatch : produced.batch = some batch) :
    ∃ ordered, env.policy.orderTransactions (inputs.normal env) = some ordered ∧
      batch = ⟨batchId, schedule (inputs.forced env) ordered, Vector.replicate 32 0, nowSecs⟩ := by
  have hout := produceBatch_outcome env inputs batchId nowSecs
  rw [h] at hout
  cases hout with
  | nothing => cases hbatch
  | @batch ordered _ horder _ => exact ⟨ordered, horder, (Option.some.inj hbatch).symm⟩

def Orchestrator.Returns (o o' : Orchestrator) : Option ProducedBatch → Prop
  | none => o'.phase = .panicked
  | some ⟨none, queue, pool⟩ => o' = { o with queue, pool, phase := .loopTop }
  | some ⟨some batch, queue, pool⟩ =>
    o' = { o with
      queue, pool
      nextBatchId := o.nextBatchId + 1
      sealed := o.sealed ++ [batch]
      phase := .bookkeeping }

theorem iterates_requeueForced {o : Orchestrator} {accepted deferred : List ForcedTransaction}
    {t : Tick} (h : o.phase = .requeueForced accepted deferred) :
    Iterates (OrchestratorStep env) (.tick t) o
      { o with queue := o.queue ++ deferred, phase := .countPool accepted } := by
  induction deferred generalizing o with
  | nil =>
    refine .head ?_ (.refl _ _)
    simp [OrchestratorStep, Orchestrator.step, Orchestrator.tick, h]
  | cons tx deferred ih =>
    have hstep : OrchestratorStep env o (.tick t) { o with
        queue := o.queue ++ [tx], phase := .requeueForced accepted deferred } := by
      simp [OrchestratorStep, Orchestrator.step, Orchestrator.tick, h]
    have hrest := ih (o := { o with
      queue := o.queue ++ [tx], phase := .requeueForced accepted deferred }) rfl
    rw [List.append_assoc] at hrest
    exact .head hstep hrest

def chosenPhase (accepted : List ForcedTransaction) (normal : List PooledTransaction) :
    OrchestratorPhase :=
  if accepted = [] ∧ normal = [] then .loopTop else .sealing accepted normal

theorem iterates_requeueNormal {o : Orchestrator} {accepted : List ForcedTransaction}
    {normal deferred : List PooledTransaction} {t : Tick}
    (h : o.phase = .requeueNormal accepted normal deferred) :
    Iterates (OrchestratorStep env) (.tick t) o
      { o with pool := o.pool ++ deferred, phase := chosenPhase accepted normal } := by
  induction deferred generalizing o with
  | nil =>
    refine .head ?_ (.refl _ _)
    simp [OrchestratorStep, Orchestrator.step, Orchestrator.tick, h, chosenPhase]
  | cons tx deferred ih =>
    have hstep : OrchestratorStep env o (.tick t) { o with
        pool := o.pool ++ [tx], phase := .requeueNormal accepted normal deferred } := by
      simp [OrchestratorStep, Orchestrator.step, Orchestrator.tick, h]
    have hrest := ih (o := { o with
      pool := o.pool ++ [tx], phase := .requeueNormal accepted normal deferred }) rfl
    rw [List.append_assoc] at hrest
    exact .head hstep hrest

/-- The inputs of a call during which nothing is added. -/
def Orchestrator.inputs (o : Orchestrator) : BatchInputs :=
  ⟨o.queue, o.pool.length, o.pool⟩

def Orchestrator.chosen (env : OrchestratorEnv) (o : Orchestrator) : Orchestrator :=
  { o with
    queue := o.inputs.queueAfter env
    pool := o.inputs.poolAfter env
    phase := chosenPhase (o.inputs.forced env) (o.inputs.normal env) }

theorem iterates_chosen {o : Orchestrator} {reason : TriggerReason} {t : Tick}
    (h : o.phase = .triggered reason) :
    Iterates (OrchestratorStep env) (.tick t) o (o.chosen env) := by
  have hdrained : OrchestratorStep env o (.tick t) { o with
      queue := []
      phase := .requeueForced (o.inputs.forced env) (o.inputs.queueAfter env) } := by
    simp only [OrchestratorStep, Orchestrator.step, Orchestrator.tick, h]
    rfl
  have hcounted : OrchestratorStep env
      { o with queue := o.inputs.queueAfter env, phase := .countPool (o.inputs.forced env) }
      (.tick t) { o with
        queue := o.inputs.queueAfter env
        phase := .takeNormal (o.inputs.forced env) o.pool.length } := rfl
  have htaken : OrchestratorStep env
      { o with
        queue := o.inputs.queueAfter env
        phase := .takeNormal (o.inputs.forced env) o.pool.length }
      (.tick t) { o with
        queue := o.inputs.queueAfter env
        pool := (o.inputs.pooled env).2
        phase := .requeueNormal (o.inputs.forced env) (o.inputs.normal env)
          (selectNormal env.config (o.inputs.forced env) (o.inputs.pooled env).1).2 } := rfl
  exact .head hdrained ((iterates_requeueForced rfl).trans
    (.head hcounted (.head htaken (iterates_requeueNormal rfl))))

/-- When nothing is added meanwhile, the steps from the trigger on compute `produceBatch`. -/
theorem iterates_produceBatch {o : Orchestrator} {reason : TriggerReason} {t : Tick}
    (h : o.phase = .triggered reason) :
    ∃ o', Iterates (OrchestratorStep env) (.tick t) o o' ∧
      o.Returns o' (produceBatch env o.inputs o.nextBatchId t.nowSecs) := by
  have hchosen : Iterates (OrchestratorStep env) (.tick t) o (o.chosen env) := iterates_chosen h
  have hout := produceBatch_outcome env o.inputs o.nextBatchId t.nowSecs
  by_cases hnone : o.inputs.forced env = [] ∧ o.inputs.normal env = []
  · refine ⟨_, hchosen, ?_⟩
    rw [produceBatch_eq, if_pos hnone, Orchestrator.Returns, Orchestrator.chosen, chosenPhase,
      if_pos hnone]
  · have hphase : (o.chosen env).phase =
        .sealing (o.inputs.forced env) (o.inputs.normal env) := if_neg hnone
    generalize produceBatch env o.inputs o.nextBatchId t.nowSecs = result at hout
    cases hout with
    | nothing hforced hnormal => exact absurd ⟨hforced, hnormal⟩ hnone
    | batch _ horder hfees =>
      refine ⟨_, hchosen.trans (.head ?_ (.refl _ _)), rfl⟩
      simp only [OrchestratorStep, Orchestrator.step, Orchestrator.tick, hphase, horder, hfees,
        if_true]
      rfl
    | orderPanics _ horder =>
      refine ⟨{ o.chosen env with phase := .panicked },
        hchosen.trans (.head ?_ (.refl _ _)), rfl⟩
      simp [OrchestratorStep, Orchestrator.step, Orchestrator.tick, hphase, horder]
    | feesPanic _ horder hfees =>
      refine ⟨{ o.chosen env with phase := .panicked },
        hchosen.trans (.head ?_ (.refl _ _)), rfl⟩
      simp [OrchestratorStep, Orchestrator.step, Orchestrator.tick, hphase, horder, hfees]

/-- What the phase holds has been chosen as in a call. -/
def OrchestratorPhase.OfCall (env : OrchestratorEnv) : OrchestratorPhase → Prop
  | .requeueForced accepted _ | .countPool accepted | .takeNormal accepted _ =>
    ∃ queue, (selectForced env.config queue).1 = accepted
  | .requeueNormal accepted normal _ =>
    ∃ inputs : BatchInputs, inputs.forced env = accepted ∧ inputs.normal env = normal
  | .sealing accepted normal => ¬(accepted = [] ∧ normal = []) ∧
      ∃ inputs : BatchInputs, inputs.forced env = accepted ∧ inputs.normal env = normal
  | _ => True

/-- The batch is that of a call. -/
def Batch.OfCall (env : OrchestratorEnv) (batch : Batch) : Prop :=
  ∃ inputs batchId nowSecs produced,
    produceBatch env inputs batchId nowSecs = some produced ∧ produced.batch = some batch

structure Orchestrator.OfCalls (env : OrchestratorEnv) (o : Orchestrator) : Prop where
  phase : o.phase.OfCall env
  sealed : ∀ batch ∈ o.sealed, batch.OfCall env

theorem Orchestrator.OfCalls.tick {o o' : Orchestrator} {t : Tick} (h : o.OfCalls env)
    (hstep : o.tick env t = some o') : o'.OfCalls env := by
  obtain ⟨hphase, hsealed⟩ := h
  cases tick_effect hstep with
  | @watch phase _ hwatching _ =>
    refine ⟨?_, hsealed⟩
    cases phase <;> trivial
  | takeForced _ => exact ⟨⟨o.queue, rfl⟩, hsealed⟩
  | putBackForced hat | forcedDone hat | counted hat | putBackNormal hat =>
    rw [hat] at hphase
    exact ⟨hphase, hsealed⟩
  | @takeNormal accepted depth hat =>
    rw [hat] at hphase
    obtain ⟨queue, rfl⟩ := hphase
    exact ⟨⟨⟨queue, depth, o.pool⟩, rfl, rfl⟩, hsealed⟩
  | nothing _ | panics _ | drain _ => exact ⟨trivial, hsealed⟩
  | normalDone hat hsome =>
    rw [hat] at hphase
    exact ⟨⟨hsome, hphase⟩, hsealed⟩
  | @seals accepted normal ordered hat horder =>
    refine ⟨trivial, ?_⟩
    rw [hat] at hphase
    obtain ⟨hsome, inputs, rfl, rfl⟩ := hphase
    have hfees : feesFit (schedule (inputs.forced env) ordered) = true := by
      by_contra hfees
      simp [Orchestrator.tick, hat, horder, hfees] at hstep
    rw [List.forall_mem_append, List.forall_mem_singleton]
    refine ⟨hsealed, inputs, o.nextBatchId, t.nowSecs,
      ⟨some (o.nextBatch (inputs.forced env) ordered t), inputs.queueAfter env,
        inputs.poolAfter env⟩, ?_, rfl⟩
    rw [produceBatch_eq, if_neg hsome]
    simp only [horder, hfees, if_true]
    rfl

/-- Whatever is added meanwhile, each batch is that of a call. -/
theorem sealed_ofCall {nextBatchId : UInt64} {events : List OrchestratorEvent} {o : Orchestrator}
    (hr : Run (OrchestratorStep env) (Orchestrator.start nextBatchId) events o) :
    ∀ batch ∈ o.sealed, batch.OfCall env := by
  refine (hr.invariant_of_step (I := Orchestrator.OfCalls env) ?_ ⟨trivial, nofun⟩).sealed
  intro o event o' h hstep
  cases event with
  | addForced tx | addPooled tx =>
    rw [← Option.some.inj hstep]
    exact ⟨h.phase, h.sealed⟩
  | tick t => exact h.tick hstep

end RollupX.Sequencer
