import RollupX.Library.Run
import RollupX.Model.Sequencer.Orchestrator

/-! What one step of the orchestrator can do. -/

namespace RollupX.Sequencer

open Machine

def OrchestratorPhase.watching : OrchestratorPhase → Bool
  | .loopTop => true
  | .checkSize => true
  | .checkBlob _ => true
  | .checkTimeout _ => true
  | .triggered _ => true
  | .publishing => true
  | _ => false

def maxNormal (env : OrchestratorEnv) (accepted : List ForcedTransaction) (depth : ℕ) : ℕ :=
  env.config.targetBatchSizeForDepth depth - accepted.length

def maxBlobBytes (env : OrchestratorEnv) (accepted : List ForcedTransaction) : ℕ :=
  env.config.blobTargetBytes -
    (accepted.map fun tx => (Transaction.forced tx).estimatedEncodedBytes).sum

def takePooled (env : OrchestratorEnv) (accepted : List ForcedTransaction) (depth : ℕ)
    (pool : List PooledTransaction) : List PooledTransaction × List PooledTransaction :=
  if env.policy.name = "BlobPacking" then
    takeBlobPacked (maxNormal env accepted depth) (maxBlobBytes env accepted) pool
  else (pool.take (maxNormal env accepted depth), pool.drop (maxNormal env accepted depth))

def Orchestrator.nextBatch (o : Orchestrator) (accepted : List ForcedTransaction)
    (ordered : List PooledTransaction) (t : Tick) : Batch :=
  ⟨o.nextBatchId, schedule accepted ordered, Vector.replicate 32 0, t.nowSecs⟩

/-- The kinds of ticks. -/
inductive TickEffect (env : OrchestratorEnv) (o : Orchestrator) (t : Tick) :
    Orchestrator → Prop where
  | watch {phase} : o.phase.watching = true → phase.watching = true → phase ≠ .publishing →
      TickEffect env o t { o with phase }
  | takeForced {reason} : o.phase = .triggered reason →
      TickEffect env o t { o with
        queue := []
        phase := .requeueForced (selectForced env.config o.queue).1
          (selectForced env.config o.queue).2 }
  | putBackForced {accepted tx deferred} : o.phase = .requeueForced accepted (tx :: deferred) →
      TickEffect env o t { o with
        queue := o.queue ++ [tx]
        phase := .requeueForced accepted deferred }
  | forcedDone {accepted} : o.phase = .requeueForced accepted [] →
      TickEffect env o t { o with phase := .countPool accepted }
  | counted {accepted} : o.phase = .countPool accepted →
      TickEffect env o t { o with phase := .takeNormal accepted o.pool.length }
  | takeNormal {accepted depth} : o.phase = .takeNormal accepted depth →
      TickEffect env o t { o with
        pool := (takePooled env accepted depth o.pool).2
        phase := .requeueNormal accepted
          (selectNormal env.config accepted (takePooled env accepted depth o.pool).1).1
          (selectNormal env.config accepted (takePooled env accepted depth o.pool).1).2 }
  | putBackNormal {accepted normal tx deferred} :
      o.phase = .requeueNormal accepted normal (tx :: deferred) →
      TickEffect env o t { o with
        pool := o.pool ++ [tx]
        phase := .requeueNormal accepted normal deferred }
  | nothing : o.phase = .requeueNormal [] [] [] →
      TickEffect env o t { o with phase := .loopTop }
  | normalDone {accepted normal} : o.phase = .requeueNormal accepted normal [] →
      ¬(accepted = [] ∧ normal = []) →
      TickEffect env o t { o with phase := .sealing accepted normal }
  | seals {accepted normal ordered} : o.phase = .sealing accepted normal →
      env.policy.orderTransactions normal = some ordered →
      TickEffect env o t { o with
        nextBatchId := o.nextBatchId + 1
        sealed := o.sealed ++ [o.nextBatch accepted ordered t]
        phase := .bookkeeping }
  | panics {accepted normal} : o.phase = .sealing accepted normal →
      TickEffect env o t { o with phase := .panicked }
  | drain : o.phase = .bookkeeping →
      TickEffect env o t { o with queue := [], phase := .publishing }

theorem tick_effect {env : OrchestratorEnv} {o o' : Orchestrator} {t : Tick}
    (hstep : o.tick env t = some o') : TickEffect env o t o' := by
  unfold Orchestrator.tick at hstep
  cases hphase : o.phase with
  | loopTop | checkSize | checkBlob count | checkTimeout count =>
    simp only [hphase, Option.some.injEq] at hstep
    subst hstep
    exact .watch (by rw [hphase]; rfl) (by split_ifs <;> rfl) (by split_ifs <;> nofun)
  | triggered reason =>
    simp only [hphase, Option.some.injEq] at hstep
    subst hstep
    exact .takeForced hphase
  | requeueForced accepted deferred =>
    cases deferred with
    | nil =>
      simp only [hphase, Option.some.injEq] at hstep
      subst hstep
      exact .forcedDone hphase
    | cons tx deferred =>
      simp only [hphase, Option.some.injEq] at hstep
      subst hstep
      exact .putBackForced hphase
  | countPool accepted =>
    simp only [hphase, Option.some.injEq] at hstep
    subst hstep
    exact .counted hphase
  | takeNormal accepted depth =>
    simp only [hphase, Option.some.injEq] at hstep
    subst hstep
    exact .takeNormal hphase
  | requeueNormal accepted normal deferred =>
    cases deferred with
    | nil =>
      simp only [hphase, Option.some.injEq] at hstep
      subst hstep
      by_cases hnone : accepted = [] ∧ normal = []
      · rw [if_pos hnone]
        exact .nothing (by rw [hphase, hnone.1, hnone.2])
      · rw [if_neg hnone]
        exact .normalDone hphase hnone
    | cons tx deferred =>
      simp only [hphase, Option.some.injEq] at hstep
      subst hstep
      exact .putBackNormal hphase
  | sealing accepted normal =>
    simp only [hphase] at hstep
    split at hstep
    · cases hstep
      exact .panics hphase
    · rename_i ordered hordered
      split at hstep
      · cases hstep
        exact .seals hphase hordered
      · cases hstep
        exact .panics hphase
  | bookkeeping =>
    simp only [hphase, Option.some.injEq] at hstep
    subst hstep
    exact .drain hphase
  | publishing =>
    simp only [hphase, Option.some.injEq] at hstep
    subst hstep
    exact .watch (by rw [hphase]; rfl) rfl nofun
  | panicked => simp [hphase] at hstep

theorem OrchestratorStep.panicked {env : OrchestratorEnv} {o o' : Orchestrator}
    {event : OrchestratorEvent} (hstep : OrchestratorStep env o event o')
    (h : o.phase = .panicked) : o'.phase = .panicked := by
  cases event with
  | addForced tx | addPooled tx =>
    rw [← Option.some.inj hstep]
    exact h
  | tick t => simp [OrchestratorStep, Orchestrator.step, Orchestrator.tick, h] at hstep

end RollupX.Sequencer
