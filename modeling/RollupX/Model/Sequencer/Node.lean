import RollupX.Model.Sequencer.Orchestrator

/-! The sequencer around the orchestrator: the registry of batches
(`sequencer/src/registry/database.rs`), the start of a process from it, and the publication
of a batch to the executor (`publish_batch_to_executor`).

The queue, the pool and the next id are lost with the process. Only the registry stays. -/

namespace RollupX.Sequencer

/-! ## Registry -/

abbrev Registry := List ℤ

def asI64 (x : UInt64) : ℤ :=
  x.toBitVec.toInt

def asU64 (x : ℤ) : UInt64 :=
  ⟨BitVec.ofInt 64 x⟩

/-- The `INSERT` of `store`. It fails for an id that the table has. -/
def Registry.store (registry : Registry) (batchId : UInt64) : Registry :=
  if asI64 batchId ∈ registry then registry else registry ++ [asI64 batchId]

def Registry.getNextBatchId (registry : Registry) : UInt64 :=
  match registry.max? with
  | some maximum => asU64 maximum + 1
  | none => 1

/-! ## Publication -/

/-- How one attempt ends: with an answer of the executor, or with an error or a timeout,
and then the payload may have reached the executor or not. -/
inductive PublishOutcome where
  | response (accepted : Bool)
  | failed (delivered : Bool)
  deriving DecidableEq, Repr

def PublishOutcome.delivered : PublishOutcome → Bool
  | .response _ => true
  | .failed delivered => delivered

/-- `publishRetries` is the variable `SEQUENCER_EXECUTOR_PUBLISH_RETRIES`, if it is set to a
number of 32 bits. -/
structure NodeEnv where
  orchestrator : OrchestratorEnv
  publishRetries : Option ℕ

def NodeEnv.attempts (env : NodeEnv) : ℕ :=
  match env.publishRetries with
  | some retries => if 0 < retries then retries else 5
  | none => 5

/-! ## Process -/

/-- A running process. `stored` and `attempt` say how far `start` has come with the batch
that was sealed last, and `sent` whether the batch has reached the executor. -/
structure Process where
  orchestrator : Orchestrator
  stored : Bool
  attempt : ℕ
  sent : Bool
  deriving DecidableEq, Repr

def Process.start (nextBatchId : UInt64) : Process :=
  ⟨Orchestrator.start nextBatchId, false, 0, false⟩

def Process.batch (p : Process) : Option Batch :=
  p.orchestrator.sealed.getLast?

/-- The metadata are stored before the bookkeeping goes on, and the publication is made of
attempts. -/
def Process.permits (p : Process) : OrchestratorEvent → Bool
  | .tick _ =>
    match p.orchestrator.phase with
    | .bookkeeping => p.stored
    | .publishing => false
    | _ => true
  | _ => true

/-- `published` lists the batches that reached the executor, each once, and `accepted` those
for which it answered `accepted`. -/
structure Node where
  registry : Registry
  process : Option Process
  published : List Batch
  accepted : List Batch
  deriving DecidableEq, Repr

inductive NodeEvent where
  | start (registryRead : Bool)
  | stop
  | orchestrator (event : OrchestratorEvent)
  | store (succeeds : Bool)
  | publish (outcome : PublishOutcome)
  deriving DecidableEq, Repr

def Node.init : Node :=
  ⟨[], none, [], []⟩

/-- The publication ends with an answer or with the last attempt. -/
def Process.publicationOver (env : NodeEnv) (p : Process) : PublishOutcome → Bool
  | .response _ => true
  | .failed _ => env.attempts ≤ p.attempt + 1

def Process.publish (env : NodeEnv) (p : Process) (outcome : PublishOutcome) : Process :=
  if p.publicationOver env outcome then
    ⟨{ p.orchestrator with phase := .loopTop }, false, 0, false⟩
  else { p with attempt := p.attempt + 1, sent := p.sent || outcome.delivered }

def Node.step (env : NodeEnv) (n : Node) : NodeEvent → Option Node
  | .start registryRead =>
    match n.process with
    | some _ => none
    | none =>
      let nextBatchId := if registryRead then n.registry.getNextBatchId else 1
      some { n with process := some (Process.start nextBatchId) }
  | .stop => n.process.map fun _ => { n with process := none }
  | .orchestrator event =>
    match n.process with
    | none => none
    | some p =>
      if p.permits event then
        (p.orchestrator.step env.orchestrator event).map fun o =>
          { n with process := some { p with orchestrator := o } }
      else none
  | .store succeeds =>
    match n.process with
    | none => none
    | some p =>
      if p.orchestrator.phase = .bookkeeping ∧ p.stored = false then
        p.batch.map fun batch => { n with
          registry := if succeeds then n.registry.store batch.batchId else n.registry
          process := some { p with stored := true } }
      else none
  | .publish outcome =>
    match n.process with
    | none => none
    | some p =>
      if p.orchestrator.phase = .publishing then
        p.batch.map fun batch => { n with
          process := some (p.publish env outcome)
          published := if outcome.delivered && !p.sent then n.published ++ [batch]
            else n.published
          accepted := if outcome = .response true then n.accepted ++ [batch]
            else n.accepted }
      else none

def NodeStep (env : NodeEnv) (n : Node) (event : NodeEvent) (n' : Node) : Prop :=
  n.step env event = some n'

end RollupX.Sequencer
