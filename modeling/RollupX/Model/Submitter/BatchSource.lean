import RollupX.Library.Broadcast
import RollupX.Model.Executor.Service
import RollupX.Model.Submitter.Types

/-! The stream of batches from the executor to the submitter (`stream_batches` of
`executor/src/service.rs`, `submitter/src/infrastructure/batch_source.rs`), for a submitter
that stays connected. -/

namespace RollupX.Submitter

open Machine
open Executor (BatchData BatchPayload Service ServiceEnv ServiceEvent)

variable {S : Type*}

def bytesToH256 (b : List UInt8) : Option H256 :=
  if h : b.length = 32 then some ⟨b.toArray, H256.size_toArray h⟩ else none

/-- The bytes of the field `batch_data`; `toVec` is `serde_json::to_vec`. -/
def batchDataBytes (toVec : List Executor.Transaction → List UInt8) :
    BatchData → List UInt8
  | .raw bytes => bytes
  | .executed txs => toVec txs

/-- What `next_batch` makes of a payload. A payload with a root of another length is passed
over. -/
def FetchedBatch.ofPayload (toVec : List Executor.Transaction → List UInt8)
    (payload : BatchPayload) : Option FetchedBatch := do
  let preRoot ← bytesToH256 payload.preStateRoot
  let postRoot ← bytesToH256 payload.postStateRoot
  pure
    { batchId := payload.batchId.toList
      batchData := batchDataBytes toVec payload.batchData
      preStateRoot := preRoot
      postStateRoot := postRoot
      daCommitment := hexText payload.daCommitment
      proof := payload.proof
      experimentId := if payload.experimentId.isEmpty then none
        else some payload.experimentId.toList }

/-- The executor, the receiver that `stream_batches` has made for the submitter, and the
batches that `next_batch` has returned. -/
structure GrpcBatchSource (S : Type*) where
  service : Service S
  feed : Feed BatchPayload
  fetched : List FetchedBatch

namespace GrpcBatchSource

def subscribe (σ : Service S) : GrpcBatchSource S where
  service := { σ with subscribers := σ.subscribers + 1 }
  feed := ⟨σ.stream.length, []⟩
  fetched := []

inductive Event where
  | executor (event : ServiceEvent)
  | read
  deriving DecidableEq, Repr

/-- The executor takes a step, or one message is asked of the receiver. The filter of
`stream_batches` hands payloads on and drops what the receiver reports as missed. -/
def step (toVec : List Executor.Transaction → List UInt8) (env : ServiceEnv S) (capacity : ℕ)
    (g : GrpcBatchSource S) : Event → Option (GrpcBatchSource S)
  | .executor event => (g.service.step env event).map fun σ => { g with service := σ }
  | .read =>
    let feed := g.feed.read capacity g.service.stream
    let payloads := feed.received.drop g.feed.received.length
    some { g with
      feed := feed
      fetched := g.fetched ++ payloads.filterMap (FetchedBatch.ofPayload toVec) }

def Step (toVec : List Executor.Transaction → List UInt8) (env : ServiceEnv S) (capacity : ℕ)
    (g : GrpcBatchSource S) (event : Event) (g' : GrpcBatchSource S) : Prop :=
  g.step toVec env capacity event = some g'

end GrpcBatchSource

end RollupX.Submitter
