import Mathlib.Data.List.Sort
import RollupX.Library.KeyedTable
import RollupX.Model.Submitter.Types

/-! The outbox of the submitter (`submitter/src/saga.rs`), a table with the primary key
`batch_id`. The state is kept as such and not as the text in the column. Every operation takes
the time that it reads from the clock, in milliseconds. -/

namespace RollupX.Submitter

inductive SagaState where
  | receivedFromExecutor
  | compressed
  | submittedToL1
  | confirmedOnL1
  | failed
  deriving DecidableEq, Repr

structure BatchSagaRecord where
  batchId : Text
  state : SagaState
  txHash : Option Text
  nonce : Option ℤ
  lastUpdated : ℤ
  batchData : Option Text
  proofHex : Option Text
  originalGasPrice : Option Text
  gasBumpCount : ℤ
  deriving DecidableEq, Repr

abbrev SagaOutbox := KeyedTable BatchSagaRecord.batchId

namespace SagaOutbox

def insertOrIgnore (outbox : SagaOutbox) (now : ℤ) (batchId batchData proofHex : Text) :
    Bool × SagaOutbox :=
  KeyedTable.insertOrIgnore outbox
    { batchId
      state := .receivedFromExecutor
      txHash := none
      nonce := none
      lastUpdated := now
      batchData := some batchData
      proofHex := some proofHex
      originalGasPrice := none
      gasBumpCount := 0 }

def updateState (outbox : SagaOutbox) (now : ℤ) (batchId : Text) (state : SagaState) :
    SagaOutbox :=
  outbox.update batchId (fun r => { r with state, lastUpdated := now }) fun _ => rfl

/-- Without a gas price the one that is stored stays. -/
def updateSubmission (outbox : SagaOutbox) (now : ℤ) (batchId txHash : Text) (nonce : Option ℤ)
    (gasPrice : Option Text) : SagaOutbox :=
  outbox.update batchId
    (fun r =>
      { r with
        state := .submittedToL1
        txHash := some txHash
        nonce
        lastUpdated := now
        originalGasPrice := gasPrice.or r.originalGasPrice })
    fun _ => rfl

def updateGasBump (outbox : SagaOutbox) (now : ℤ) (batchId newTxHash : Text)
    (nonce : Option ℤ) : SagaOutbox :=
  outbox.update batchId
    (fun r =>
      { r with
        state := .submittedToL1
        txHash := some newTxHash
        nonce
        lastUpdated := now
        gasBumpCount := r.gasBumpCount + 1 })
    fun _ => rfl

def getUnconfirmedBatches (outbox : SagaOutbox) : List BatchSagaRecord :=
  (outbox.rows.filter fun r =>
    r.state = .receivedFromExecutor ∨ r.state = .compressed ∨
      r.state = .submittedToL1).insertionSort fun r r' => r.lastUpdated ≤ r'.lastUpdated

def getRecord (outbox : SagaOutbox) (batchId : Text) : Option BatchSagaRecord :=
  outbox.find batchId

end SagaOutbox

end RollupX.Submitter
