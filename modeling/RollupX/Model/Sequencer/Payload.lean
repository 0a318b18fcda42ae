import RollupX.Library.Json
import RollupX.Model.Sequencer.Admission

/-! The data of a batch as it is sent to the executor (`executor_batch_data` of
`sequencer/src/batch/orchestrator.rs`), and where the transactions of a batch come from
(`validation/validator.rs`, `l1/listener.rs`). -/

namespace RollupX.Sequencer

open Executor (Hash Address)

/-! ## Validation and the L1 listener -/

/-- `Validator::validate`, with the accounts as the cache has them; `none` where the
arithmetic panics. -/
def validate (crypto : Crypto) (cache : StateCache) (tx : UserTransaction) :
    Option (Except ValidationError Unit) :=
  match verifySignature crypto tx with
  | .error e => some (.error e)
  | .ok () =>
    match checkNonce cache tx with
    | .error e => some (.error e)
    | .ok () => checkBalance cache tx

/-- The log of an L1 event that the bridge emits. -/
structure L1Log where
  sender : Address
  receiver : Address
  value : U256
  transactionHash : Option Hash
  blockNumber : Option UInt64
  deriving DecidableEq, Repr

/-- The transaction that `handle_deposit_event` adds to the queue. -/
def handleDepositEvent (log : L1Log) (nowSecs : UInt64) : ForcedTransaction where
  txHash := log.transactionHash.getD (Vector.replicate 32 0)
  sender := log.sender
  receiver := log.receiver
  value := log.value
  nonce := 0
  gasLimit := 21000
  l1TxHash := log.transactionHash.getD (Vector.replicate 32 0)
  l1BlockNumber := log.blockNumber.getD 0
  eventType := .deposit
  timestamp := nowSecs

/-! ## JSON -/

def U256.toJson (x : U256) : Json :=
  .string (Hex.quantity x.toNat)

def addressToJson (a : Address) : Json :=
  .string (Hex.bytes a.toList)

def u64ToJson (x : UInt64) : Json :=
  .number x.toNat

def Signature.toJson (sig : Signature) : Json :=
  .object [("r", sig.r.toJson), ("s", sig.s.toJson), ("v", u64ToJson sig.v)]

def UserTransaction.toJson (tx : UserTransaction) : Json :=
  .object
    [("from", addressToJson tx.sender), ("to", addressToJson tx.receiver),
      ("value", tx.value.toJson), ("nonce", u64ToJson tx.nonce),
      ("gas_price", tx.gasPrice.toJson), ("gas_limit", u64ToJson tx.gasLimit),
      ("signature", tx.signature.toJson), ("timestamp", u64ToJson tx.timestamp),
      ("boost_bid", match tx.boostBid with
        | some bid => bid.toJson
        | none => .null)]

/-- The pool's own fields and those about L1 are not sent. -/
def Transaction.toExecutorJson : Transaction → Json
  | .normal ptx => .object [("Normal", ptx.tx.toJson)]
  | .forced ftx =>
    .object [("Forced", .object
      [("from", addressToJson ftx.sender), ("to", addressToJson ftx.receiver),
        ("value", ftx.value.toJson), ("nonce", u64ToJson ftx.nonce),
        ("gas_limit", u64ToJson ftx.gasLimit), ("timestamp", u64ToJson ftx.timestamp)])]

def executorBatchData {β : Type*} (text : JsonText β) (batch : Batch) : β :=
  text.write (.array (batch.transactions.map Transaction.toExecutorJson))

end RollupX.Sequencer
