import RollupX.Model.Executor.State

/-! The transaction engine of the executor (`executor/src/tx_engine.rs`). -/

namespace RollupX.Executor

def recoveryIdFromByte (b : UInt8) : Option UInt8 :=
  if b ≤ 3 then some b else none

def allowUnsigned (rt : Runtime) : Bool :=
  match rt.allowUnsignedUserTxs with
  | some v => v == "1" || eqIgnoreAsciiCase v "true"
  | none => false

def verifySignature (rt : Runtime) (tx : Transaction) : Bool :=
  if tx.signature.isEmpty then allowUnsigned rt
  else if tx.signature.length ≠ 65 then false
  else
    let v := tx.signature.getD 64 0
    let normalizedV := if v ≥ 27 then v - 27 else v
    match recoveryIdFromByte normalizedV with
    | none => false
    | some recoveryId =>
      match rt.recoverKey (txHashPrehash rt tx) (tx.signature.take 64) recoveryId with
      | none => false
      | some pubkey => (rt.keccak256 (pubkey.drop 1)).toList.drop 12 == tx.sender.toList

/-- Why a transaction of a batch is not included. -/
inductive Rejection where
  | invalidSignature
  | invalidNonce
  | insufficientBalance
  | batchFull
  deriving DecidableEq, Repr

def Rejection.reason : Rejection → String
  | .invalidSignature => "invalid_signature"
  | .invalidNonce => "invalid_nonce"
  | .insufficientBalance => "insufficient_balance"
  | .batchFull => "batch_full"

/-- The checks of a transaction against its sender's account. -/
def rejection (rt : Runtime) (senderPre : Account) (tx : Transaction) : Option Rejection :=
  if !verifySignature rt tx then some .invalidSignature
  else if senderPre.nonce ≠ tx.nonce then some .invalidNonce
  else if senderPre.balance < tx.amount then some .insufficientBalance
  else none

/-- `usize::MAX` bounds the included transactions of all but two kinds of batch id. -/
def maxIncluded (batchId : String) : ℕ :=
  if batchId.startsWith "large1" then 10
  else if batchId.startsWith "large2" then 50
  else 18446744073709551615

def snapshot (address : Address) (account : Account) : AccountSnapshot :=
  ⟨address, account.balance, account.nonce⟩

def rejectedOutcome (rt : Runtime) (tx : Transaction) (sender receiver : Account)
    (why : Rejection) : TxExecutionOutcome where
  txHash := txHashPrehash rt tx
  included := false
  rejectionReason := some why.reason
  senderPre := snapshot tx.sender sender
  senderPost := snapshot tx.sender sender
  receiverPre := snapshot tx.receiver receiver
  receiverPost := snapshot tx.receiver receiver

def includedOutcome (rt : Runtime) (tx : Transaction)
    (sender newSender receiver newReceiver : Account) : TxExecutionOutcome where
  txHash := txHashPrehash rt tx
  included := true
  rejectionReason := none
  senderPre := snapshot tx.sender sender
  senderPost := snapshot tx.sender newSender
  receiverPre := snapshot tx.receiver receiver
  receiverPost := snapshot tx.receiver newReceiver

def debited (tx : Transaction) (sender : Account) : Account :=
  ⟨sender.balance - tx.amount, Bytes.saturatingAdd sender.nonce 1⟩

def credited (tx : Transaction) (receiver : Account) : Account :=
  ⟨Bytes.saturatingAdd receiver.balance tx.amount, receiver.nonce⟩

/-- The store and the accumulators of the loop over the transactions of a batch. -/
structure BatchLoop (S : Type*) where
  state : S
  proverRoot : Hash
  executed : List Transaction
  diffs : List StateDiff
  outcomes : List TxExecutionOutcome

variable {S : Type*}

def BatchLoop.start (mgr : StateManager S) (s : S) : BatchLoop S :=
  ⟨s, mgr.currentRoot s, [], [], []⟩

/-- The diff of a write, with the running root in place of the store's own proof. -/
def withRoot (diff : StateDiff) (rootBefore : Hash) : StateDiff :=
  { diff with merkleProof := [rootBefore] }

/-- One iteration of the loop, given the two accounts, which are read before either is written,
and what the two writes of the store do. -/
def executeTxUsing {E : Type*} (rt : Runtime) (batchId : String) (sender receiver : Account)
    (setSender setReceiver : S → Address → Account → Except E (StateDiff × S))
    (l : BatchLoop S) (tx : Transaction) : Except E (BatchLoop S) :=
  match rejection rt sender tx with
  | some why => .ok { l with outcomes := l.outcomes ++ [rejectedOutcome rt tx sender receiver why] }
  | none =>
    if maxIncluded batchId ≤ l.executed.length then
      .ok { l with outcomes := l.outcomes ++ [rejectedOutcome rt tx sender receiver .batchFull] }
    else
      match setSender l.state tx.sender (debited tx sender) with
      | .error e => .error e
      | .ok (senderDiff, s) =>
        let senderDiff := withRoot senderDiff l.proverRoot
        let root := foldDiff rt.sha256 l.proverRoot senderDiff
        match setReceiver s tx.receiver (credited tx receiver) with
        | .error e => .error e
        | .ok (receiverDiff, s) =>
          let receiverDiff := withRoot receiverDiff root
          .ok
            { state := s
              proverRoot := foldDiff rt.sha256 root receiverDiff
              executed := l.executed ++ [tx]
              diffs := l.diffs ++ [senderDiff, receiverDiff]
              outcomes := l.outcomes ++ [includedOutcome rt tx sender (debited tx sender)
                receiver (credited tx receiver)] }

def executeTx (rt : Runtime) (mgr : StateManager S) (batchId : String)
    (l : BatchLoop S) (tx : Transaction) : Except (ExecutorError × S) (BatchLoop S) :=
  executeTxUsing rt batchId (mgr.getAccount l.state tx.sender)
    (mgr.getAccount l.state tx.receiver) mgr.setAccount mgr.setAccount l tx

def buildTrace (rt : Runtime) (batchId : String) (initialRoot : Hash) (l : BatchLoop S) :
    ExecutionTraceV1 where
  traceId := buildTraceId rt batchId initialRoot l.proverRoot
  schemaVersion := 1
  batchId := batchId
  createdAt := rt.nowUnixSecs
  executorBuildId := rt.executorBuildId.getD "dev"
  publicInputs :=
    { initialRoot := initialRoot
      finalRoot := l.proverRoot
      txCommitment := txCommitment rt l.outcomes
      stateDiffCommitment := stateDiffCommitment rt l.diffs }
  executedTransactions := l.executed
  txOutcomes := l.outcomes
  stateDiffs := l.diffs
  proverContext :=
    { guestMethodId := rt.risc0GuestMethodId.getD "unknown"
      expectedJournalHash := expectedJournalHash rt initialRoot l.proverRoot
      backendConfigFingerprint := backendConfigFingerprint rt }

/-- `SimpleTransactionEngine::execute_batch`: the store afterwards, also when a write
fails, and the result. -/
def executeBatch (rt : Runtime) (mgr : StateManager S) (s : S) (batchId : String)
    (transactions : List Transaction) : S × Except ExecutorError ExecutionTraceV1 :=
  match transactions.foldlM (executeTx rt mgr batchId) (BatchLoop.start mgr s) with
  | .error (e, s') => (s', .error e)
  | .ok l => (l.state, .ok (buildTrace rt batchId (mgr.currentRoot s) l))

end RollupX.Executor
