import RollupX.Model.Submitter.Outbox
import RollupX.Model.Submitter.Strategies

/-! The submitter daemon (`submitter/src/daemon.rs`), from one access to the outside to the
next: the process may stop between any two of them and be started again with the outbox and
the files as they then are. Metrics and log lines are left out. -/

namespace RollupX.Submitter

open Contracts.Bridge (CommitArgs)

/-! ## Gas bumps -/

/-- A transaction as `get_transaction` gives it, with what is read of it. -/
structure L1Transaction where
  nonce : ℕ
  gasPrice : Option ℕ
  transactionType : Option ℕ
  maxFeePerGas : Option ℕ
  maxPriorityFeePerGas : Option ℕ
  deriving DecidableEq, Repr

/-- `TypedTransaction` of ethers, with its nonce and its prices. -/
inductive TypedTransaction where
  | legacy (nonce : ℕ) (gasPrice : Option ℕ)
  | eip2930 (nonce : ℕ) (gasPrice : Option ℕ)
  | eip1559 (nonce : ℕ) (maxFeePerGas maxPriorityFeePerGas : Option ℕ)
  deriving DecidableEq, Repr

/-- The value of an operation on `U256`, which panics when it overflows. -/
def u256 (n : ℕ) : Option ℕ :=
  if n < 2 ^ 256 then some n else none

inductive Bump where
  | giveUp
  | send (tx : L1Transaction)
  deriving DecidableEq, Repr

/-- The nonce stays, the gas price grows by a fifth, to at most three times the first one.
`none` where the arithmetic panics. -/
def bumpGas (record : BatchSagaRecord) (tx : L1Transaction) : Option Bump := do
  let nonce ← match record.nonce with
    | some n => if 0 ≤ n then some n.toNat else none
    | none => some tx.nonce
  match tx.gasPrice with
  | none => some (.send { tx with nonce })
  | some currentGasPrice =>
    let newGasPrice ← u256 (currentGasPrice + currentGasPrice / 5)
    match record.originalGasPrice.bind u256FromDecStr with
    | none => some (.send { tx with nonce, gasPrice := some newGasPrice })
    | some origGp =>
      let maxGasPrice ← u256 (origGp * 3)
      if maxGasPrice < newGasPrice then
        let scaled ← u256 (maxGasPrice * 99)
        if scaled / 100 ≤ currentGasPrice then some .giveUp
        else some (.send { tx with nonce, gasPrice := some maxGasPrice })
      else some (.send { tx with nonce, gasPrice := some newGasPrice })

def nonceColumn (nonce : ℕ) : ℤ :=
  let low : ℕ := nonce % 2 ^ 64
  if low < 2 ^ 63 then (low : ℤ) else (low : ℤ) - 2 ^ 64

/-! ## State -/

/-- A call of `submit` that has returned: what it was asked for, the contents of the data file
at that time, what it sent, and its result. The code keeps no such list. -/
structure Submission where
  recovered : Bool
  batch : Batch
  proofHex : Text
  verifierId : UInt8
  data : Option (List UInt8)
  sent : Option (CommitArgs × Sending)
  result : Except DomainError SubmissionResult

/-- Where `run` stands: in the scan of the outbox, in the submission of the batches found
there, in the wait for the next batch, or on the way of a new batch with its fresh id. -/
inductive Activity where
  | scanning (record : BatchSagaRecord) (rest : List BatchSagaRecord)
      (batchesToResume : List (Batch × Text))
  | bumped (record : BatchSagaRecord) (newHash : H256) (rest : List BatchSagaRecord)
      (batchesToResume : List (Batch × Text))
  | resuming (batch : Batch) (proofHex : Text) (queue : List (Batch × Text))
  | resumed (batch : Batch) (result : SubmissionResult) (tx : Option L1Transaction)
      (queue : List (Batch × Text))
  | resumedSubmitted (batch : Batch) (queue : List (Batch × Text))
  | polling
  | received (fetched : FetchedBatch) (id : BatchId)
  | written (fetched : FetchedBatch) (id : BatchId)
  | compressed (fetched : FetchedBatch) (id : BatchId)
  | submitted (fetched : FetchedBatch) (result : SubmissionResult) (tx : Option L1Transaction)
  | confirming (fetched : FetchedBatch)
  | cleaning (fetched : FetchedBatch)
  deriving DecidableEq

/-- The loop over the batches to resume. -/
def Activity.resume : List (Batch × Text) → Activity
  | [] => .polling
  | (batch, proofHex) :: queue => .resuming batch proofHex queue

/-- The loop over the records of the outbox. -/
def Activity.scan : List BatchSagaRecord → List (Batch × Text) → Activity
  | [], batchesToResume => .resume batchesToResume
  | record :: rest, batchesToResume => .scanning record rest batchesToResume

inductive Phase where
  | stopped
  | running (cfg : Config) (activity : Activity)
  deriving DecidableEq

structure Daemon where
  outbox : SagaOutbox
  files : Files
  submissions : List Submission
  phase : Phase

namespace Daemon

def initial : Daemon :=
  ⟨.empty, fun _ => none, [], .stopped⟩

def halt (d : Daemon) : Daemon :=
  { d with phase := .stopped }

def enter (d : Daemon) (cfg : Config) (activity : Activity) : Daemon :=
  { d with phase := .running cfg activity }

end Daemon

/-- A write to the outbox at some time, which may fail. -/
structure OutboxWrite where
  now : ℤ
  succeeds : Bool
  deriving DecidableEq, Repr

def Daemon.write (d : Daemon) (w : OutboxWrite) (f : ℤ → SagaOutbox → SagaOutbox) : Daemon :=
  if w.succeeds then { d with outbox := f w.now d.outbox } else d

/-! ## Events -/

/-- The next access to the outside, with its outcome. -/
inductive DaemonEvent where
  /-- A new process; `queried` tells whether the query of the outbox succeeds. -/
  | start (cfg : Config) (queried : Bool)
  | stop
  /-- The next record of the scan: the transaction found under its hash, how sending the
  bumped one ends, and the write that gives the batch up. -/
  | scan (now : ℤ) (tx : Option L1Transaction) (sending : Except String H256) (w : OutboxWrite)
  /-- A call of `submit`, and the transaction found afterwards under the hash it returns. -/
  | submit (answers : Answers) (tx : Option L1Transaction)
  | write (w : OutboxWrite)
  /-- `next_batch` returns; `looked` tells whether the lookup in the outbox succeeds. -/
  | deliver (fetched : FetchedBatch) (id : BatchId) (looked : Bool) (w : OutboxWrite)
  | fetchFailed
  | writeFile (outcome : FileWrite)
  | removeFile (removed : Bool)

/-! ## Steps -/

/-- A record in one of the first two states, with its batch and its proof. -/
def BatchSagaRecord.toResume (rt : Runtime) (record : BatchSagaRecord) :
    Option (Batch × Text) :=
  if record.state = .receivedFromExecutor ∨ record.state = .compressed then do
    let dataJson ← record.batchData
    let proof ← record.proofHex
    let batch ← rt.batchFromStr dataJson
    pure (batch, proof)
  else none

/-- The transaction that a record in the third state is bumped from, once it is five minutes
old. -/
def BatchSagaRecord.stuck (record : BatchSagaRecord) (now : ℤ) (tx : Option L1Transaction) :
    Option L1Transaction :=
  if record.state = .submittedToL1 ∧ 300000 < now - record.lastUpdated then
    match record.txHash.map H256.fromStr with
    | some (.ok _) => tx
    | _ => none
  else none

def Batch.ofFetched (rt : Runtime) (fetched : FetchedBatch) (id : BatchId) : Batch where
  id := id
  dataFile := dataFileOf fetched.batchId
  newRoot := fetched.postStateRoot.debug
  status := .proving
  daMode := "calldata".toList
  proof := none
  txHash := none
  attempts := 0
  blobVersionedHash := none
  blobIndex := none
  fee := 0
  experimentId := fetched.experimentId
  txCount := UInt32.ofNat (((rt.parseTransactions fetched.batchData).map List.length).getD 0)

/-- A call of `da_strategy.submit`; `none` where it panics. -/
def Config.submit (rt : Runtime) (cfg : Config) (files : Files) (answers : Answers)
    (recovered : Bool) (batch : Batch) (proofHex : Text) (verifierId : UInt8) :
    Option (Files × Submission) :=
  let (files', prepared) :=
    cfg.daStrategy.prepare rt files answers batch proofHex verifierId
  match prepared with
  | .error .panicked => none
  | .error (.error e) =>
    some (files', ⟨recovered, batch, proofHex, verifierId, files batch.dataFile, none, .error e⟩)
  | .ok call =>
    some (files', ⟨recovered, batch, proofHex, verifierId, files batch.dataFile,
      some (call.args, answers.sending), cfg.daStrategy.finish call answers.sending⟩)

def initialGas (result : SubmissionResult) (tx : Option L1Transaction) :
    Option ℤ × Option Text :=
  match H256.fromStr result.txHash, tx with
  | .ok _, some tx => (some (nonceColumn tx.nonce), tx.gasPrice.map (Nat.toDigits 10))
  | _, _ => (none, none)

namespace Daemon

variable (rt : Runtime) (cfg : Config) (d : Daemon)

def start (queried : Bool) : Daemon :=
  match cfg.validate with
  | .error _ => d
  | .ok () => d.enter cfg (.scan (if queried then d.outbox.getUnconfirmedBatches else []) [])

def scan (record : BatchSagaRecord) (rest : List BatchSagaRecord)
    (batchesToResume : List (Batch × Text)) (now : ℤ) (tx : Option L1Transaction)
    (sending : Except String H256) (w : OutboxWrite) : Daemon :=
  match record.stuck now tx with
  | some tx =>
    match bumpGas record tx with
    | none => d.halt
    | some .giveUp =>
      (d.write w fun now outbox => outbox.updateState now record.batchId .failed).enter cfg
        (.scan rest batchesToResume)
    | some (.send _) =>
      match sending with
      | .ok newHash => d.enter cfg (.bumped record newHash rest batchesToResume)
      | .error _ => d.enter cfg (.scan rest batchesToResume)
  | none => d.enter cfg (.scan rest (batchesToResume ++ (record.toResume rt).toList))

/-- `submit` for `batch`, and where `run` goes on after its result. -/
def submit (answers : Answers) (recovered : Bool) (batch : Batch) (proofHex : Text)
    (verifierId : UInt8) (onOk : SubmissionResult → Activity) (onError : Activity) : Daemon :=
  match cfg.submit rt d.files answers recovered batch proofHex verifierId with
  | none => d.halt
  | some (files, submission) =>
    let d' := { d with files, submissions := d.submissions ++ [submission] }
    match submission.result with
    | .ok result => d'.enter cfg (onOk result)
    | .error _ => d'.enter cfg onError

def updateSubmission (w : OutboxWrite) (batchId : Text) (result : SubmissionResult)
    (tx : Option L1Transaction) : Daemon :=
  d.write w fun now outbox =>
    outbox.updateSubmission now batchId result.txHash (initialGas result tx).1
      (initialGas result tx).2

def updateState (w : OutboxWrite) (batchId : Text) (state : SagaState) : Daemon :=
  d.write w fun now outbox => outbox.updateState now batchId state

/-- A known batch is skipped, and one that cannot be inserted, too. -/
def deliver (fetched : FetchedBatch) (id : BatchId) (looked : Bool) (w : OutboxWrite) : Daemon :=
  if looked ∧ (d.outbox.getRecord fetched.batchId).isSome then d
  else if w.succeeds then
    match d.outbox.insertOrIgnore w.now fetched.batchId
        (rt.batchToString (.ofFetched rt fetched id)) (hexText fetched.proof) with
    | (true, outbox) => { d with outbox }.enter cfg (.received fetched id)
    | (false, _) => d
  else d

def writeFile (fetched : FetchedBatch) (id : BatchId) (outcome : FileWrite) : Daemon :=
  match d.files.write (dataFileOf fetched.batchId) fetched.batchData outcome with
  | (files, .ok ()) => { d with files }.enter cfg (.written fetched id)
  | (files, .error _) => { d with files }.enter cfg .polling

def removeFile (fetched : FetchedBatch) (removed : Bool) : Daemon :=
  if removed then { d with files := Function.update d.files (dataFileOf fetched.batchId) none }
  else d

/-- One access to the outside by a running process; `none` where `run` does not come to it. -/
def advance (activity : Activity) (event : DaemonEvent) : Option Daemon :=
  match activity, event with
  | .scanning record rest batchesToResume, .scan now tx sending w =>
    some (d.scan rt cfg record rest batchesToResume now tx sending w)
  | .bumped record newHash rest batchesToResume, .write w =>
    some ((d.write w fun now outbox =>
      outbox.updateSubmission now record.batchId newHash.debug record.nonce none).enter cfg
        (.scan rest batchesToResume))
  | .resuming batch proofHex queue, .submit answers tx =>
    some (d.submit rt cfg answers true batch proofHex 0
      (fun result => .resumed batch result tx queue) (.resume queue))
  | .resumed batch result tx queue, .write w =>
    some ((d.updateSubmission w batch.id.toString result tx).enter cfg
      (.resumedSubmitted batch queue))
  | .resumedSubmitted batch queue, .write w =>
    some ((d.updateState w batch.id.toString .confirmedOnL1).enter cfg (.resume queue))
  | .polling, .deliver fetched id looked w => some (d.deliver rt cfg fetched id looked w)
  | .polling, .fetchFailed => some d
  | .received fetched id, .writeFile outcome => some (d.writeFile cfg fetched id outcome)
  | .written fetched id, .write w =>
    some ((d.updateState w fetched.batchId .compressed).enter cfg (.compressed fetched id))
  | .compressed fetched id, event =>
    match cfg.verificationMode, event with
    | .offChainOnly, .write w =>
      some ((d.write w fun now outbox =>
        outbox.updateSubmission now fetched.batchId "0x_offchain_simulated".toList none
          (some ['0'])).enter cfg (.confirming fetched))
    | .onChain, .submit answers tx =>
      let proofBytes := formatProofForVerifier fetched.proof cfg.verifierId
      some (d.submit rt cfg answers false (.ofFetched rt fetched id) (hexText proofBytes)
        cfg.verifierId (fun result => .submitted fetched result tx) .polling)
    | _, _ => none
  | .submitted fetched result tx, .write w =>
    some ((d.updateSubmission w fetched.batchId result tx).enter cfg (.confirming fetched))
  | .confirming fetched, .write w =>
    some ((d.updateState w fetched.batchId .confirmedOnL1).enter cfg (.cleaning fetched))
  | .cleaning fetched, .removeFile removed =>
    some ((d.removeFile fetched removed).enter cfg .polling)
  | _, _ => none

end Daemon

def daemonStep (rt : Runtime) (d : Daemon) (event : DaemonEvent) : Option Daemon :=
  match d.phase, event with
  | .stopped, .start cfg queried => some (d.start cfg queried)
  | .stopped, _ => none
  | .running _ _, .stop => some d.halt
  | .running cfg activity, event => d.advance rt cfg activity event

end RollupX.Submitter
