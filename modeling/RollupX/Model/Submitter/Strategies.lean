import RollupX.Model.Contracts.Bridge
import RollupX.Model.Submitter.Compression

/-! The three data availability strategies of the submitter
(`submitter/src/infrastructure/da_calldata.rs`, `da_blob.rs` and `da_offchain.rs`).
Latencies, counters and `check_confirmation`, which the daemon does not call, are left out. -/

namespace RollupX.Submitter

open Contracts (Bytes32)
open Contracts.Bridge (CommitArgs)

/-- What the submitter takes from libraries: Keccak-256, zlib at its default level, and
`serde_json` for the transactions of a batch and for the batch that is kept in the outbox. -/
structure Runtime where
  keccak256 : List UInt8 → H256
  zlib : List UInt8 → List UInt8
  parseTransactions : List UInt8 → Option (List Value)
  batchToString : Batch → Text
  batchFromStr : Text → Option Batch

/-- The other kinds of `DomainError` are not raised here. -/
inductive DomainError where
  | da (message : String)
  deriving DecidableEq, Repr

/-! ## Files -/

/-- The contents of the files in the working directory. -/
abbrev Files := Text → Option (List UInt8)

/-- How a write ends: in full, or with an error that leaves something in the file, or no
file at all. -/
inductive FileWrite where
  | done
  | failed (message : String) (left : Option (List UInt8))
  deriving DecidableEq, Repr

def Files.write (files : Files) (path : Text) (contents : List UInt8) :
    FileWrite → Files × Except String Unit
  | .done => (Function.update files path (some contents), .ok ())
  | .failed message left => (Function.update files path left, .error message)

def Files.read (files : Files) (path : Text) : Except String (List UInt8) :=
  match files path with
  | some contents => .ok contents
  | none => .error "No such file or directory (os error 2)"

/-! ## What the strategies are told -/

structure Receipt where
  status : Option ℕ
  blockNumber : Option ℕ
  gasUsed : Option ℕ
  deriving DecidableEq, Repr

/-- How sending a transaction and awaiting it ends. A mined transaction gives its receipt,
whatever the status in it. -/
inductive Sending where
  | failed (message : String)
  | receiptFailed (txHash : H256) (message : String)
  | dropped (txHash : H256)
  | mined (txHash : H256) (receipt : Receipt)
  deriving DecidableEq, Repr

inductive ArchiverReply where
  | failed (message : String)
  | rejected (status : String)
  | accepted
  deriving DecidableEq, Repr

/-- The answers to one call of `submit`. -/
structure Answers where
  archiver : ArchiverReply
  createStore : Except String Unit
  writeStore : FileWrite
  sending : Sending

/-! ## The call -/

inductive DaStrategy where
  | calldata (compressionMode : Option CompressionMode)
  | blob (blobVersionedHash : H256) (blobIndex : UInt8) (archiverUrl : Option String)
  | offChain (storeDir : Text)
  deriving DecidableEq, Repr

def offchainStore : Text :=
  ['o', 'f', 'f', 'c', 'h', 'a', 'i', 'n', '_', 's', 't', 'o', 'r', 'e']

/-- The strategy that `run` sets up. -/
def Config.daStrategy (cfg : Config) : DaStrategy :=
  match cfg.da.mode with
  | .calldata => .calldata (cfg.aggregator.bind AggregatorConfig.compression)
  | .blob =>
    let defaultHash := cfg.batch.blobVersionedHash.getD
      "0x0000000000000000000000000000000000000000000000000000000000000000".toList
    let vh := match H256.fromStr defaultHash with
      | .ok h => h
      | .error _ => Vector.replicate 32 0
    .blob vh (cfg.da.blobIndex.getD 0) cfg.da.archiverUrl
  | .offChain => .offChain offchainStore

def DaStrategy.daId : DaStrategy → UInt8
  | .calldata _ => 0
  | .blob _ _ _ => 1
  | .offChain _ => 2

/-- The error of the text that the two kinds of parsers and the file system put after it. -/
def daError (context message : String) : DomainError :=
  .da (context ++ ": " ++ message)

def readBatchFile (files : Files) (batch : Batch) : Except DomainError (List UInt8) :=
  (files.read batch.dataFile).mapError (daError "Failed to read batch file")

def decodeProof (proofHex : Text) : Except DomainError (List UInt8) :=
  (decodeHexText proofHex).mapError fun e => daError "Invalid proof hex" e.message

def toBytes32 (bytes : List UInt8) : Bytes32 :=
  BitVec.ofNat 256 (Bytes.ofBe bytes)

def decodeRoot (newRoot : Text) : Except DomainError Bytes32 := do
  let rootBytes ← (decodeHexText newRoot).mapError fun e => daError "Invalid new root hex" e.message
  if rootBytes.length ≠ 32 then
    .error (.da ("New Root must be 32 bytes, got " ++ toString rootBytes.length))
  else pure (toBytes32 rootBytes)

def CompressionMode.apply (rt : Runtime) (mode : Option CompressionMode) (data : List UInt8) :
    List UInt8 :=
  if mode.isSome then rt.zlib data else data

def blobHash (blobVersionedHash : H256) (batch : Batch) : Except DomainError H256 :=
  match batch.blobVersionedHash with
  | some text =>
    (H256.fromStr text).mapError fun e => daError "Invalid blob versioned hash" e.message
  | none => .ok blobVersionedHash

def DaStrategy.computeCommitment (rt : Runtime) (files : Files) (batch : Batch) :
    DaStrategy → Except DomainError H256
  | .calldata mode => do
      let data ← readBatchFile files batch
      pure (rt.keccak256 (CompressionMode.apply rt mode data))
  | .blob hash _ _ => blobHash hash batch
  | .offChain _ => do
      let data ← readBatchFile files batch
      pure (rt.keccak256 data)

/-- `abi.encode(versioned_hash, blob_index)` for a blob, the hash of the data off chain. -/
def DaStrategy.encodeDaMeta (rt : Runtime) (files : Files) (batch : Batch)
    (strategy : DaStrategy) : Except DomainError (List UInt8) :=
  match strategy with
  | .calldata _ => .ok []
  | .blob blobVersionedHash blobIndex _ => do
      let hash ← blobHash blobVersionedHash batch
      pure (hash.toList ++ Bytes.be 32 (batch.blobIndex.getD blobIndex).toNat)
  | .offChain _ => do
      let commitment ← strategy.computeCommitment rt files batch
      pure commitment.toList

/-- A call of `commitBatch` that is ready to be sent, and the measurements of it. -/
structure PreparedCall where
  args : CommitArgs
  compressedBytes : ℕ
  gasSaved : Option ℕ
  deriving DecidableEq, Repr

inductive Failure where
  | error (e : DomainError)
  | panicked
  deriving DecidableEq, Repr

def archive (archiverUrl : Option String) (reply : ArchiverReply) : Except DomainError Unit :=
  match archiverUrl, reply with
  | none, _ => .ok ()
  | some _, .failed message => .error (daError "Archiver request failed" message)
  | some _, .rejected status => .error (daError "Archiver rejected payload" status)
  | some _, .accepted => .ok ()

section Prepare

variable (rt : Runtime) (files : Files) (answers : Answers) (batch : Batch) (proofHex : Text)
  (verifierId : UInt8)

def prepareCalldata (mode : Option CompressionMode) : Except DomainError PreparedCall := do
  let proof ← decodeProof proofHex
  let data ← readBatchFile files batch
  let batchData := CompressionMode.apply rt mode data
  let newRoot ← decodeRoot batch.newRoot
  let daMeta ← (DaStrategy.calldata mode).encodeDaMeta rt files batch
  pure ⟨⟨0, verifierId, batchData, daMeta, newRoot, proof⟩, batchData.length, none⟩

def prepareBlob (hash : H256) (index : UInt8) (archiverUrl : Option String) :
    Except Failure PreparedCall := do
  let data ← (files.read batch.dataFile).mapError fun e =>
    .error (daError "Failed to read batch data file" e)
  match compress rt.parseTransactions data with
  | none => .error .panicked
  | some (_, metrics) => Except.mapError Failure.error do
      archive archiverUrl answers.archiver
      let proof ← decodeProof proofHex
      let newRoot ← decodeRoot batch.newRoot
      let daMeta ← (DaStrategy.blob hash index archiverUrl).encodeDaMeta rt files batch
      pure ⟨⟨1, verifierId, [], daMeta, newRoot, proof⟩, metrics.compressedSize,
        some metrics.gasSaved⟩

/-- The data is written to the store first, and the data file is read again after that. -/
def prepareOffChain (storeDir : Text) : Files × Except DomainError PreparedCall :=
  match readBatchFile files batch with
  | .error e => (files, .error e)
  | .ok data =>
    let path := storeDir ++ '/' :: hexEncode (rt.keccak256 data).toList ++ ['.', 'b', 'i', 'n']
    match answers.createStore with
    | .error message => (files, .error (daError "Failed to create offchain store" message))
    | .ok () =>
      match files.write path data answers.writeStore with
      | (files', .error message) =>
        (files', .error (daError "Failed to write offchain data" message))
      | (files', .ok ()) => (files', do
          let proof ← decodeProof proofHex
          let newRoot ← (H256.fromStr batch.newRoot).mapError fun e =>
            daError "Invalid new root" e.message
          let daMeta ← (DaStrategy.offChain storeDir).encodeDaMeta rt files' batch
          pure ⟨⟨2, verifierId, [], daMeta, toBytes32 newRoot.toList, proof⟩, data.length,
            none⟩)

/-- Everything that `submit` does before it sends the transaction. -/
def DaStrategy.prepare (strategy : DaStrategy) : Files × Except Failure PreparedCall :=
  match strategy with
  | .calldata mode =>
    (files, (prepareCalldata rt files batch proofHex verifierId mode).mapError .error)
  | .blob hash index archiverUrl =>
    (files, prepareBlob rt files answers batch proofHex verifierId hash index archiverUrl)
  | .offChain storeDir =>
    let (files', result) := prepareOffChain rt files answers batch proofHex verifierId storeDir
    (files', result.mapError .error)

end Prepare

/-! ## Sending it -/

/-- The result without the latency and the compression ratio; `blob_gas_used` and
`blob_base_fee_wei` are never set. -/
structure SubmissionResult where
  txHash : Text
  blockNumber : ℕ
  compressedBytes : Option ℕ
  gasSaved : Option ℕ
  gasUsed : Option ℕ
  daModeIsSimulated : Bool
  deriving DecidableEq, Repr

def DaStrategy.isSimulated : DaStrategy → Bool
  | .offChain _ => true
  | _ => false

/-- The end of `submit`: the receipt is asked for, its status is not looked at. -/
def DaStrategy.finish (strategy : DaStrategy) (prepared : PreparedCall) :
    Sending → Except DomainError SubmissionResult
  | .failed message => .error (daError "Tx send failed" message)
  | .receiptFailed _ message => .error (daError "Receipt failed" message)
  | .dropped _ => .error (.da "Dropped")
  | .mined txHash receipt =>
    .ok {
      txHash := txHash.debug
      blockNumber := receipt.blockNumber.getD 0
      compressedBytes := some prepared.compressedBytes
      gasSaved := prepared.gasSaved
      gasUsed := receipt.gasUsed
      daModeIsSimulated := strategy.isSimulated }

end RollupX.Submitter
