import RollupX.Model.Executor.Genesis

/-! Configuration, batches and texts of the submitter (`submitter/src/config.rs`,
`domain/batch.rs`, `domain/proof.rs` and `infrastructure/batch_source.rs`). Only the settings
that the daemon reads are kept, and of a batch not its times and research measurements.
A string that is stored or compared is a list of characters, `Text`; messages are `String`. -/

namespace RollupX.Submitter

open Executor (hexDigit hexDecode FromHexError)

abbrev H256 := Vector UInt8 32

theorem H256.size_toArray {bytes : List UInt8} (h : bytes.length = 32) :
    bytes.toArray.size = 32 := by
  rw [List.size_toArray, h]

abbrev Text := List Char

/-! ## Configuration -/

inductive DaMode where
  | calldata
  | blob
  | offChain
  deriving DecidableEq, Repr

inductive ProofBackend where
  | groth16
  | plonky2
  | halo2
  | mock
  deriving DecidableEq, Repr

inductive VerificationMode where
  | onChain
  | offChainOnly
  deriving DecidableEq, Repr

inductive CompressionMode where
  | fullTxData
  | stateDiff
  deriving DecidableEq, Repr

structure ProofConfig where
  backend : Option ProofBackend
  verificationMode : Option VerificationMode
  verifierId : Option UInt8
  deriving DecidableEq, Repr

structure DaConfig where
  mode : DaMode
  blobIndex : Option UInt8
  archiverUrl : Option String
  deriving DecidableEq, Repr

structure BatchConfig where
  blobVersionedHash : Option Text
  deriving DecidableEq, Repr

structure AggregatorConfig where
  compression : Option CompressionMode
  deriving DecidableEq, Repr

structure Config where
  da : DaConfig
  batch : BatchConfig
  aggregator : Option AggregatorConfig
  proof : Option ProofConfig
  deriving DecidableEq, Repr

/-- The check of the data availability mode in `validate_config`. -/
def Config.validate (cfg : Config) : Except String Unit :=
  if cfg.da.mode = .blob ∧ cfg.batch.blobVersionedHash = none then
    .error "blob mode needs batch.blob_versioned_hash in yaml"
  else .ok ()

def Config.verificationMode (cfg : Config) : VerificationMode :=
  (cfg.proof.bind ProofConfig.verificationMode).getD .onChain

def ProofBackend.verifierId : ProofBackend → UInt8
  | .groth16 => 0
  | .plonky2 => 1
  | .halo2 => 2
  | .mock => 0

def Config.verifierId (cfg : Config) : UInt8 :=
  match cfg.proof with
  | some p =>
    match p.verifierId with
    | some id => id
    | none =>
      match p.backend with
      | some backend => backend.verifierId
      | none => 0
  | none => 0

/-! ## Texts -/

/-- `trim_start_matches("0x")`, which takes the text off as often as it is there. -/
def trimStart0x : Text → Text
  | '0' :: 'x' :: rest => trimStart0x rest
  | cs => cs

/-- `hex::decode` of a text without its `0x`. -/
def decodeHexText (text : Text) : Except FromHexError (List UInt8) :=
  hexDecode ((trimStart0x text).flatMap String.utf8EncodeChar)

def hexEncode (bytes : List UInt8) : Text :=
  bytes.flatMap fun b => [hexDigit (b.toNat / 16), hexDigit (b.toNat % 16)]

/-- `format!("0x{}", hex::encode(bytes))`. -/
def hexText (bytes : List UInt8) : Text :=
  '0' :: 'x' :: hexEncode bytes

def H256.debug (h : H256) : Text :=
  hexText h.toList

inductive ParseHashError where
  | invalidHexCharacter (c : Char) (index : ℕ)
  | invalidHexLength
  deriving DecidableEq, Repr

def ParseHashError.message : ParseHashError → String
  | .invalidHexCharacter c index =>
    "Invalid character '" ++ String.singleton c ++ "' at position " ++ toString index
  | .invalidHexLength => "Invalid input length"

/-- The next digit, with what follows it; blanks are passed over. -/
def nextDigit : ℕ → List Char → Option (Except ParseHashError (ℕ × ℕ × List Char))
  | _, [] => none
  | index, c :: rest =>
    if c = ' ' ∨ c = '\r' ∨ c = '\n' ∨ c = '\t' then nextDigit (index + 1) rest
    else if '0' ≤ c ∧ c ≤ '9' then some (.ok (c.toNat - 48, index + 1, rest))
    else if 'a' ≤ c ∧ c ≤ 'f' then some (.ok (c.toNat - 87, index + 1, rest))
    else if 'A' ≤ c ∧ c ≤ 'F' then some (.ok (c.toNat - 55, index + 1, rest))
    else some (.error (.invalidHexCharacter c index))

/-- The first `n` bytes of a text that has no more. -/
def parseHashBytes : (n index : ℕ) → List Char → Except ParseHashError (List UInt8)
  | 0, index, cs =>
    match nextDigit index cs with
    | none => .ok []
    | some _ => .error .invalidHexLength
  | n + 1, index, cs =>
    match nextDigit index cs with
    | none => .error .invalidHexLength
    | some (.error e) => .error e
    | some (.ok (high, index, cs)) =>
      match nextDigit index cs with
      | none => .error .invalidHexLength
      | some (.error e) => .error e
      | some (.ok (low, index, cs)) => do
          let bytes ← parseHashBytes n index cs
          pure (UInt8.ofNat (16 * high + low) :: bytes)

def H256.fromStr (text : Text) : Except ParseHashError H256 := do
  let digits := match text with
    | '0' :: 'x' :: rest => rest
    | cs => cs
  let bytes ← parseHashBytes 32 0 digits
  if h : bytes.length = 32 then pure ⟨bytes.toArray, H256.size_toArray h⟩
  else .error .invalidHexLength

/-- The value of an operation on `u64`, which panics when it overflows. -/
def u64 (n : ℕ) : Option ℕ :=
  if n < 2 ^ 64 then some n else none

def u256FromDecStr (text : Text) : Option ℕ :=
  if text.all Char.isDigit then
    let n := text.foldl (fun n c => 10 * n + (c.toNat - 48)) 0
    if n < 2 ^ 256 then some n else none
  else none

/-! ## Batches -/

/-- A UUID. -/
structure BatchId where
  bytes : Vector UInt8 16
  deriving DecidableEq, Repr

def BatchId.toString (id : BatchId) : Text :=
  let b := id.bytes.toList
  hexEncode (b.take 4) ++ '-' :: hexEncode ((b.drop 4).take 2) ++
    '-' :: hexEncode ((b.drop 6).take 2) ++ '-' :: hexEncode ((b.drop 8).take 2) ++
    '-' :: hexEncode (b.drop 10)

inductive BatchStatus where
  | discovered
  | proving
  | proved
  | submitting
  | submitted
  | confirmed
  | failed
  deriving DecidableEq, Repr

structure Batch where
  id : BatchId
  dataFile : Text
  newRoot : Text
  status : BatchStatus
  daMode : Text
  proof : Option Text
  txHash : Option Text
  attempts : UInt32
  blobVersionedHash : Option Text
  blobIndex : Option UInt8
  fee : UInt64
  experimentId : Option Text
  txCount : UInt32
  deriving DecidableEq, Repr

structure FetchedBatch where
  batchId : Text
  batchData : List UInt8
  preStateRoot : H256
  postStateRoot : H256
  daCommitment : Text
  proof : List UInt8
  experimentId : Option Text
  deriving DecidableEq, Repr

/-- The name of the file that holds a batch's data, `batch_{batch_id}.bin`. -/
def dataFileOf (batchId : Text) : Text :=
  ['b', 'a', 't', 'c', 'h', '_'] ++ batchId ++ ['.', 'b', 'i', 'n']

/-- Groth16, verifier 0, takes exactly 256 bytes. -/
def formatProofForVerifier (proofBytes : List UInt8) (verifierId : UInt8) : List UInt8 :=
  if verifierId = 0 then
    if proofBytes.length < 256 then proofBytes ++ List.replicate (256 - proofBytes.length) 0
    else if 256 < proofBytes.length then proofBytes.take 256
    else proofBytes
  else proofBytes

end RollupX.Submitter
