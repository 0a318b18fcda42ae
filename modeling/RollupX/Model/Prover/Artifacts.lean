import RollupX.Model.Prover.RollupCore

/-! Proof artifacts (`executor/src/proof.rs`).

The host program is a process of its own. What the executor sees of a run of it are its exit
status and the files it leaves, and nothing is assumed about these. -/

namespace RollupX.Prover

open Executor (Hash ExecutionTraceV1 eqIgnoreAsciiCase hexEncode utf8)

structure ProofMetadataMetrics where
  witnessGenerationMs : UInt64
  zkvmExecutionMs : UInt64
  proofCompressionMs : UInt64
  totalProverWallMs : UInt64
  traceReadMs : UInt64
  outputWriteMs : UInt64
  totalCycles : UInt64
  totalSegments : ℕ
  proofMode : String
  deriving DecidableEq, Repr

structure ProofArtifacts where
  proof : List UInt8
  daCommitment : List UInt8
  journalBytes : ℕ
  proofBytes : ℕ
  metadata : ProofMetadataMetrics
  deriving DecidableEq, Repr

/-- The metadata file of the host. -/
structure ProofRunMetadata where
  status : String
  proofMode : Option String
  traceSha256 : String
  publicInputsHash : String
  journalSha256 : String
  proofSha256 : String
  journalBytes : ℕ
  proofBytes : ℕ
  witnessGenerationMs : UInt64
  zkvmExecutionMs : UInt64
  proofCompressionMs : UInt64
  totalProverWallMs : UInt64
  traceReadMs : UInt64
  outputWriteMs : UInt64
  totalCycles : UInt64
  totalSegments : ℕ
  deriving DecidableEq, Repr

/-- What the executor takes from outside its own code: the hash function, the JSON of a trace
and of the metadata, and an environment variable. -/
structure ProverEnv where
  sha256 : List UInt8 → Hash
  traceToVec : BlockTrace → Except String (List UInt8)
  metadataFromSlice : List UInt8 → Except String ProofRunMetadata
  allowProofFallback : Option String

/-- The exit status of a process, and what it has written to `stderr`. -/
structure Output where
  success : Bool
  stderr : String

/-- A run of the host: how the calls to the operating system end. -/
structure HostRun where
  createDirAll : Except String Unit
  writeTrace : Except String Unit
  output : Except String Output
  readProof : Except String (List UInt8)
  readJournal : Except String (List UInt8)
  readMetadata : Except String (List UInt8)

/-- An `if` that bails out. -/
def ensure (condition : Bool) (message : String) : Except String Unit :=
  if condition then .ok () else .error message

def ProverEnv.digest (env : ProverEnv) (bytes : List UInt8) : String :=
  hexEncode (env.sha256 bytes).toList

def ProverEnv.allowFallback (env : ProverEnv) : Bool :=
  match env.allowProofFallback with
  | some v => v == "1" || eqIgnoreAsciiCase v "true"
  | none => false

def ProofRunMetadata.mode (run : ProofRunMetadata) : String :=
  run.proofMode.getD "unknown"

/-- The checks on the files, in the order of the source. -/
def checkArtifacts (env : ProverEnv) (trace : ExecutionTraceV1) (expectedTraceSha : String)
    (proof journal : List UInt8) (run : ProofRunMetadata) : Except String Unit := do
  ensure (run.status == "ok") "proof metadata status is not ok"
  ensure (run.mode == "groth16" || env.allowFallback)
    ("unsupported proof mode '" ++ run.mode ++
      "' from host metadata; set ALLOW_PROOF_FALLBACK=1 to override")
  ensure (run.traceSha256 == expectedTraceSha)
    "trace sha mismatch between host metadata and executor"
  ensure (run.publicInputsHash == hexEncode trace.proverContext.expectedJournalHash.toList)
    "public input hash mismatch between host metadata and trace prover context"
  ensure (run.journalSha256 == env.digest journal && run.journalBytes == journal.length)
    "journal artifact integrity mismatch"
  ensure (run.proofSha256 == env.digest proof && run.proofBytes == proof.length)
    "proof artifact integrity mismatch"
  ensure (!proof.isEmpty) "proof artifact is empty"

def generateRisc0Artifacts (env : ProverEnv) (trace : ExecutionTraceV1) (host : HostRun) :
    Except String ProofArtifacts := do
  host.createDirAll
  let coreTraceBytes ← env.traceToVec (toRollupCoreTrace trace)
  host.writeTrace
  let output ← host.output
  ensure output.success ("risc0 host failed: " ++ output.stderr)
  let proof ← host.readProof
  let journal ← host.readJournal
  let run ← host.readMetadata >>= env.metadataFromSlice
  checkArtifacts env trace (env.digest coreTraceBytes) proof journal run
  return {
    proof
    daCommitment := (env.sha256 journal).toList
    journalBytes := run.journalBytes
    proofBytes := run.proofBytes
    metadata := {
      witnessGenerationMs := run.witnessGenerationMs
      zkvmExecutionMs := run.zkvmExecutionMs
      proofCompressionMs := run.proofCompressionMs
      totalProverWallMs := run.totalProverWallMs
      traceReadMs := run.traceReadMs
      outputWriteMs := run.outputWriteMs
      totalCycles := run.totalCycles
      totalSegments := run.totalSegments
      proofMode := run.mode } }

def publicInputsBytes (trace : ExecutionTraceV1) : List UInt8 :=
  trace.publicInputs.initialRoot.toList ++ trace.publicInputs.finalRoot.toList

def generateMockArtifacts (env : ProverEnv) (trace : ExecutionTraceV1) :
    Except String ProofArtifacts := do
  let coreTraceBytes ← env.traceToVec (toRollupCoreTrace trace)
  let proof := (env.sha256 (utf8 "rollupx-mock-proof" ++ coreTraceBytes)).toList
  let journal := publicInputsBytes trace
  return {
    proof
    daCommitment := (env.sha256 journal).toList
    journalBytes := journal.length
    proofBytes := proof.length
    metadata := ⟨0, 0, 0, 0, 0, 0, 0, 0, "mock"⟩ }

inductive ProverBackendKind where
  | risc0
  | mock
  deriving DecidableEq, Repr

def generateArtifacts (env : ProverEnv) (trace : ExecutionTraceV1) (backend : ProverBackendKind)
    (host : HostRun) : Except String ProofArtifacts :=
  match backend with
  | .risc0 => generateRisc0Artifacts env trace host
  | .mock => generateMockArtifacts env trace

end RollupX.Prover
