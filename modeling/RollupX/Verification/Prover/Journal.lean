import RollupX.Library.Commitment
import RollupX.Library.Fallible
import RollupX.Library.Json
import RollupX.Model.Prover.Artifacts
import RollupX.Verification.Executor.Engine

/-! What the checks on the files of the host say about its journal. -/

namespace RollupX.Prover

open Commitment
open Json (quoted natText arrayText bytesText objectText prettyObjectText ascii readKnown
  readKnown_write)
open Executor (ExecutionTraceV1 hexEncode hexDigit)

theorem hexDigit_inj : ∀ m < 16, ∀ n < 16, hexDigit m = hexDigit n → m = n := by
  decide

theorem hexEncode_inj {bytes more : List UInt8} :
    hexEncode bytes = hexEncode more ↔ bytes = more := by
  refine ⟨fun h => ?_, congrArg hexEncode⟩
  have hdigits := String.ofList_injective h
  clear h
  induction bytes generalizing more with
  | nil =>
    cases more with
    | nil => rfl
    | cons b more => cases hdigits
  | cons a bytes ih =>
    cases more with
    | nil => cases hdigits
    | cons b more =>
      simp only [List.flatMap_cons, List.cons_append, List.nil_append, List.cons.injEq]
        at hdigits
      obtain ⟨hhigh, hlow, hrest⟩ := hdigits
      have ha := a.toNat_lt
      have hb := b.toNat_lt
      have hdiv := hexDigit_inj _ (by omega) _ (by omega) hhigh
      have hmod := hexDigit_inj _ (by omega) _ (by omega) hlow
      rw [ih hrest, UInt8.toNat_inj.mp (by omega : a.toNat = b.toNat)]

variable {env : ProverEnv} {trace : ExecutionTraceV1} {host : HostRun}

theorem digest_eq_iff {bytes more : List UInt8} :
    env.digest bytes = env.digest more ↔
      bytes = more ∨ Collision env.sha256 [bytes, more] := by
  rw [eq_or_collision_iff, ProverEnv.digest, ProverEnv.digest, hexEncode_inj, Vector.toList_inj]

theorem ensure_ok_iff {condition : Bool} {message : String} {u : Unit} :
    ensure condition message = .ok u ↔ condition = true := by
  cases condition <;> simp [ensure]

/-- All of the checks. -/
structure Checked (env : ProverEnv) (trace : ExecutionTraceV1) (expectedTraceSha : String)
    (proof journal : List UInt8) (run : ProofRunMetadata) : Prop where
  status : run.status = "ok"
  mode : run.mode = "groth16" ∨ env.allowFallback = true
  traceSha : run.traceSha256 = expectedTraceSha
  publicInputs : run.publicInputsHash =
    hexEncode trace.proverContext.expectedJournalHash.toList
  journalFile : run.journalSha256 = env.digest journal ∧ run.journalBytes = journal.length
  proofFile : run.proofSha256 = env.digest proof ∧ run.proofBytes = proof.length
  nonempty : proof ≠ []

theorem checkArtifacts_ok_iff {expectedTraceSha : String} {proof journal : List UInt8}
    {run : ProofRunMetadata} {u : Unit} :
    checkArtifacts env trace expectedTraceSha proof journal run = .ok u ↔
      Checked env trace expectedTraceSha proof journal run := by
  simp only [checkArtifacts, Fallible.bind_ok_iff, ensure_ok_iff, beq_iff_eq, Bool.or_eq_true,
    Bool.and_eq_true, Bool.not_eq_true', List.isEmpty_eq_false_iff, exists_const]
  constructor
  · rintro ⟨h₁, h₂, h₃, h₄, h₅, h₆, h₇⟩
    exact ⟨h₁, h₂, h₃, h₄, h₅, h₆, h₇⟩
  · rintro ⟨h₁, h₂, h₃, h₄, h₅, h₆, h₇⟩
    exact ⟨h₁, h₂, h₃, h₄, h₅, h₆, h₇⟩

def artifactsOf (env : ProverEnv) (proof journal : List UInt8) (run : ProofRunMetadata) :
    ProofArtifacts where
  proof := proof
  daCommitment := (env.sha256 journal).toList
  journalBytes := run.journalBytes
  proofBytes := run.proofBytes
  metadata := ⟨run.witnessGenerationMs, run.zkvmExecutionMs, run.proofCompressionMs,
    run.totalProverWallMs, run.traceReadMs, run.outputWriteMs, run.totalCycles,
    run.totalSegments, run.mode⟩

/-- A host run gives artifacts exactly when every call succeeds and the files pass the checks. -/
theorem generateRisc0Artifacts_ok_iff {artifacts : ProofArtifacts} :
    generateRisc0Artifacts env trace host = .ok artifacts ↔
      ∃ bytes output proof journal run,
        host.createDirAll = .ok () ∧ env.traceToVec (toRollupCoreTrace trace) = .ok bytes ∧
        host.writeTrace = .ok () ∧ host.output = .ok output ∧ output.success = true ∧
        host.readProof = .ok proof ∧ host.readJournal = .ok journal ∧
        (host.readMetadata >>= env.metadataFromSlice) = .ok run ∧
        Checked env trace (env.digest bytes) proof journal run ∧
        artifactsOf env proof journal run = artifacts := by
  simp only [generateRisc0Artifacts, Fallible.bind_ok_iff, ensure_ok_iff, checkArtifacts_ok_iff,
    pure, Except.pure, Except.ok.injEq, exists_const]
  constructor
  · rintro ⟨⟨⟩, hdir, bytes, hbytes, ⟨⟩, hwrite, output, houtput, hsuccess, proof, hproof,
      journal, hjournal, run, hrun, hchecked, rfl⟩
    exact ⟨bytes, output, proof, journal, run, hdir, hbytes, hwrite, houtput, hsuccess, hproof,
      hjournal, hrun, hchecked, rfl⟩
  · rintro ⟨bytes, output, proof, journal, run, hdir, hbytes, hwrite, houtput, hsuccess, hproof,
      hjournal, hrun, hchecked, rfl⟩
    exact ⟨(), hdir, bytes, hbytes, (), hwrite, output, houtput, hsuccess, proof, hproof,
      journal, hjournal, run, hrun, hchecked, rfl⟩

/-- The journal and the metadata of a run that gives artifacts have passed the checks. -/
theorem checked_of_ok {artifacts : ProofArtifacts} {journal : List UInt8}
    {run : ProofRunMetadata} (h : generateRisc0Artifacts env trace host = .ok artifacts)
    (hjournal : host.readJournal = .ok journal)
    (hrun : (host.readMetadata >>= env.metadataFromSlice) = .ok run) :
    run.journalSha256 = env.digest journal ∧
      run.publicInputsHash = hexEncode trace.proverContext.expectedJournalHash.toList := by
  obtain ⟨_, _, _, journal', run', _, _, _, _, _, _, hjournal', hrun', hchecked, _⟩ :=
    generateRisc0Artifacts_ok_iff.mp h
  rw [hjournal] at hjournal'
  rw [hrun] at hrun'
  cases hjournal'
  cases hrun'
  exact ⟨hchecked.journalFile.1, hchecked.publicInputs⟩

theorem daCommitment_mock {artifacts : ProofArtifacts}
    (h : generateArtifacts env trace .mock host = .ok artifacts) :
    artifacts.daCommitment = (env.sha256 (publicInputsBytes trace)).toList := by
  obtain ⟨bytes, -, hartifacts⟩ := Fallible.bind_ok_iff.mp h
  cases hartifacts
  rfl

theorem expectedJournalHash_executeBatch {S : Type*} {rt : Executor.Runtime}
    {mgr : Executor.StateManager S} {s s' : S} {batchId : String}
    {txs : List Executor.Transaction}
    (h : Executor.executeBatch rt mgr s batchId txs = (s', .ok trace)) :
    trace.proverContext.expectedJournalHash = rt.sha256 (publicInputsBytes trace) := by
  obtain ⟨l, -, -, rfl⟩ := Executor.executeBatch_ok_iff.mp h
  rfl

/-- Two runs for one trace have the same journal, up to a collision, exactly when their metadata
name the same hash of it. A journal is that of the roots exactly when the metadata name one hash
for the journal and for the public inputs. -/
theorem journals_agree_iff (env : ProverEnv) (trace : ExecutionTraceV1) (host₁ host₂ : HostRun)
    (artifacts₁ artifacts₂ : ProofArtifacts) (journal₁ journal₂ : List UInt8)
    (run₁ run₂ : ProofRunMetadata)
    (h₁ : generateRisc0Artifacts env trace host₁ = .ok artifacts₁)
    (h₂ : generateRisc0Artifacts env trace host₂ = .ok artifacts₂)
    (hjournal₁ : host₁.readJournal = .ok journal₁) (hjournal₂ : host₂.readJournal = .ok journal₂)
    (hrun₁ : (host₁.readMetadata >>= env.metadataFromSlice) = .ok run₁)
    (hrun₂ : (host₂.readMetadata >>= env.metadataFromSlice) = .ok run₂) :
    (journal₁ = journal₂ ∨ Collision env.sha256 [journal₁, journal₂] ↔
        run₁.journalSha256 = run₂.journalSha256) ∧
      (trace.proverContext.expectedJournalHash = env.sha256 (publicInputsBytes trace) →
        (journal₁ = publicInputsBytes trace ∨
            Collision env.sha256 [journal₁, publicInputsBytes trace] ↔
          run₁.journalSha256 = run₁.publicInputsHash)) := by
  obtain ⟨hsha₁, hinputs₁⟩ := checked_of_ok h₁ hjournal₁ hrun₁
  obtain ⟨hsha₂, -⟩ := checked_of_ok h₂ hjournal₂ hrun₂
  constructor
  · rw [hsha₁, hsha₂]
    exact digest_eq_iff.symm
  · intro hexpected
    rw [hsha₁, hinputs₁, hexpected]
    exact digest_eq_iff.symm

/-! A trace without transfers, and hosts that leave a proof, a journal and metadata that name what
they have left. -/

def idleTrace : ExecutionTraceV1 :=
  Executor.buildTrace Executor.localRuntime "b1"
    (Executor.memory.currentRoot Executor.aliceStore)
    (Executor.BatchLoop.start Executor.memory Executor.aliceStore)

def StateDiff.text (diff : StateDiff) : List Char :=
  objectText [
    ("account", bytesText diff.account.toList),
    ("old_balance", natText diff.oldBalance.toNat),
    ("new_balance", natText diff.newBalance.toNat),
    ("old_nonce", natText diff.oldNonce.toNat),
    ("new_nonce", natText diff.newNonce.toNat),
    ("merkle_proof", arrayText (diff.merkleProof.map fun hash => bytesText hash.toList))]

def BlockTrace.toVec (trace : BlockTrace) : List UInt8 :=
  ascii (objectText [
    ("batch_id", quoted trace.batchId.toList),
    ("initial_root", bytesText trace.initialRoot.toList),
    ("final_root", bytesText trace.finalRoot.toList),
    ("state_diffs", arrayText (trace.stateDiffs.map StateDiff.text))])

def ProofRunMetadata.toVecPretty (run : ProofRunMetadata) : List UInt8 :=
  ascii (prettyObjectText [
    ("status", quoted run.status.toList),
    ("proof_mode", quoted run.mode.toList),
    ("trace_sha256", quoted run.traceSha256.toList),
    ("public_inputs_hash", quoted run.publicInputsHash.toList),
    ("journal_sha256", quoted run.journalSha256.toList),
    ("proof_sha256", quoted run.proofSha256.toList),
    ("journal_bytes", natText run.journalBytes),
    ("proof_bytes", natText run.proofBytes),
    ("witness_generation_ms", natText run.witnessGenerationMs.toNat),
    ("zkvm_execution_ms", natText run.zkvmExecutionMs.toNat),
    ("proof_compression_ms", natText run.proofCompressionMs.toNat),
    ("total_prover_wall_ms", natText run.totalProverWallMs.toNat),
    ("trace_read_ms", natText run.traceReadMs.toNat),
    ("output_write_ms", natText run.outputWriteMs.toNat),
    ("total_cycles", natText run.totalCycles.toNat),
    ("total_segments", natText run.totalSegments)])

def localProver (known : List ProofRunMetadata) : ProverEnv where
  sha256 := Sha256.hash
  traceToVec trace := .ok trace.toVec
  metadataFromSlice data :=
    match readKnown ProofRunMetadata.toVecPretty known data with
    | some run => .ok run
    | none => .error "expected value at line 1 column 1"
  allowProofFallback := none

def runOf (proof journal : List UInt8) : ProofRunMetadata where
  status := "ok"
  proofMode := some "groth16"
  traceSha256 := hexEncode (Sha256.hash (toRollupCoreTrace idleTrace).toVec).toList
  publicInputsHash := hexEncode idleTrace.proverContext.expectedJournalHash.toList
  journalSha256 := hexEncode (Sha256.hash journal).toList
  proofSha256 := hexEncode (Sha256.hash proof).toList
  journalBytes := journal.length
  proofBytes := proof.length
  witnessGenerationMs := 4
  zkvmExecutionMs := 950
  proofCompressionMs := 12
  totalProverWallMs := 970
  traceReadMs := 1
  outputWriteMs := 3
  totalCycles := 65536
  totalSegments := 1

def hostLeaves (proof journal : List UInt8) : HostRun :=
  ⟨.ok (), .ok (), .ok ⟨true, ""⟩, .ok proof, .ok journal,
    .ok (runOf proof journal).toVecPretty⟩

section HostLeaves

variable {known : List ProofRunMetadata} {proof journal : List UInt8}

theorem metadata_hostLeaves
    (hdistinct : known.Pairwise fun run run' => run.toVecPretty ≠ run'.toVecPretty)
    (hknown : runOf proof journal ∈ known) :
    ((hostLeaves proof journal).readMetadata >>= (localProver known).metadataFromSlice) =
      .ok (runOf proof journal) := by
  change (match readKnown _ known (runOf proof journal).toVecPretty with
    | some run => Except.ok run
    | none => .error _) = _
  rw [readKnown_write hdistinct hknown]

theorem hostLeaves_accepted
    (hdistinct : known.Pairwise fun run run' => run.toVecPretty ≠ run'.toVecPretty)
    (hknown : runOf proof journal ∈ known) (hproof : proof ≠ []) :
    generateRisc0Artifacts (localProver known) idleTrace (hostLeaves proof journal) =
      .ok (artifactsOf (localProver known) proof journal (runOf proof journal)) := by
  refine generateRisc0Artifacts_ok_iff.mpr ⟨_, ⟨true, ""⟩, proof, journal, runOf proof journal,
    rfl, rfl, rfl, rfl, rfl, rfl, rfl, metadata_hostLeaves hdistinct hknown, ?_, rfl⟩
  exact ⟨rfl, .inl rfl, rfl, rfl, ⟨rfl, rfl⟩, ⟨rfl, rfl⟩, hproof⟩

end HostLeaves

def twoProofs : List ProofRunMetadata :=
  [runOf [1] (publicInputsBytes idleTrace), runOf [2] (publicInputsBytes idleTrace)]

theorem journals_agree_twoProofs :
    ∃ artifacts₁ artifacts₂,
      generateRisc0Artifacts (localProver twoProofs) idleTrace
          (hostLeaves [1] (publicInputsBytes idleTrace)) = .ok artifacts₁ ∧
      generateRisc0Artifacts (localProver twoProofs) idleTrace
          (hostLeaves [2] (publicInputsBytes idleTrace)) = .ok artifacts₂ ∧
      artifacts₁ ≠ artifacts₂ ∧
      (runOf [1] (publicInputsBytes idleTrace)).journalSha256 =
        (runOf [2] (publicInputsBytes idleTrace)).journalSha256 ∧
      (runOf [1] (publicInputsBytes idleTrace)).journalSha256 =
        (runOf [1] (publicInputsBytes idleTrace)).publicInputsHash := by
  have hdistinct : twoProofs.Pairwise fun run run' => run.toVecPretty ≠ run'.toVecPretty := by
    decide +kernel
  have hfirst : runOf [1] (publicInputsBytes idleTrace) ∈ twoProofs := List.mem_cons_self ..
  have hsecond : runOf [2] (publicInputsBytes idleTrace) ∈ twoProofs :=
    List.mem_cons_of_mem _ (List.mem_cons_self ..)
  have hok₁ := hostLeaves_accepted hdistinct hfirst (by decide)
  have hok₂ := hostLeaves_accepted hdistinct hsecond (by decide)
  obtain ⟨hsame, hroots⟩ := journals_agree_iff (localProver twoProofs) idleTrace _ _ _ _ _ _ _ _
    hok₁ hok₂ rfl rfl (metadata_hostLeaves hdistinct hfirst)
    (metadata_hostLeaves hdistinct hsecond)
  refine ⟨_, _, hok₁, hok₂, fun heq => ?_, hsame.mp (.inl rfl), (hroots rfl).mp (.inl rfl)⟩
  cases congrArg ProofArtifacts.proof heq

/-- An empty journal is accepted, and one of a single byte, for the same trace. -/
theorem journals_differ :
    ∃ artifacts₁ artifacts₂,
      generateRisc0Artifacts (localProver [runOf [1] [], runOf [1] [7]]) idleTrace
          (hostLeaves [1] []) = .ok artifacts₁ ∧
      generateRisc0Artifacts (localProver [runOf [1] [], runOf [1] [7]]) idleTrace
          (hostLeaves [1] [7]) = .ok artifacts₂ ∧
      (hostLeaves [1] []).readJournal ≠ (hostLeaves [1] [7]).readJournal ∧
      ¬Collision Sha256.hash [[], [7]] := by
  have hdistinct : [runOf [1] [], runOf [1] [7]].Pairwise
      fun run run' => run.toVecPretty ≠ run'.toVecPretty := by
    decide +kernel
  refine ⟨_, _, hostLeaves_accepted hdistinct (List.mem_cons_self ..) (by decide),
    hostLeaves_accepted hdistinct (List.mem_cons_of_mem _ (List.mem_cons_self ..))
      (by decide), nofun, fun hcollision => ?_⟩
  have hhash := eq_or_collision_iff.mp (.inr hcollision)
  exact absurd hhash (by decide +kernel)

end RollupX.Prover
