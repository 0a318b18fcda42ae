import RollupX.Model.Contracts.DA
import RollupX.Verification.Contracts.Calls
import RollupX.Verification.Submitter.Provenance

/-! Data availability from the submitter's files to the bridge: what `submit` passes to
`commitBatch`, what the provider makes of it, and what the recorded commitment says about the data
of the batch. -/

namespace RollupX.Submitter

open Fallible Machine
open Contracts (Bytes32 Block Bridge DaProvider EthAddress External Msg)
open Contracts.Bridge (CommitArgs)
open Contracts.BlobDA (decodeMeta)

theorem toBytes32_inj {bs cs : List UInt8} (hbs : bs.length = 32) (hcs : cs.length = 32) :
    toBytes32 bs = toBytes32 cs ↔ bs = cs := by
  have hb := Bytes.ofBe_lt bs
  have hc := Bytes.ofBe_lt cs
  rw [hbs] at hb
  rw [hcs] at hc
  constructor
  · intro h
    have hsame := congrArg BitVec.toNat h
    rw [toBytes32, toBytes32, BitVec.toNat_ofNat, BitVec.toNat_ofNat,
      Nat.mod_eq_of_lt (by omega), Nat.mod_eq_of_lt (by omega)] at hsame
    exact Bytes.ofBe_inj (hbs.trans hcs.symm) hsame
  · rintro rfl
    rfl

theorem toBytes32_h256_inj {x y : H256} : toBytes32 x.toList = toBytes32 y.toList ↔ x = y := by
  rw [toBytes32_inj (by simp) (by simp)]
  exact ⟨fun h => Vector.toArray_inj.mp (Array.toList_inj.mp h), fun h => h ▸ rfl⟩

def Runtime.contractKeccak (rt : Runtime) (bytes : List UInt8) : Bytes32 :=
  toBytes32 (rt.keccak256 bytes).toList

/-- The arguments of `commitBatch` that depend on the strategy. -/
def DaStrategy.Passes (rt : Runtime) (batch : Batch) (data : List UInt8) (args : CommitArgs) :
    DaStrategy → Prop
  | .calldata mode =>
    args.daId = 0 ∧ args.batchData = CompressionMode.apply rt mode data ∧ args.daMeta = []
  | .blob configured index _ =>
    args.daId = 1 ∧ args.batchData = [] ∧ ∃ hash, blobHash configured batch = .ok hash ∧
      args.daMeta = hash.toList ++ Bytes.be 32 (batch.blobIndex.getD index).toNat
  | .offChain _ =>
    args.daId = 2 ∧ args.batchData = [] ∧ args.daMeta = (rt.keccak256 data).toList

section Prepare

variable {rt : Runtime} {files files' : Files} {answers : Answers} {batch : Batch}
  {proofHex : Text} {verifierId : UInt8} {call : PreparedCall}

theorem Files.read_ok {path : Text} {data : List UInt8} (h : files.read path = .ok data) :
    files path = some data := by
  unfold Files.read at h
  split at h
  · rename_i contents hcontents
    cases h
    exact hcontents
  · cases h

theorem Files.read_eq_of_some {path : Text} {data : List UInt8} (h : files path = some data) :
    files.read path = .ok data := by
  rw [Files.read, h]

theorem readBatchFile_eq_ok_iff {data : List UInt8} :
    readBatchFile files batch = .ok data ↔ files batch.dataFile = some data :=
  mapError_ok_iff.trans ⟨Files.read_ok, Files.read_eq_of_some⟩

theorem prepareCalldata_ok {mode : Option CompressionMode}
    (h : prepareCalldata rt files batch proofHex verifierId mode = .ok call) :
    ∃ data, files batch.dataFile = some data ∧
      (DaStrategy.calldata mode).Passes rt batch data call.args := by
  obtain ⟨proof, -, h⟩ := bind_ok_iff.mp h
  obtain ⟨data, hdata, h⟩ := bind_ok_iff.mp h
  obtain ⟨newRoot, -, h⟩ := bind_ok_iff.mp h
  obtain ⟨daMeta, hmeta, h⟩ := bind_ok_iff.mp h
  cases hmeta
  cases h
  exact ⟨data, readBatchFile_eq_ok_iff.mp hdata, rfl, rfl, rfl⟩

theorem prepareBlob_ok {configured : H256} {index : UInt8} {archiverUrl : Option String}
    (h : prepareBlob rt files answers batch proofHex verifierId configured index archiverUrl =
      .ok call) :
    ∃ data, files batch.dataFile = some data ∧
      (DaStrategy.blob configured index archiverUrl).Passes rt batch data call.args := by
  obtain ⟨data, hdata, h⟩ := bind_ok_iff.mp h
  have hfile := Files.read_ok (mapError_ok_iff.mp hdata)
  split at h
  · cases h
  · replace h := mapError_ok_iff.mp h
    obtain ⟨_, -, h⟩ := bind_ok_iff.mp h
    obtain ⟨proof, -, h⟩ := bind_ok_iff.mp h
    obtain ⟨newRoot, -, h⟩ := bind_ok_iff.mp h
    obtain ⟨daMeta, hmeta, h⟩ := bind_ok_iff.mp h
    obtain ⟨hash, hhash, hmeta⟩ := bind_ok_iff.mp hmeta
    cases hmeta
    cases h
    exact ⟨data, hfile, rfl, rfl, hash, hhash, rfl⟩

theorem prepareOffChain_ok {storeDir : Text}
    (h : prepareOffChain rt files answers batch proofHex verifierId storeDir =
      (files', .ok call)) :
    ∃ data, files batch.dataFile = some data ∧
      (DaStrategy.offChain storeDir).Passes rt batch data call.args := by
  unfold prepareOffChain at h
  split at h
  · cases h
  · rename_i data hdata
    have hfile := readBatchFile_eq_ok_iff.mp hdata
    dsimp only at h
    split at h
    · cases h
    · split at h
      · cases h
      · rename_i stored hwrite
        have hstored : stored batch.dataFile = some data := by
          cases houtcome : answers.writeStore with
          | failed message left => simp [Files.write, houtcome] at hwrite
          | done =>
            simp only [Files.write, houtcome, Prod.mk.injEq] at hwrite
            rw [← hwrite.1, Function.update_apply]
            split
            · rfl
            · exact hfile
        obtain ⟨-, h⟩ := Prod.mk.inj h
        obtain ⟨proof, -, h⟩ := bind_ok_iff.mp h
        obtain ⟨newRoot, -, h⟩ := bind_ok_iff.mp h
        obtain ⟨daMeta, hmeta, h⟩ := bind_ok_iff.mp h
        obtain ⟨commitment, hcommitment, hmeta⟩ := bind_ok_iff.mp hmeta
        obtain ⟨reread, hreread, hcommitment⟩ := bind_ok_iff.mp hcommitment
        have hsame : reread = data :=
          Option.some.inj ((readBatchFile_eq_ok_iff.mp hreread).symm.trans hstored)
        cases hcommitment
        cases hmeta
        cases h
        exact ⟨data, hfile, rfl, rfl, by rw [hsame]⟩

theorem prepare_ok {strategy : DaStrategy}
    (h : strategy.prepare rt files answers batch proofHex verifierId = (files', .ok call)) :
    ∃ data, files batch.dataFile = some data ∧ strategy.Passes rt batch data call.args := by
  cases strategy with
  | calldata mode => exact prepareCalldata_ok (mapError_ok_iff.mp (congrArg Prod.snd h))
  | blob configured index archiverUrl => exact prepareBlob_ok (congrArg Prod.snd h)
  | offChain storeDir =>
    obtain ⟨hfiles, hresult⟩ := Prod.mk.inj h
    exact prepareOffChain_ok (Prod.ext hfiles (mapError_ok_iff.mp hresult))

end Prepare

theorem decodeMeta_encoded (hash : H256) (index : UInt8) :
    decodeMeta (hash.toList ++ Bytes.be 32 index.toNat) =
      .ok (toBytes32 hash.toList, index) := by
  have hindex := index.toNat_lt
  have htake : (hash.toList ++ Bytes.be 32 index.toNat).take 32 = hash.toList :=
    List.take_left' (by simp)
  have hdrop : ((hash.toList ++ Bytes.be 32 index.toNat).drop 32).take 32 =
      Bytes.be 32 index.toNat := by
    rw [List.drop_left' (by simp), List.take_of_length_le (by simp)]
  have hvalue : Bytes.ofBe (Bytes.be 32 index.toNat) = index.toNat :=
    Bytes.ofBe_be_of_lt (lt_of_lt_of_le hindex (by decide))
  unfold decodeMeta
  simp only [htake, hdrop, hvalue]
  rw [if_pos ⟨by simp, hindex⟩]
  simp [toBytes32]

theorem eq_calldata_of_mode {provider : DaProvider} (h : provider.mode = 0) :
    provider = .calldata := by
  cases provider with
  | calldata => rfl
  | blob getBlobHash => exact absurd (show (1 : UInt8) = 0 from h) (by decide)
  | offChain => exact absurd (show (2 : UInt8) = 0 from h) (by decide)

theorem exists_eq_blob_of_mode {provider : DaProvider} (h : provider.mode = 1) :
    ∃ getBlobHash, provider = .blob getBlobHash := by
  cases provider with
  | calldata => exact absurd (show (0 : UInt8) = 1 from h) (by decide)
  | blob getBlobHash => exact ⟨getBlobHash, rfl⟩
  | offChain => exact absurd (show (2 : UInt8) = 1 from h) (by decide)

theorem eq_offChain_of_mode {provider : DaProvider} (h : provider.mode = 2) :
    provider = .offChain := by
  cases provider with
  | calldata => exact absurd (show (0 : UInt8) = 2 from h) (by decide)
  | blob getBlobHash => exact absurd (show (1 : UInt8) = 2 from h) (by decide)
  | offChain => rfl

/-- What a provider makes of a call of its own mode. -/
theorem computeCommitment_of_passes {rt : Runtime} {batch : Batch} {data : List UInt8}
    {args : CommitArgs} {strategy : DaStrategy} (h : strategy.Passes rt batch data args)
    {files : Files} (hfile : files batch.dataFile = some data) {provider : DaProvider}
    (hmode : provider.mode = args.daId) :
    ∃ commitment, strategy.computeCommitment rt files batch = .ok commitment ∧
      provider.computeCommitment rt.contractKeccak args.batchData args.daMeta =
        .ok (toBytes32 commitment.toList) := by
  have hread := readBatchFile_eq_ok_iff.mpr hfile
  cases strategy with
  | calldata mode =>
    obtain ⟨hid, hdata, -⟩ := h
    obtain rfl := eq_calldata_of_mode (hmode.trans hid)
    refine ⟨_, bind_ok_iff.mpr ⟨data, hread, rfl⟩, ?_⟩
    rw [hdata]
    rfl
  | blob configured index archiverUrl =>
    obtain ⟨hid, -, hash, hhash, hmeta⟩ := h
    obtain ⟨getBlobHash, rfl⟩ := exists_eq_blob_of_mode (hmode.trans hid)
    refine ⟨hash, hhash, ?_⟩
    rw [hmeta]
    exact bind_ok_iff.mpr ⟨_, decodeMeta_encoded _ _, rfl⟩
  | offChain storeDir =>
    obtain ⟨hid, -, hmeta⟩ := h
    obtain rfl := eq_offChain_of_mode (hmode.trans hid)
    refine ⟨_, bind_ok_iff.mpr ⟨data, hread, rfl⟩, ?_⟩
    rw [hmeta]
    exact if_pos (by simp)

/-- The provider of the call's mode computes, from what it is passed, the commitment that the
submitter computes from the file. -/
theorem commitment_agrees (rt : Runtime) (strategy : DaStrategy) (files files' : Files)
    (answers : Answers) (batch : Batch) (proofHex : Text) (verifierId : UInt8)
    (call : PreparedCall)
    (h : strategy.prepare rt files answers batch proofHex verifierId = (files', .ok call))
    (provider : DaProvider) (hmode : provider.mode = call.args.daId) :
    ∃ commitment, strategy.computeCommitment rt files batch = .ok commitment ∧
      provider.computeCommitment rt.contractKeccak call.args.batchData call.args.daMeta =
        .ok (toBytes32 commitment.toList) := by
  obtain ⟨data, hfile, hpasses⟩ := prepare_ok h
  exact computeCommitment_of_passes hpasses hfile hmode

/-- The bytes that the recorded commitment is the hash of. For a blob there are none: the
commitment is the configured hash. -/
def DaStrategy.committedBytes (rt : Runtime) (data : List UInt8) :
    DaStrategy → Option (List UInt8)
  | .calldata mode => some (CompressionMode.apply rt mode data)
  | .blob _ _ _ => none
  | .offChain _ => some data

def DaStrategy.commitmentOf (rt : Runtime) (data : List UInt8) : DaStrategy → Bytes32
  | .calldata mode => rt.contractKeccak (CompressionMode.apply rt mode data)
  | .blob configured _ _ => toBytes32 configured.toList
  | .offChain _ => rt.contractKeccak data

/-- The call that was sent goes through, with a provider of its mode, and the bridge keeps
`commitment` for the batch. -/
def Submission.RecordedAs (rt : Runtime) (s : Submission) (commitment : Bytes32) : Prop :=
  ∃ (args : CommitArgs) (sending : Sending) (σ σ' : Bridge) (block : Block) (msg : Msg)
    (ext : External) (provider : DaProvider), s.sent = some (args, sending) ∧
      provider.mode = args.daId ∧
      ext.Hosts rt.contractKeccak (σ.daProviders args.daId) provider ∧
      σ.commitBatch block msg ext args = .ok σ' ∧
      σ'.batchCommitment σ.nextBatchId = commitment

theorem batchCommitment_of_commitBatch {σ σ' : Bridge} {block : Block} {msg : Msg}
    {ext : External} {args : CommitArgs} (h : σ.commitBatch block msg ext args = .ok σ') :
    ext.computeCommitment (σ.daProviders args.daId) args.batchData args.daMeta =
      some (σ'.batchCommitment σ.nextBatchId) := by
  cases Contracts.commitBatch_effect h with
  | commitVerified _ _ daCommitment points daMode next hchecks
  | commitOptimistic _ _ daCommitment points daMode next hchecks =>
    rw [hchecks.commitment]
    simp [Bridge.addBatch, Bridge.emit]

theorem submit_sent {rt : Runtime} {cfg : Config} {files files' : Files} {answers : Answers}
    {recovered : Bool} {batch : Batch} {proofHex : Text} {verifierId : UInt8} {s : Submission}
    {args : CommitArgs} {sending : Sending}
    (h : cfg.submit rt files answers recovered batch proofHex verifierId = some (files', s))
    (hsent : s.sent = some (args, sending)) :
    ∃ data, s.data = some data ∧ cfg.daStrategy.Passes rt batch data args := by
  obtain ⟨-, ⟨e, rfl⟩ | ⟨call, hcall, rfl⟩⟩ := submit_cases h
  · contradiction
  · cases hsent
    exact prepare_ok (Prod.ext rfl hcall)

/-- The daemon sets no hash in its batches, so a blob's commitment is the configured one. -/
theorem commitment_of_recordedAs {rt : Runtime} {cfg : Config} {files files' : Files}
    {answers : Answers} {s : Submission} {commitment : Bytes32}
    (h : cfg.submit rt files answers s.recovered s.batch s.proofHex s.verifierId =
      some (files', s))
    (hblob : s.batch.blobVersionedHash = none) (hrecorded : s.RecordedAs rt commitment) :
    ∃ data, s.data = some data ∧ commitment = cfg.daStrategy.commitmentOf rt data := by
  obtain ⟨args, sending, σ, σ', block, msg, ext, provider, hsent, hmode, hhosts, hcommit, rfl⟩ :=
    hrecorded
  obtain ⟨data, hdata, hpasses⟩ := submit_sent h hsent
  have hfile : files s.batch.dataFile = some data := (submit_spec h).1.data_eq.symm.trans hdata
  obtain ⟨commitment, hcomputed, hprovided⟩ := computeCommitment_of_passes hpasses hfile hmode
  refine ⟨data, hdata, ?_⟩
  have hsome := batchCommitment_of_commitBatch hcommit
  rw [hhosts.computeCommitment, hprovided] at hsome
  rw [← Option.some.inj hsome]
  have hread := readBatchFile_eq_ok_iff.mpr hfile
  cases hstrategy : cfg.daStrategy with
  | calldata mode | offChain storeDir =>
    rw [hstrategy, DaStrategy.computeCommitment, hread] at hcomputed
    cases hcomputed
    rfl
  | blob configured index archiverUrl =>
    rw [hstrategy, DaStrategy.computeCommitment, blobHash, hblob] at hcomputed
    cases hcomputed
    rfl

section Binding

variable {rt : Runtime} {cfg : Config}

theorem committedBytes_eq_none_iff (data : List UInt8) :
    cfg.daStrategy.committedBytes rt data = none ↔ cfg.da.mode = .blob := by
  unfold Config.daStrategy
  cases cfg.da.mode with
  | calldata | blob | offChain => simp [DaStrategy.committedBytes]

theorem commitmentOf_of_none {strategy : DaStrategy} {data : List UInt8}
    (h : strategy.committedBytes rt data = none) (data' : List UInt8) :
    strategy.commitmentOf rt data = strategy.commitmentOf rt data' := by
  cases strategy with
  | calldata mode | offChain storeDir => contradiction
  | blob configured index archiverUrl => rfl

theorem commitmentOf_of_some {strategy : DaStrategy} {data bytes : List UInt8}
    (h : strategy.committedBytes rt data = some bytes) :
    strategy.commitmentOf rt data = rt.contractKeccak bytes := by
  cases strategy with
  | calldata mode | offChain storeDir =>
    cases h
    rfl
  | blob configured index archiverUrl => contradiction

theorem committedBytes_inj (hzlib : Function.Injective rt.zlib) {strategy : DaStrategy}
    {data data' bytes : List UInt8} (h : strategy.committedBytes rt data = some bytes)
    (h' : strategy.committedBytes rt data' = some bytes) : data = data' := by
  cases strategy with
  | calldata mode =>
    have hsame := Option.some.inj (h.trans h'.symm)
    cases mode with
    | none => exact hsame
    | some algorithm => exact hzlib hsame
  | blob configured index archiverUrl => contradiction
  | offChain storeDir => exact Option.some.inj (h.trans h'.symm)

def Collision (rt : Runtime) (x y : Option (List UInt8)) : Prop :=
  ∃ bytes bytes', x = some bytes ∧ y = some bytes' ∧ bytes ≠ bytes' ∧
    rt.keccak256 bytes = rt.keccak256 bytes'

theorem commitmentOf_binds_iff (hzlib : Function.Injective rt.zlib) (data data' : List UInt8) :
    cfg.daStrategy.commitmentOf rt data ≠ cfg.daStrategy.commitmentOf rt data' ∨
        Collision rt (cfg.daStrategy.committedBytes rt data)
          (cfg.daStrategy.committedBytes rt data') ↔
      cfg.da.mode ≠ .blob ∧ data ≠ data' := by
  constructor
  · rintro (hne | ⟨bytes, bytes', hbytes, hbytes', hne, -⟩)
    · refine ⟨fun hblob => hne ?_, fun hsame => hne (by rw [hsame])⟩
      exact commitmentOf_of_none ((committedBytes_eq_none_iff data).mpr hblob) data'
    · refine ⟨fun hblob => ?_, fun hsame => hne ?_⟩
      · rw [(committedBytes_eq_none_iff data).mpr hblob] at hbytes
        contradiction
      · rw [hsame, hbytes'] at hbytes
        exact (Option.some.inj hbytes).symm
  · rintro ⟨hmode, hne⟩
    cases hbytes : cfg.daStrategy.committedBytes rt data with
    | none => exact absurd ((committedBytes_eq_none_iff data).mp hbytes) hmode
    | some bytes =>
      cases hbytes' : cfg.daStrategy.committedBytes rt data' with
      | none => exact absurd ((committedBytes_eq_none_iff data').mp hbytes') hmode
      | some bytes' =>
        rw [commitmentOf_of_some hbytes, commitmentOf_of_some hbytes']
        by_cases hhash : rt.keccak256 bytes = rt.keccak256 bytes'
        · refine .inr ⟨bytes, bytes', rfl, rfl, ?_, hhash⟩
          rintro rfl
          exact hne (committedBytes_inj hzlib hbytes hbytes')
        · exact .inl fun hsame => hhash (toBytes32_h256_inj.mp hsame)

end Binding

/-- Of two batches that the bridge has recorded, the commitments differ or are hashes of two
strings that collide, if and only if the mode is not that of blobs and the data files differed
when the batches were submitted. They hold the data that was delivered, if they were written in
full. -/
theorem commitments_bind_iff (rt : Runtime) (hzlib : Function.Injective rt.zlib) (cfg : Config)
    (events : List DaemonEvent) (d : Daemon) (hr : Run (DaemonStep rt) .initial events d)
    (hcfg : ∀ cfg' queried, .start cfg' queried ∈ events → cfg' = cfg)
    (htrips : ∀ event ∈ events, event.RoundTrips rt)
    (s s' : Submission) (hs : s ∈ d.submissions) (hs' : s' ∈ d.submissions)
    (commitment commitment' : Bytes32) (hrecorded : s.RecordedAs rt commitment)
    (hrecorded' : s'.RecordedAs rt commitment') :
    ∃ fetched id fetched' id',
      (∃ looked w, .deliver fetched id looked w ∈ events) ∧ s.batch = .ofFetched rt fetched id ∧
      (∃ looked w, .deliver fetched' id' looked w ∈ events) ∧
      s'.batch = .ofFetched rt fetched' id' ∧
      ((∀ outcome, .writeFile outcome ∈ events → outcome = .done) →
        s.data = some fetched.batchData ∧ s'.data = some fetched'.batchData) ∧
      (commitment ≠ commitment' ∨
          Collision rt (s.data.bind (cfg.daStrategy.committedBytes rt ·))
            (s'.data.bind (cfg.daStrategy.committedBytes rt ·)) ↔
        cfg.da.mode ≠ .blob ∧ s.data ≠ s'.data) := by
  obtain ⟨fetched, id, hdelivered, hbatch, hfull, files, answers, stored, hsubmit⟩ :=
    submissions_of_run hr hcfg htrips s hs
  obtain ⟨fetched', id', hdelivered', hbatch', hfull', files', answers', stored', hsubmit'⟩ :=
    submissions_of_run hr hcfg htrips s' hs'
  obtain ⟨data, hdata, rfl⟩ :=
    commitment_of_recordedAs hsubmit (by rw [hbatch]; rfl) hrecorded
  obtain ⟨data', hdata', rfl⟩ :=
    commitment_of_recordedAs hsubmit' (by rw [hbatch']; rfl) hrecorded'
  refine ⟨fetched, id, fetched', id', hdelivered, hbatch, hdelivered', hbatch', ?_, ?_⟩
  · intro hwrites
    rw [hdata, hdata', hfull hwrites data hdata, hfull' hwrites data' hdata']
    exact ⟨rfl, rfl⟩
  · rw [hdata, hdata', ne_eq (some data), Option.some.injEq]
    exact commitmentOf_binds_iff hzlib data data'

def emptyArrayBatch : FetchedBatch :=
  fetchedBatch ['b', '1'] 2 [1, 2, 3]

def oneObjectBatch : FetchedBatch :=
  { fetchedBatch ['b', '2'] 3 [1, 2, 3] with batchData := [91, 123, 125, 93] }

def arrayRuntime (known : List Batch) : Runtime :=
  { localRuntime known with
    parseTransactions := fun data =>
      if data = [91, 93] then some []
      else if data = [91, 123, 125, 93] then some [.object []] else none }

def twoArrayRuntime : Runtime :=
  arrayRuntime [.ofFetched (arrayRuntime []) emptyArrayBatch (freshId 1),
    .ofFetched (arrayRuntime []) oneObjectBatch (freshId 2)]

def blobConfig : Config :=
  { calldataConfig with
    da := ⟨.blob, none, none⟩
    batch := ⟨some "0x0100000000000000000000000000000000000000000000000000000000000000".toList⟩ }

def bothSubmitted (cfg : Config) : List DaemonEvent :=
  [.start cfg true] ++ receive emptyArrayBatch (freshId 1) 1000 ++
    [minedWith 1 0xa1, .write (writeAt 1010), .write (writeAt 1020), .removeFile true] ++
    receive oneObjectBatch (freshId 2) 2000 ++ [minedWith 1 0xa2]

def mockBlobHash : Bytes32 :=
  BitVec.ofNat 256 (2 ^ 248)

def blobArgs (root : UInt8) : CommitArgs :=
  ⟨1, 0, [], 1 :: List.replicate 63 0, toBytes32 (List.replicate 32 root),
    [1, 2, 3] ++ List.replicate 253 0⟩

def calldataArgs (data : List UInt8) (root : UInt8) : CommitArgs :=
  ⟨0, 0, data, [], toBytes32 (List.replicate 32 root), [1, 2, 3] ++ List.replicate 253 0⟩

def bridgeWith (daId : UInt8) : Bridge :=
  { Bridge.deploy 1 7 5 100 with
    daProviders := Function.update (fun _ => 0) daId 9
    daEnabled := Function.update (fun _ => false) daId true }

def hosting (rt : Runtime) (provider : DaProvider) : External where
  computeCommitment _ batchData daMeta :=
    (provider.computeCommitment rt.contractKeccak batchData daMeta).toOption
  validateDA _ commitment daMeta := (provider.validateDA commitment daMeta).toBool
  mode _ := some provider.mode
  verifyProof _ _ _ := some true

def mockProvider : DaProvider :=
  .blob (Contracts.TestBlobDA.getBlobHash (Function.update (fun _ => 0) 0 mockBlobHash) [])

theorem recordedAs_of_commitBatch {rt : Runtime} {s : Submission} {args : CommitArgs}
    {sending : Sending} (hsent : s.sent = some (args, sending)) {provider : DaProvider}
    (hmode : provider.mode = args.daId) {σ σ' : Bridge} {block : Block} {msg : Msg}
    (hcommit : σ.commitBatch block msg (hosting rt provider) args = .ok σ') :
    s.RecordedAs rt (σ'.batchCommitment σ.nextBatchId) :=
  ⟨args, sending, σ, σ', block, msg, hosting rt provider, provider, hsent, hmode,
    ⟨fun _ _ => rfl, fun _ _ => rfl, rfl⟩, hcommit, rfl⟩

def threeModes : List (DaStrategy × DaProvider) :=
  [(.calldata none, .calldata), (blobConfig.daStrategy, mockProvider),
    (.offChain offchainStore, .offChain)]

theorem commitment_agrees_threeModes :
    threeModes.map (·.2.mode) = [0, 1, 2] ∧ ∀ mode ∈ threeModes, ∃ files' call commitment,
      mode.1.prepare twoArrayRuntime (fun _ => some oneObjectBatch.batchData)
          ⟨.accepted, .ok (), .done, .failed ""⟩
          (.ofFetched twoArrayRuntime oneObjectBatch (freshId 2)) ['0', '1'] 0 =
        (files', .ok call) ∧
      mode.1.computeCommitment twoArrayRuntime (fun _ => some oneObjectBatch.batchData)
          (.ofFetched twoArrayRuntime oneObjectBatch (freshId 2)) = .ok commitment ∧
      mode.2.computeCommitment twoArrayRuntime.contractKeccak call.args.batchData
          call.args.daMeta = .ok (toBytes32 commitment.toList) := by
  have hprepared : ∀ mode ∈ threeModes,
      (mode.1.prepare twoArrayRuntime (fun _ => some oneObjectBatch.batchData)
          ⟨.accepted, .ok (), .done, .failed ""⟩
          (.ofFetched twoArrayRuntime oneObjectBatch (freshId 2)) ['0', '1'] 0).2.map
        (fun call => call.args.daId) = .ok mode.2.mode := by
    decide +kernel
  refine ⟨rfl, fun mode hmem => ?_⟩
  obtain ⟨call, hcall, hmode⟩ := map_ok_iff.mp (hprepared mode hmem)
  obtain ⟨commitment, hcommitment, hsame⟩ := commitment_agrees twoArrayRuntime mode.1 _ _ _ _ _ _
    call (Prod.ext rfl hcall) mode.2 hmode.symm
  exact ⟨_, call, commitment, Prod.ext rfl hcall, hcommitment, hsame⟩

theorem bothSubmitted_sent (cfg : Config) (args args' : CommitArgs)
    (h : ((bothSubmitted cfg).foldlM (daemonStep twoArrayRuntime) .initial).map
        (fun d => d.submissions.map fun s => (s.sent.map Prod.fst, s.data)) =
      some [(some args, some [91, 93]), (some args', some [91, 123, 125, 93])]) :
    ∃ d s s' sending sending', Run (DaemonStep twoArrayRuntime) .initial (bothSubmitted cfg) d ∧
      d.submissions = [s, s'] ∧ s.sent = some (args, sending) ∧ s.data = some [91, 93] ∧
      s'.sent = some (args', sending') ∧ s'.data = some [91, 123, 125, 93] := by
  obtain ⟨d, hr, hview⟩ := exists_run_of_foldlM (daemonStep twoArrayRuntime) .initial
    (bothSubmitted cfg) _ h
  obtain ⟨s, rest, hlist, hfirst, hview⟩ := List.map_eq_cons_iff.mp hview
  obtain ⟨s', rest', rfl, hsecond, hview⟩ := List.map_eq_cons_iff.mp hview
  obtain rfl := List.map_eq_nil_iff.mp hview
  obtain ⟨hargs, hdata⟩ := Prod.mk.inj hfirst
  obtain ⟨hargs', hdata'⟩ := Prod.mk.inj hsecond
  obtain ⟨⟨_, sending⟩, hsent, rfl⟩ := Option.map_eq_some_iff.mp hargs
  obtain ⟨⟨_, sending'⟩, hsent', rfl⟩ := Option.map_eq_some_iff.mp hargs'
  exact ⟨d, s, s', sending, sending', hr, hlist, hsent, hdata, hsent', hdata'⟩

theorem calldata_commitments_bind :
    ∃ d s s' commitment commitment',
      Run (DaemonStep twoArrayRuntime) .initial (bothSubmitted calldataConfig) d ∧
      d.submissions = [s, s'] ∧ s.RecordedAs twoArrayRuntime commitment ∧
      s'.RecordedAs twoArrayRuntime commitment' ∧
      (commitment ≠ commitment' ∨
        Collision twoArrayRuntime
          (s.data.bind (calldataConfig.daStrategy.committedBytes twoArrayRuntime ·))
          (s'.data.bind (calldataConfig.daStrategy.committedBytes twoArrayRuntime ·))) := by
  obtain ⟨d, s, s', sending, sending', hr, hlist, hsent, hdata, hsent', hdata'⟩ :=
    bothSubmitted_sent calldataConfig (calldataArgs [91, 93] 2)
      (calldataArgs [91, 123, 125, 93] 3) (by decide +kernel)
  obtain ⟨σ, hcommit, -⟩ := map_ok_iff.mp (show ((bridgeWith 0).commitBatch ⟨1, 100⟩ ⟨1, 0⟩
      (hosting twoArrayRuntime .calldata) (calldataArgs [91, 93] 2)).map
      Bridge.nextBatchId = .ok 2 by decide +kernel)
  obtain ⟨σ', hcommit', -⟩ := map_ok_iff.mp (show ((bridgeWith 0).commitBatch ⟨1, 100⟩ ⟨1, 0⟩
      (hosting twoArrayRuntime .calldata) (calldataArgs [91, 123, 125, 93] 3)).map
      Bridge.nextBatchId = .ok 2 by decide +kernel)
  have hrecorded := recordedAs_of_commitBatch hsent rfl hcommit
  have hrecorded' := recordedAs_of_commitBatch hsent' rfl hcommit'
  have hstart : ∀ cfg queried, .start cfg queried ∈ bothSubmitted calldataConfig →
      cfg = calldataConfig := by
    simp [bothSubmitted, receive, minedWith]
  obtain ⟨_, _, _, _, -, -, -, -, -, hbinds⟩ := commitments_bind_iff twoArrayRuntime
    Function.injective_id calldataConfig _ d hr hstart (by decide +kernel) s s'
    (by simp [hlist]) (by simp [hlist]) _ _ hrecorded hrecorded'
  refine ⟨d, s, s', _, _, hr, hlist, hrecorded, hrecorded', hbinds.mpr ⟨by decide, ?_⟩⟩
  rw [hdata, hdata']
  decide

/-- With the mock hash that the deployment scripts set, both batches are recorded with it. -/
theorem blob_commitments_equal :
    ∃ d s s', Run (DaemonStep twoArrayRuntime) .initial (bothSubmitted blobConfig) d ∧
      d.submissions = [s, s'] ∧ s.data = some emptyArrayBatch.batchData ∧
      s'.data = some oneObjectBatch.batchData ∧
      emptyArrayBatch.batchData ≠ oneObjectBatch.batchData ∧
      s.RecordedAs twoArrayRuntime mockBlobHash ∧ s'.RecordedAs twoArrayRuntime mockBlobHash ∧
      ¬ Collision twoArrayRuntime
        (s.data.bind (blobConfig.daStrategy.committedBytes twoArrayRuntime ·))
        (s'.data.bind (blobConfig.daStrategy.committedBytes twoArrayRuntime ·)) := by
  obtain ⟨d, s, s', sending, sending', hr, hlist, hsent, hdata, hsent', hdata'⟩ :=
    bothSubmitted_sent blobConfig (blobArgs 2) (blobArgs 3) (by decide +kernel)
  obtain ⟨σ, hcommit, h⟩ := bind_ok_iff.mp (show (do
      let σ ← (bridgeWith 1).commitBatch ⟨1, 100⟩ ⟨1, 0⟩ (hosting twoArrayRuntime mockProvider)
        (blobArgs 2)
      (σ.commitBatch ⟨2, 200⟩ ⟨1, 0⟩ (hosting twoArrayRuntime mockProvider) (blobArgs 3)).map
        fun σ' : Bridge => (σ.batchCommitment (bridgeWith 1).nextBatchId,
          σ'.batchCommitment σ.nextBatchId)) = .ok (mockBlobHash, mockBlobHash)
    by decide +kernel)
  obtain ⟨σ', hcommit', h⟩ := map_ok_iff.mp h
  obtain ⟨hfirst, hsecond⟩ := Prod.mk.inj h
  have hrecorded := recordedAs_of_commitBatch hsent rfl hcommit
  have hrecorded' := recordedAs_of_commitBatch hsent' rfl hcommit'
  rw [hfirst] at hrecorded
  rw [hsecond] at hrecorded'
  refine ⟨d, s, s', hr, hlist, hdata, hdata', by decide, hrecorded, hrecorded', ?_⟩
  rintro ⟨bytes, _, hbytes, -⟩
  rw [hdata, Option.bind_some, (committedBytes_eq_none_iff _).mpr rfl] at hbytes
  cases hbytes

end RollupX.Submitter
