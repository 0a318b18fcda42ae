import RollupX.Verification.Contracts.Calls

/-! Which batch the latest root belongs to, and by what right it was set. The bridge keeps one
pending root and no note of the batch it came from. -/

namespace RollupX.Contracts

open Machine

/-- A commitment made in optimistic mode. -/
structure StoredRoot where
  batchId : Uint256
  root : Bytes32
  block : Block
  deriving DecidableEq

/-- The last commitment that stored a pending root, and the batches whose roots were
assigned to `latestStateRoot`, oldest first. -/
structure RootSources where
  stored : Option StoredRoot
  installed : List Uint256

def RootSources.start : RootSources :=
  ⟨none, []⟩

def RootSources.note (g : RootSources) (σ : Bridge) : BridgeStepLabel → RootSources
  | .call block _ (.commitBatch _ args) =>
    if σ.optimisticMode then { g with stored := some ⟨σ.nextBatchId, args.newRoot, block⟩ }
    else { g with installed := g.installed ++ [σ.nextBatchId] }
  | .call _ _ .finalizeOptimisticRoot =>
    { g with installed := g.installed ++ (g.stored.map StoredRoot.batchId).toList }
  | _ => g

theorem RootSources.note_of_not_setsRoot (g : RootSources) (σ : Bridge)
    {label : BridgeStepLabel} (h : label.setsRoot = false) : g.note σ label = g := by
  cases label with
  | call block msg call =>
    cases call with
    | commitBatch ext args | finalizeOptimisticRoot => cases h
    | _ => rfl
  | _ => rfl

abbrev SourcedMachine := CallFrames (Bridge × RootSources) OpenCall

abbrev SourcedStep (keccak256 : List UInt8 → Bytes32) :=
  GhostStep RootSources.note keccak256

def deployed (sender verifier : EthAddress) (genesisRoot : Bytes32) (delay : Uint256) :
    SourcedMachine :=
  CallFrames.start (Bridge.deploy sender verifier genesisRoot delay, .start)

variable {σ σ' : Bridge} {g : RootSources} {block : Block} {msg : Msg}

theorem RootSources.note_commitVerified {ext : External} {args : Bridge.CommitArgs}
    (h : σ.optimisticMode = false) : g.note σ (.call block msg (.commitBatch ext args)) =
      { g with installed := g.installed ++ [σ.nextBatchId] } := by
  simp [RootSources.note, h]

theorem RootSources.note_commitOptimistic {ext : External} {args : Bridge.CommitArgs}
    (h : σ.optimisticMode = true) : g.note σ (.call block msg (.commitBatch ext args)) =
      { g with stored := some ⟨σ.nextBatchId, args.newRoot, block⟩ } := by
  simp [RootSources.note, h]

/-- A pending root is the one of the last optimistic commitment, with its time. -/
def PendingStored (σ : Bridge) (g : RootSources) : Prop :=
  σ.pendingStateRoot ≠ 0 → ∃ s, g.stored = some s ∧ s.root = σ.pendingStateRoot ∧
    s.block.timestamp = σ.pendingTimestamp

theorem PendingStored.call {call : BridgeCall} (hset : call.setsRoot = true)
    (h : PendingStored σ g) (he : CallEffect σ block msg call σ') :
    PendingStored σ' (g.note σ (.call block msg call)) := by
  cases he with
  | commitVerified ext args daCommitment points daMode next hchecks hmode =>
    intro hne
    obtain ⟨s, hs, hroot, htime⟩ := h hne
    rw [RootSources.note_commitVerified hmode]
    exact ⟨s, hs, hroot, htime⟩
  | commitOptimistic ext args daCommitment points daMode next hchecks hmode =>
    intro _
    rw [RootSources.note_commitOptimistic hmode]
    exact ⟨_, rfl, rfl, rfl⟩
  | finalizeOptimisticRoot =>
    intro hne
    exact absurd rfl hne
  | _ => cases hset

theorem PendingStored.step {label : BridgeStepLabel} (h : PendingStored σ g)
    (he : StepEffect σ label σ') : PendingStored σ' (g.note σ label) := by
  cases hset : label.setsRoot with
  | false =>
    obtain ⟨-, hpending⟩ := he.keeps_roots hset
    rw [g.note_of_not_setsRoot σ hset]
    intro hne
    rw [hpending.root] at hne
    obtain ⟨s, hs, hroot, htime⟩ := h hne
    exact ⟨s, hs, hroot.trans hpending.root.symm, htime.trans hpending.timestamp.symm⟩
  | true =>
    cases he with
    | call he => exact h.call hset he
    | _ => cases hset

theorem pendingStored_of_run {keccak256 : List UInt8 → Bytes32} {sender verifier : EthAddress}
    {genesisRoot : Bytes32} {delay : Uint256} {labels : List BridgeStepLabel}
    {c : SourcedMachine}
    (hr : Run (SourcedStep keccak256) (deployed sender verifier genesisRoot delay) labels c) :
    PendingStored c.current.1 c.current.2 := by
  have hall : c.All fun b => PendingStored b.1 b.2 := by
    apply hr.invariant_of_step (I := fun c => c.All fun b => PendingStored b.1 b.2)
    · intro d label d' hd hstep
      exact hstep.all hd fun σ he h => h.step he
    · exact CallFrames.all_start fun hne => absurd rfl hne
  exact hall.current

theorem eq_of_halves {x y : Bytes32}
    (hlow : x &&& BitVec.ofNat 256 (2 ^ 128 - 1) = y &&& BitVec.ofNat 256 (2 ^ 128 - 1))
    (hhigh : x >>> 128 = y >>> 128) : x = y := by
  have hmask : (BitVec.ofNat 256 (2 ^ 128 - 1)).toNat = 2 ^ 128 - 1 := by decide
  have hmod := congrArg BitVec.toNat hlow
  have hdiv := congrArg BitVec.toNat hhigh
  rw [BitVec.toNat_and, BitVec.toNat_and, hmask, Nat.and_two_pow_sub_one_eq_mod,
    Nat.and_two_pow_sub_one_eq_mod] at hmod
  rw [BitVec.toNat_ushiftRight, BitVec.toNat_ushiftRight, Nat.shiftRight_eq_div_pow,
    Nat.shiftRight_eq_div_pow] at hdiv
  apply BitVec.eq_of_toNat_eq
  rw [← Nat.div_add_mod x.toNat (2 ^ 128), hdiv, hmod, Nat.div_add_mod]

theorem publicInputs_eq_iff {oldRoot newRoot commitment oldRoot' newRoot' commitment' : Bytes32} :
    Bridge.publicInputs oldRoot newRoot commitment =
        Bridge.publicInputs oldRoot' newRoot' commitment' ↔
      oldRoot = oldRoot' ∧ newRoot = newRoot' ∧ commitment = commitment' := by
  constructor
  · intro h
    obtain ⟨hold, hnew, hlow, hhigh, -⟩ := by
      simpa only [Bridge.publicInputs, List.cons.injEq] using h
    exact ⟨hold, hnew, eq_of_halves hlow hhigh⟩
  · rintro ⟨rfl, rfl, rfl⟩
    rfl

/-- The step is a commitment outside optimistic mode whose verifier accepted public inputs
that encode the previous root, the new root and the recorded commitment, and nothing else. -/
def VerifiedCommit (σ : Bridge) (label : BridgeStepLabel) (σ' : Bridge) : Prop :=
  ∃ block msg ext args points inputs, label = .call block msg (.commitBatch ext args) ∧
    σ.optimisticMode = false ∧
    ext.verifyProof (σ.verifiers args.verifierId) points inputs = some true ∧
    ∀ oldRoot newRoot commitment, Bridge.publicInputs oldRoot newRoot commitment = inputs ↔
      oldRoot = σ.latestStateRoot ∧ newRoot = σ'.latestStateRoot ∧
        commitment = σ'.batchCommitment σ.nextBatchId

/-- The step is a finalisation in optimistic mode, at least the present challenge period
after the block of the commitment that stored the root it installs. -/
def ChallengedRoot (σ : Bridge) (g : RootSources) (label : BridgeStepLabel) (σ' : Bridge) :
    Prop :=
  ∃ block msg s, label = .call block msg .finalizeOptimisticRoot ∧ σ.optimisticMode = true ∧
    g.stored = some s ∧ s.root = σ'.latestStateRoot ∧
    s.block.timestamp.toNat + σ.challengePeriod.toNat ≤ block.timestamp.toNat

theorem StepEffect.authorised {label : BridgeStepLabel} (he : StepEffect σ label σ')
    (hstored : PendingStored σ g) (hchange : σ'.latestStateRoot ≠ σ.latestStateRoot) :
    VerifiedCommit σ label σ' ∨ ChallengedRoot σ g label σ' := by
  cases hset : label.setsRoot with
  | false => exact absurd (he.keeps_roots hset).1.latest hchange
  | true =>
    cases he with
    | call he =>
      cases he with
      | commitVerified ext args daCommitment points daMode next hchecks hmode hproof =>
        refine .inl ⟨_, _, ext, args, points, _, rfl, hmode, hproof, ?_⟩
        intro oldRoot newRoot commitment
        have hrecorded : (Function.update σ.batchCommitment σ.nextBatchId daCommitment)
            σ.nextBatchId = daCommitment := Function.update_self ..
        rw [publicInputs_eq_iff]
        exact ⟨fun ⟨ho, hn, hc⟩ => ⟨ho, hn, hc.trans hrecorded.symm⟩,
          fun ⟨ho, hn, hc⟩ => ⟨ho, hn, hc.trans hrecorded⟩⟩
      | commitOptimistic => exact absurd rfl hchange
      | finalizeOptimisticRoot hvalue hmode hne htime =>
        obtain ⟨s, hs, hroot, hblock⟩ := hstored hne
        exact .inr ⟨_, _, s, rfl, hmode, hs, hroot, hblock ▸ htime⟩
      | _ => cases hset
    | _ => cases hset

/-- In every run from the deployment, whatever the providers and verifiers answer: a step
that changes the latest root, other than the undoing of a call that failed, is a commitment
with a verified proof or the finalisation of a root after its challenge period. -/
theorem rootChange_authorised (keccak256 : List UInt8 → Bytes32) (sender verifier : EthAddress)
    (genesisRoot : Bytes32) (delay : Uint256) (labels : List BridgeStepLabel)
    (c c' : SourcedMachine) (label : BridgeStepLabel)
    (hr : Run (SourcedStep keccak256) (deployed sender verifier genesisRoot delay) labels c)
    (hstep : SourcedStep keccak256 c label c') (hlabel : label ≠ .fail)
    (hchange : c'.current.1.latestStateRoot ≠ c.current.1.latestStateRoot) :
    VerifiedCommit c.current.1 label c'.current.1 ∨
      ChallengedRoot c.current.1 c.current.2 label c'.current.1 := by
  have hstored := pendingStored_of_run hr
  rcases hstep.step.current hlabel with hsame | ⟨σ, he, hnext⟩
  · exact absurd (congrArg (fun b => b.1.latestStateRoot) hsame) hchange
  · rw [hnext] at hchange ⊢
    exact he.authorised hstored hchange

theorem rootChange_authorised_finalized :
    ∃ c c', Run (SourcedStep fun _ => 0) (deployed 1 7 5 10)
        (optimisticSetup ++ [commitRootAt 2 11]) c ∧
      SourcedStep (fun _ => 0) c (ownerCallAt 11000 .finalizeOptimisticRoot) c' ∧
      c.current.1.latestStateRoot = 5 ∧ c'.current.1.latestStateRoot = 11 ∧
      (VerifiedCommit c.current.1 (ownerCallAt 11000 .finalizeOptimisticRoot) c'.current.1 ∨
        ChallengedRoot c.current.1 c.current.2 (ownerCallAt 11000 .finalizeOptimisticRoot)
          c'.current.1) := by
  obtain ⟨c, c', hr, hstep, hroots⟩ := exists_step_of_foldlM
    (ghostStep RootSources.note fun _ => 0) (deployed 1 7 5 10)
    (optimisticSetup ++ [commitRootAt 2 11]) (ownerCallAt 11000 .finalizeOptimisticRoot)
    (fun c c' => (c.current.1.latestStateRoot, c'.current.1.latestStateRoot)) (b := (5, 11))
    (by decide +kernel)
  obtain ⟨hold, hnew⟩ := Prod.mk.inj hroots
  refine ⟨c, c', hr, hstep, hold, hnew, ?_⟩
  apply rootChange_authorised (fun _ => 0) 1 7 5 10 _ c c' _ hr hstep (by simp [ownerCallAt])
  intro hsame
  rw [hold, hnew] at hsame
  exact absurd hsame (by decide)

/-- Outside optimistic mode, `commitBatch` goes through only when no root is pending. -/
def OvertakesNone (c : SourcedMachine) (label : BridgeStepLabel) : Prop :=
  label.commitsBatch = true → label.goesThrough c.current.1 = true →
    c.current.1.optimisticMode = false → c.current.1.pendingStateRoot = 0

instance (c : SourcedMachine) (label : BridgeStepLabel) : Decidable (OvertakesNone c label) :=
  inferInstanceAs (Decidable (label.commitsBatch = true → label.goesThrough c.current.1 = true →
    c.current.1.optimisticMode = false → c.current.1.pendingStateRoot = 0))

/-- The batches installed so far increase, the last of them has the latest root, and a
pending root belongs to a newer batch than all of them. -/
structure InOrder (σ : Bridge) (g : RootSources) : Prop where
  increasing : g.installed.Pairwise (· < ·)
  below : ∀ i ∈ g.installed, i < σ.nextBatchId
  latest : ∀ i, g.installed.getLast? = some i → σ.latestStateRoot = σ.batchNewRoot i
  pending : σ.pendingStateRoot ≠ 0 → ∃ s, g.stored = some s ∧ s.batchId < σ.nextBatchId ∧
    (∀ i ∈ g.installed, i < s.batchId) ∧ σ.pendingStateRoot = σ.batchNewRoot s.batchId

theorem InOrder.of_same (h : InOrder σ g) (hb : σ.SameBatches σ') (hp : σ.SamePending σ') :
    InOrder σ' g := by
  refine ⟨h.increasing, ?_, ?_, ?_⟩
  · rw [hb.next]
    exact h.below
  · rw [hb.latest, hb.newRoot]
    exact h.latest
  · rw [hp.root, hb.next, hb.newRoot]
    exact h.pending

theorem lt_of_toNat_succ {i n n' : Uint256} (hn : n'.toNat = n.toNat + 1) (hi : i < n) :
    i < n' := by
  rw [BitVec.lt_def] at hi ⊢
  omega

theorem update_next_of_lt {α : Type} {f : Uint256 → α} {n i : Uint256} {a : α} (hi : i < n) :
    Function.update f n a i = f i :=
  Function.update_of_ne (BitVec.ne_of_lt hi) ..

theorem pairwise_concat {l : List Uint256} {n : Uint256} (h : l.Pairwise (· < ·))
    (hn : ∀ i ∈ l, i < n) : (l ++ [n]).Pairwise (· < ·) := by
  refine List.pairwise_append.mpr ⟨h, List.pairwise_singleton _ n, ?_⟩
  intro i hi j hj
  rw [List.mem_singleton.mp hj]
  exact hn i hi

theorem InOrder.commitVerified {next : Uint256} {daMeta : List UInt8} {batch : CommittedBatch}
    {newRoot : Bytes32} (h : InOrder σ g) (hnone : σ.pendingStateRoot = 0)
    (hid : batch.batchId = σ.nextBatchId)
    (hroot : batch.newRoot = newRoot)
    (hnext : next.toNat = σ.nextBatchId.toNat + 1) :
    InOrder
      (((σ.softCommit block newRoot).installRoot newRoot).addBatch next daMeta batch)
      { g with installed := g.installed ++ [σ.nextBatchId] } := by
  have hnew : σ.nextBatchId < next := by
    rw [BitVec.lt_def]
    omega
  refine ⟨pairwise_concat h.increasing h.below, ?_, ?_, fun hne => absurd hnone hne⟩
  · intro i hi
    rcases List.mem_append.mp hi with hi | hi
    · exact lt_of_toNat_succ hnext (h.below i hi)
    · rw [List.mem_singleton.mp hi]
      exact hnew
  · intro i hi
    rw [List.getLast?_concat, Option.some.injEq] at hi
    subst hi
    change newRoot = Function.update σ.batchNewRoot batch.batchId batch.newRoot _
    rw [hid, Function.update_self, hroot]

theorem InOrder.commitOptimistic {next : Uint256} {daMeta : List UInt8}
    {batch : CommittedBatch} {newRoot : Bytes32} (h : InOrder σ g)
    (hid : batch.batchId = σ.nextBatchId)
    (hroot : batch.newRoot = newRoot)
    (hnext : next.toNat = σ.nextBatchId.toNat + 1) :
    InOrder
      (((σ.softCommit block newRoot).storeRoot newRoot block.timestamp).addBatch next
        daMeta batch)
      { g with stored := some ⟨σ.nextBatchId, newRoot, block⟩ } := by
  have hnew : σ.nextBatchId < next := by
    rw [BitVec.lt_def]
    omega
  refine ⟨h.increasing, fun i hi => lt_of_toNat_succ hnext (h.below i hi), ?_, ?_⟩
  · intro i hi
    have hlt := h.below i (List.mem_of_getLast? hi)
    change σ.latestStateRoot = Function.update σ.batchNewRoot batch.batchId batch.newRoot i
    rw [hid, update_next_of_lt hlt]
    exact h.latest i hi
  · intro _
    refine ⟨_, rfl, hnew, h.below, ?_⟩
    change newRoot = Function.update σ.batchNewRoot batch.batchId batch.newRoot _
    rw [hid, Function.update_self, hroot]

theorem InOrder.finalizeOptimisticRoot (h : InOrder σ g) (hne : σ.pendingStateRoot ≠ 0) :
    InOrder
      ({ σ with latestStateRoot := σ.pendingStateRoot, pendingStateRoot := 0 }.emit
        (.optimisticRootFinalized σ.pendingStateRoot))
      { g with installed := g.installed ++ (g.stored.map StoredRoot.batchId).toList } := by
  obtain ⟨s, hs, hlt, habove, hroot⟩ := h.pending hne
  rw [hs]
  refine ⟨pairwise_concat h.increasing habove, ?_, ?_, fun hne => absurd rfl hne⟩
  · intro i hi
    rcases List.mem_append.mp hi with hi | hi
    · exact h.below i hi
    · rw [List.mem_singleton.mp hi]
      exact hlt
  · intro i hi
    rw [Option.map_some, Option.toList_some, List.getLast?_concat, Option.some.injEq] at hi
    subst hi
    exact hroot

theorem InOrder.step {label : BridgeStepLabel} (h : InOrder σ g)
    (hnone : label.commitsBatch = true → label.goesThrough σ = true →
      σ.optimisticMode = false → σ.pendingStateRoot = 0)
    (he : StepEffect σ label σ') : InOrder σ' (g.note σ label) := by
  cases hset : label.setsRoot with
  | false =>
    obtain ⟨hbatches, hpending⟩ := he.keeps_roots hset
    rw [g.note_of_not_setsRoot σ hset]
    exact h.of_same hbatches hpending
  | true =>
    cases he with
    | call he hok =>
      cases he with
      | commitVerified ext args daCommitment points daMode next hchecks hmode =>
        rw [RootSources.note_commitVerified hmode]
        exact h.commitVerified (hnone rfl (goesThrough_of_ok hok) hmode) rfl rfl hchecks.next
      | commitOptimistic ext args daCommitment points daMode next hchecks hmode =>
        rw [RootSources.note_commitOptimistic hmode]
        exact h.commitOptimistic rfl rfl hchecks.next
      | finalizeOptimisticRoot hvalue hmode hne htime => exact h.finalizeOptimisticRoot hne
      | _ => cases hset
    | _ => cases hset

/-- From the deployment on, over any calls and any switches of the mode: if no root is
pending whenever `commitBatch` goes through outside optimistic mode, then the batches whose
roots become the latest root do so in increasing order, and the latest root is always that
of the last of them. -/
theorem finality_monotone_of_overtakesNone (keccak256 : List UInt8 → Bytes32)
    (sender verifier : EthAddress) (genesisRoot : Bytes32) (delay : Uint256)
    (labels : List BridgeStepLabel) (c : SourcedMachine)
    (hr : Run (SourcedStep keccak256) (deployed sender verifier genesisRoot delay) labels c)
    (hnone : Along (SourcedStep keccak256) OvertakesNone
      (deployed sender verifier genesisRoot delay) labels) :
    c.current.2.installed.Pairwise (· < ·) ∧
      ∀ i, c.current.2.installed.getLast? = some i →
        c.current.1.latestStateRoot = c.current.1.batchNewRoot i := by
  have hall : c.All fun b => InOrder b.1 b.2 := by
    apply hr.invariant (I := fun c => c.All fun b => InOrder b.1 b.2) _ hnone
    · exact CallFrames.all_start ⟨.nil, by simp [RootSources.start],
        by simp [RootSources.start], fun hne => absurd rfl hne⟩
    · intro d label d' hd hok hstep
      exact hstep.all hd fun σ he h => h.step hok he
  exact ⟨hall.current.increasing, hall.current.latest⟩

theorem finality_monotone_finalizedFirst :
    ∃ c, Run (SourcedStep fun _ => 0) (deployed 1 7 5 10)
        (optimisticSetup ++ [commitRootAt 2 11, ownerCallAt 11000 .finalizeOptimisticRoot,
          ownerCallAt 11001 (.setOptimisticMode false), commitRootAt 11002 12]) c ∧
      c.current.2.installed = [1, 2] ∧ c.current.2.installed.Pairwise (· < ·) := by
  obtain ⟨c, hr, hc⟩ := exists_run_of_foldlM (ghostStep RootSources.note fun _ => 0)
    (deployed 1 7 5 10)
    (optimisticSetup ++ [commitRootAt 2 11, ownerCallAt 11000 .finalizeOptimisticRoot,
      ownerCallAt 11001 (.setOptimisticMode false), commitRootAt 11002 12])
    (fun c => c.current.2.installed) (b := [1, 2]) (by decide +kernel)
  refine ⟨c, hr, hc, (finality_monotone_of_overtakesNone (fun _ => 0) 1 7 5 10 _ c hr ?_).1⟩
  exact Along.of_check (f := ghostStep RootSources.note fun _ => 0) (by decide +kernel)

/-- Batch 1 is left pending in optimistic mode, batch 2 is committed with a proof, and back
in optimistic mode the root of batch 1 is installed over that of batch 2. -/
theorem finality_notMonotone_overtaken :
    ∃ c, Run (SourcedStep fun _ => 0) (deployed 1 7 5 10)
        (optimisticSetup ++ [commitRootAt 2 11, ownerCallAt 3 (.setOptimisticMode false),
          commitRootAt 4 12, ownerCallAt 5 (.setOptimisticMode true),
          ownerCallAt 11000 .finalizeOptimisticRoot]) c ∧
      c.current.2.installed = [2, 1] ∧ c.current.1.batchNewRoot 1 = 11 ∧
      c.current.1.batchNewRoot 2 = 12 ∧ c.current.1.latestStateRoot = 11 := by
  obtain ⟨c, hr, hc⟩ := exists_run_of_foldlM (ghostStep RootSources.note fun _ => 0)
    (deployed 1 7 5 10)
    (optimisticSetup ++ [commitRootAt 2 11, ownerCallAt 3 (.setOptimisticMode false),
      commitRootAt 4 12, ownerCallAt 5 (.setOptimisticMode true),
      ownerCallAt 11000 .finalizeOptimisticRoot])
    (fun c => decide (c.current.2.installed = [2, 1] ∧ c.current.1.batchNewRoot 1 = 11 ∧
      c.current.1.batchNewRoot 2 = 12 ∧ c.current.1.latestStateRoot = 11))
    (b := true) (by decide +kernel)
  exact ⟨c, hr, of_decide_eq_true hc⟩

end RollupX.Contracts
