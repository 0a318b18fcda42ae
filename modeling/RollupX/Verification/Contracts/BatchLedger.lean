import RollupX.Verification.Contracts.RootLinkage

/-! The bridge's record of batches. Only `commitBatch` writes to it, at the id that comes next. -/

namespace RollupX.Contracts

open Machine

variable {σ σ' τ : Bridge} {block : Block} {msg : Msg} {label : BridgeStepLabel}

structure Bridge.SameEntries (σ σ' : Bridge) : Prop where
  commits : σ'.commits = σ.commits
  next : σ'.nextBatchId = σ.nextBatchId
  dataEntries : σ'.batchCommitment = σ.batchCommitment
  rootEntries : σ'.batchNewRoot = σ.batchNewRoot

/-- One batch more, recorded at the id that came next and nowhere else. -/
structure Bridge.Appends (σ σ' : Bridge) (daCommitment newRoot : Bytes32) : Prop where
  announced : ∃ batch : CommittedBatch, σ'.commits = σ.commits ++ [batch] ∧
    batch.batchId = σ.nextBatchId ∧ batch.daCommitment = daCommitment ∧ batch.newRoot = newRoot
  next : σ'.nextBatchId.toNat = σ.nextBatchId.toNat + 1
  dataEntry : σ'.batchCommitment = Function.update σ.batchCommitment σ.nextBatchId daCommitment
  rootEntry : σ'.batchNewRoot = Function.update σ.batchNewRoot σ.nextBatchId newRoot
  ne_zero : newRoot ≠ 0

theorem StepEffect.commits_eq (h : StepEffect σ label σ') (hlabel : label.commitsBatch = false) :
    σ'.commits = σ.commits := by
  cases h with
  | call he =>
    cases hset : BridgeCall.setsRoot _ with
    | false => exact (he.sameRoots hset).commits
    | true =>
      cases he with
      | commitVerified | commitOptimistic => cases hlabel
      | finalizeOptimisticRoot =>
        rw [Bridge.commits_emit]
        simp [BridgeEvent.committed, Bridge.commits]
      | _ => cases hset
  | depositERC20 => rfl
  | withdraw => rfl
  | succeed k => exact (k.finish_sameRoots σ).commits

theorem StepEffect.sameEntries (h : StepEffect σ label σ') (hlabel : label.commitsBatch = false) :
    σ.SameEntries σ' := by
  have hcommits := h.commits_eq hlabel
  cases hset : label.setsRoot with
  | false =>
    obtain ⟨hsame, -⟩ := h.keeps_roots hset
    exact ⟨hcommits, hsame.next, hsame.commitment, hsame.newRoot⟩
  | true =>
    cases h with
    | call he =>
      cases he with
      | commitVerified | commitOptimistic => cases hlabel
      | finalizeOptimisticRoot => exact ⟨hcommits, rfl, rfl, rfl⟩
      | _ => cases hset
    | _ => cases hset

theorem CallEffect.appends {ext : External} {args : Bridge.CommitArgs}
    (h : CallEffect σ block msg (.commitBatch ext args) σ') :
    ∃ daCommitment,
      ext.computeCommitment (σ.daProviders args.daId) args.batchData args.daMeta =
        some daCommitment ∧ σ.Appends σ' daCommitment args.newRoot := by
  have hsoft := σ.commits_softCommit block args.newRoot
  cases h with
  | commitVerified _ _ daCommitment _ _ _ hchecks
  | commitOptimistic _ _ daCommitment _ _ _ hchecks =>
    exact ⟨daCommitment, hchecks.commitment,
      ⟨_, (Bridge.commits_addBatch ..).trans (congrArg (fun l => l ++ [_]) hsoft), rfl, rfl, rfl⟩,
      hchecks.next, rfl, rfl, hchecks.root⟩

theorem StepEffect.record (h : StepEffect σ label σ') :
    σ.SameEntries σ' ∨ ∃ daCommitment newRoot, σ.Appends σ' daCommitment newRoot := by
  cases hlabel : label.commitsBatch with
  | false => exact .inl (h.sameEntries hlabel)
  | true =>
    cases h with
    | @call _ _ call _ he =>
      cases call with
      | commitBatch ext args =>
        obtain ⟨daCommitment, -, happends⟩ := he.appends
        exact .inr ⟨daCommitment, args.newRoot, happends⟩
      | _ => cases hlabel
    | _ => cases hlabel

/-- The announced batches have the ids from one on, and each is recorded at its id, with a root
that is not zero. -/
structure Bridge.Recorded (σ : Bridge) : Prop where
  ids : σ.commits.map (fun e => e.batchId.toNat) = List.range' 1 σ.commits.length
  next : σ.nextBatchId.toNat = σ.commits.length + 1
  entries : ∀ e ∈ σ.commits, σ.batchCommitment e.batchId = e.daCommitment ∧
    σ.batchNewRoot e.batchId = e.newRoot ∧ e.newRoot ≠ 0

theorem Bridge.recorded_deploy (sender verifier : EthAddress) (genesisRoot : Bytes32)
    (delay : Uint256) : (Bridge.deploy sender verifier genesisRoot delay).Recorded :=
  ⟨rfl, rfl, nofun⟩

theorem Bridge.Recorded.lt_next (h : σ.Recorded) {e : CommittedBatch} (he : e ∈ σ.commits) :
    e.batchId.toNat < σ.nextBatchId.toNat := by
  have hid : e.batchId.toNat ∈ σ.commits.map fun e => e.batchId.toNat := List.mem_map_of_mem he
  rw [h.ids, List.mem_range'_1] at hid
  have hnext := h.next
  omega

theorem Bridge.Recorded.exists_commit (h : σ.Recorded) {id : Uint256} (hone : 1 ≤ id.toNat)
    (hlt : id.toNat < σ.nextBatchId.toNat) : ∃ e ∈ σ.commits, e.batchId = id := by
  have hnext := h.next
  have hid : id.toNat ∈ List.range' 1 σ.commits.length := by
    rw [List.mem_range'_1]
    omega
  rw [← h.ids, List.mem_map] at hid
  obtain ⟨e, he, hid⟩ := hid
  exact ⟨e, he, BitVec.eq_of_toNat_eq hid⟩

theorem Bridge.Recorded.of_sameEntries (h : σ.Recorded) (hs : σ.SameEntries σ') :
    σ'.Recorded := by
  obtain ⟨hcommits, hnext, hcommitment, hnewRoot⟩ := hs
  refine ⟨?_, ?_, ?_⟩
  · rw [hcommits]
    exact h.ids
  · rw [hcommits, hnext]
    exact h.next
  · rw [hcommits, hcommitment, hnewRoot]
    exact h.entries

theorem Bridge.Recorded.append {daCommitment newRoot : Bytes32} (h : σ.Recorded)
    (ha : σ.Appends σ' daCommitment newRoot) : σ'.Recorded := by
  obtain ⟨⟨batch, hcommits, hid, hdata, hroot⟩, hnext, hcommitment, hnewRoot, hne⟩ := ha
  refine ⟨?_, ?_, ?_⟩
  · rw [hcommits, List.map_append, h.ids, List.length_append, List.length_singleton,
      List.range'_1_concat, List.map_singleton, hid, h.next, Nat.add_comm 1]
  · rw [hnext, h.next, hcommits, List.length_append, List.length_singleton]
  · rw [hcommits, List.forall_mem_append, List.forall_mem_singleton, hcommitment, hnewRoot, hid,
      hdata, hroot, Function.update_self, Function.update_self]
    refine ⟨fun e he => ?_, rfl, rfl, hne⟩
    have hother : e.batchId ≠ σ.nextBatchId := by
      intro heq
      exact absurd (h.lt_next he) (by rw [heq]; exact lt_irrefl _)
    rw [Function.update_of_ne hother, Function.update_of_ne hother]
    exact h.entries e he

theorem BridgeStep.recorded {keccak256 : List UInt8 → Bytes32} {c c' : BridgeMachine}
    (hstep : BridgeStep keccak256 c label c') (h : c.All Bridge.Recorded) :
    c'.All Bridge.Recorded := by
  apply hstep.step.all h
  intro σ' heffect hσ
  rcases heffect.record with hsame | ⟨daCommitment, newRoot, happends⟩
  · exact hσ.of_sameEntries hsame
  · exact hσ.append happends

/-- The later bridge has the entries of the earlier one as they were, and its announcements
first. -/
structure Bridge.Extends (σ σ' : Bridge) : Prop where
  commits : σ.commits <+: σ'.commits
  next : σ.nextBatchId.toNat ≤ σ'.nextBatchId.toNat
  entries : ∀ id : Uint256, id.toNat < σ.nextBatchId.toNat →
    σ'.batchCommitment id = σ.batchCommitment id ∧ σ'.batchNewRoot id = σ.batchNewRoot id

theorem Bridge.Extends.refl (σ : Bridge) : σ.Extends σ :=
  ⟨List.prefix_rfl, le_rfl, fun _ _ => ⟨rfl, rfl⟩⟩

theorem Bridge.Extends.trans (h : σ.Extends τ) (h' : τ.Extends σ') : σ.Extends σ' := by
  refine ⟨h.commits.trans h'.commits, h.next.trans h'.next, fun id hid => ?_⟩
  obtain ⟨hcommitment, hroot⟩ := h'.entries id (hid.trans_le h.next)
  rw [hcommitment, hroot]
  exact h.entries id hid

theorem Bridge.SameEntries.extends (h : σ.SameEntries σ') : σ.Extends σ' := by
  obtain ⟨hcommits, hnext, hcommitment, hnewRoot⟩ := h
  refine ⟨?_, ?_, ?_⟩
  · rw [hcommits]
  · rw [hnext]
  · rw [hcommitment, hnewRoot]
    exact fun _ _ => ⟨rfl, rfl⟩

theorem Bridge.Appends.extends {daCommitment newRoot : Bytes32}
    (h : σ.Appends σ' daCommitment newRoot) : σ.Extends σ' := by
  obtain ⟨⟨batch, hcommits, -⟩, hnext, hcommitment, hnewRoot, -⟩ := h
  refine ⟨⟨[batch], hcommits.symm⟩, by omega, fun id hid => ?_⟩
  have hother : id ≠ σ.nextBatchId := by
    rintro rfl
    exact lt_irrefl _ hid
  rw [hcommitment, hnewRoot, Function.update_of_ne hother, Function.update_of_ne hother]
  exact ⟨rfl, rfl⟩

theorem StepEffect.extends (h : StepEffect σ label σ') : σ.Extends σ' := by
  rcases h.record with hsame | ⟨daCommitment, newRoot, happends⟩
  · exact hsame.extends
  · exact happends.extends

section Runs

variable {keccak256 : List UInt8 → Bytes32} {c c' : BridgeMachine}

theorem run_extends {labels : List BridgeStepLabel} (hr : Run (BridgeStep keccak256) c labels c')
    (hidle : c.stack = []) : c'.All (Bridge.Extends c.current) := by
  apply hr.invariant_of_step (I := fun d => d.All (Bridge.Extends c.current))
  · intro d label d' hd hstep
    exact hstep.step.all hd fun τ heffect hτ => hτ.trans heffect.extends
  · exact ⟨.refl _, by simp [hidle]⟩

theorem run_extends_of_noFail {labels : List BridgeStepLabel}
    (hr : Run (BridgeStep keccak256) c labels c') (hfail : .fail ∉ labels) :
    c.current.Extends c'.current := by
  have hnone : Along (BridgeStep keccak256) (fun _ label => label ≠ .fail) c labels :=
    Along.of_forall fun label hlabel _ heq => hfail (heq ▸ hlabel)
  apply hr.invariant (I := fun d => c.current.Extends d.current) _ hnone (.refl _)
  intro d label d' hd hok hstep
  rcases hstep.step.current hok with hsame | heffect
  · rw [hsame]
    exact hd
  · exact hd.trans heffect.extends

/-- The call reverts before it hands on control. -/
def BridgeStepLabel.Reverts (keccak256 : List UInt8 → Bytes32) (σ : Bridge) :
    BridgeStepLabel → Prop
  | .call block msg entry => ∃ revert, σ.call block msg entry = .error revert
  | .depositERC20 _ msg _ _ amount => ∃ revert, σ.depositERC20 msg amount = .error revert
  | .withdraw _ msg merkleProof receiver amount withdrawalId =>
    ∃ revert, σ.withdraw keccak256 msg merkleProof receiver amount withdrawalId = .error revert
  | .succeed => False
  | .fail => False

theorem BridgeStep.eq_of_reverts (h : BridgeStep keccak256 c label c')
    (hrevert : label.Reverts keccak256 c.current) : c' = c := by
  cases label with
  | succeed | fail => cases hrevert
  | _ =>
    obtain ⟨revert, hrevert⟩ := hrevert
    simp only [BridgeStep, bridgeStep, hrevert] at h
    split at h
    · exact (Option.some.inj h).symm
    · cases h

/-- The calls below the top of `base` stay open during the step. -/
def StaysAbove (base : List (Bridge × OpenCall)) (c : BridgeMachine) (label : BridgeStepLabel) :
    Prop :=
  label = .succeed ∨ label = .fail → base.length < c.stack.length

/-- A call that hands on control and fails later leaves the machine as it was before the call,
whatever has been called meanwhile. -/
theorem fail_restores {inner outer : BridgeMachine} {σ : Bridge} {k : OpenCall}
    {labels : List BridgeStepLabel}
    (hr : Run (BridgeStep keccak256) (c.enter σ k) labels inner)
    (habove : Along (BridgeStep keccak256) (StaysAbove (c.enter σ k).stack) (c.enter σ k) labels)
    (hdepth : inner.stack.length = (c.enter σ k).stack.length)
    (hfail : BridgeStep keccak256 inner .fail outer) : outer = c := by
  have hinner : inner.Above (c.enter σ k).stack fun _ => True := by
    apply hr.invariant _ habove ⟨trivial, [], rfl, nofun⟩
    intro d label d' hd hok hstep
    exact hstep.step.above hd hok fun _ _ _ => trivial
  obtain ⟨-, upper, hstack, -⟩ := hinner
  obtain rfl : upper = [] := by
    rw [hstack, List.length_append] at hdepth
    exact List.length_eq_zero_iff.mp (by omega)
  rw [List.nil_append, CallFrames.enter] at hstack
  simp only [BridgeStep, bridgeStep, CallFrames.rollback, hstack] at hfail
  exact (Option.some.inj hfail).symm

end Runs

/-- From the deployment on, over any calls in both modes and any calls made in the course of
them: the ids up to the next one have their entries and these are the announced ones, only
`commitBatch` writes and it appends, what is recorded stays, and a call that reverts, at once or
after others, changes nothing. -/
theorem ledger_appendOnly (keccak256 : List UInt8 → Bytes32) (sender verifier : EthAddress)
    (genesisRoot : Bytes32) (delay : Uint256) (labels : List BridgeStepLabel) (c : BridgeMachine)
    (hr : Run (BridgeStep keccak256)
      (CallFrames.start (Bridge.deploy sender verifier genesisRoot delay)) labels c) :
    (∀ id : Uint256, 1 ≤ id.toNat → id.toNat < c.current.nextBatchId.toNat →
      c.current.batchNewRoot id ≠ 0) ∧
    c.current.Recorded ∧
    (∀ block msg ext args σ, c.current.call block msg (.commitBatch ext args) = .ok σ →
      ∃ daCommitment, ext.computeCommitment (c.current.daProviders args.daId) args.batchData
          args.daMeta = some daCommitment ∧
        c.current.Appends σ daCommitment args.newRoot) ∧
    (∀ label c', BridgeStep keccak256 c label c' → label ≠ .fail → label.commitsBatch = false →
      c.current.SameEntries c'.current) ∧
    (∀ labels' c', Run (BridgeStep keccak256) c labels' c' → c.stack = [] ∨ .fail ∉ labels' →
      c.current.Extends c'.current) ∧
    (∀ label c', BridgeStep keccak256 c label c' → label.Reverts keccak256 c.current → c' = c) ∧
    (∀ σ k labels' inner outer, Run (BridgeStep keccak256) (c.enter σ k) labels' inner →
      Along (BridgeStep keccak256) (StaysAbove (c.enter σ k).stack) (c.enter σ k) labels' →
      inner.stack.length = (c.enter σ k).stack.length →
      BridgeStep keccak256 inner .fail outer → outer = c) := by
  have hrecorded : c.current.Recorded :=
    (hr.invariant_of_step (I := fun d : BridgeMachine => d.All Bridge.Recorded)
      (fun _ _ _ hd hstep => hstep.recorded hd)
      (CallFrames.all_start (Bridge.recorded_deploy sender verifier genesisRoot delay))).current
  refine ⟨?_, hrecorded, ?_, ?_, ?_, ?_, ?_⟩
  · intro id hone hlt
    obtain ⟨e, he, rfl⟩ := hrecorded.exists_commit hone hlt
    obtain ⟨-, hroot, hne⟩ := hrecorded.entries e he
    rwa [hroot]
  · intro block msg ext args σ hcall
    exact (call_effect hcall).appends
  · intro label c' hstep hfail hlabel
    rcases hstep.step.current hfail with hsame | heffect
    · rw [hsame]
      exact ⟨rfl, rfl, rfl, rfl⟩
    · exact heffect.sameEntries hlabel
  · rintro labels' c' hr' (hidle | hfail)
    · exact (run_extends hr' hidle).current
    · exact run_extends_of_noFail hr' hfail
  · intro label c' hstep hrevert
    exact hstep.eq_of_reverts hrevert
  · intro σ k labels' inner outer hr' habove hdepth hfail
    exact fail_restores hr' habove hdepth hfail

theorem ledger_appendOnly_bothModes :
    ∃ c, Run (BridgeStep fun _ => 0) (CallFrames.start (Bridge.deploy 1 7 5 10))
        (optimisticSetup ++ [commitRoot 100 11, ownerCall 100 (.setOptimisticMode false),
          commitRoot 200 12]) c ∧
      c.current.nextBatchId = 3 ∧ c.current.batchNewRoot 1 ≠ 0 ∧ c.current.batchNewRoot 2 ≠ 0 := by
  obtain ⟨c, hr, hc⟩ := exists_run_of_foldlM (bridgeStep fun _ => 0)
    (CallFrames.start (Bridge.deploy 1 7 5 10))
    (optimisticSetup ++ [commitRoot 100 11, ownerCall 100 (.setOptimisticMode false),
      commitRoot 200 12])
    (fun c => c.current.nextBatchId) (b := 3) (by decide +kernel)
  obtain ⟨hroots, -⟩ := ledger_appendOnly (fun _ => 0) 1 7 5 10 _ c hr
  refine ⟨c, hr, hc, hroots 1 (by decide) ?_, hroots 2 (by decide) ?_⟩ <;> rw [hc] <;> decide

end RollupX.Contracts
