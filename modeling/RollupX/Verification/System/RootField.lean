import RollupX.Verification.Contracts.Calls
import RollupX.Verification.System.FieldCheck

/-! Whether the bridge's root is a field element. `RealVerifier` refuses inputs outside the scalar
field, the old root among them. -/

namespace RollupX.Contracts

open Constants (snarkScalarField)
open Fallible Machine RealVerifier

theorem lt_of_foldlM_ok {pre : Precompiles} {vkX sum : G1Point}
    {terms : List (G1Point × Uint256)} (h : terms.foldlM (addInput pre) vkX = .ok sum) :
    ∀ term ∈ terms, term.2.toNat < snarkScalarField := by
  induction terms generalizing vkX with
  | nil => simp
  | cons term terms ih =>
    rw [List.foldlM_cons] at h
    obtain ⟨next, hnext, h⟩ := bind_ok_iff.mp h
    rw [List.forall_mem_cons]
    refine ⟨?_, ih h⟩
    by_contra hge
    rw [(addInput_eq_gte_iff pre vkX term).mpr (Nat.le_of_not_lt hge)] at hnext
    cases hnext

theorem lt_of_verifyProof_ok {pre : Precompiles} {points : ProofPoints} {input : List Uint256}
    {valid : Bool} (hlength : input.length = 4) (h : verifyProof pre points input = .ok valid) :
    ∀ x ∈ input, x.toNat < snarkScalarField := by
  have hterms : (verifyingKey.ic.tail.zip input).map Prod.snd = input :=
    List.map_snd_zip (by rw [hlength]; rfl)
  obtain ⟨vkX, -, h⟩ := bind_ok_iff.mp h
  obtain ⟨sum, hsum, -⟩ := bind_ok_iff.mp h
  intro x hx
  rw [← hterms] at hx
  obtain ⟨term, hterm, rfl⟩ := List.mem_map.mp hx
  exact lt_of_foldlM_ok hsum term hterm

/-- The contract at the address is `RealVerifier`. -/
def RunsRealVerifier (real : EthAddress) (ext : External) : Prop :=
  ∃ pre, ∀ points input,
    ext.verifyProof real points input = (verifyProof pre points input).toOption

theorem RunsRealVerifier.newRoot_lt {real : EthAddress} {ext : External} {points : ProofPoints}
    {oldRoot newRoot daCommitment : Bytes32} (h : RunsRealVerifier real ext)
    (hvalid : ext.verifyProof real points (Bridge.publicInputs oldRoot newRoot daCommitment) =
      some true) : newRoot.toNat < snarkScalarField := by
  obtain ⟨pre, hpre⟩ := h
  rw [hpre] at hvalid
  cases hresult : verifyProof pre points (Bridge.publicInputs oldRoot newRoot daCommitment) with
  | error revert =>
    rw [hresult] at hvalid
    cases hvalid
  | ok valid =>
    exact lt_of_verifyProof_ok rfl hresult newRoot (by simp [Bridge.publicInputs])

def Bridge.InField (σ : Bridge) : Prop :=
  σ.latestStateRoot.toNat < snarkScalarField

/-- A root that `RealVerifier` does not check is a field element when it is installed. -/
def BridgeCall.keepsField (real : EthAddress) (σ : Bridge) : BridgeCall → Bool
  | .commitBatch _ args =>
    σ.optimisticMode = false → σ.verifiers args.verifierId ≠ real →
      args.newRoot.toNat < snarkScalarField
  | .finalizeOptimisticRoot => σ.pendingStateRoot.toNat < snarkScalarField
  | _ => true

/-- Asked of the calls that do not revert. -/
def BridgeStepLabel.keepsField (real : EthAddress) (σ : Bridge) : BridgeStepLabel → Bool
  | .call block msg entry => (σ.call block msg entry).isOk → entry.keepsField real σ
  | _ => true

/-- `RealVerifier` stays at its address during the call. -/
def BridgeStepLabel.AsksReal (real : EthAddress) : BridgeStepLabel → Prop
  | .call _ _ (.commitBatch ext _) => RunsRealVerifier real ext
  | _ => True

variable {real : EthAddress} {σ σ' : Bridge} {block : Block} {msg : Msg}

/-- A call that goes through leaves the root in the field exactly when it does not install one
that is outside and unchecked. -/
theorem CallEffect.inField_iff {call : BridgeCall} (he : CallEffect σ block msg call σ')
    (hreal : (BridgeStepLabel.call block msg call).AsksReal real) (h : σ.InField) :
    σ'.InField ↔ call.keepsField real σ = true := by
  cases he with
  | commitVerified ext args daCommitment points daMode next _ hmode hvalid =>
    simp only [BridgeCall.keepsField, hmode, decide_eq_true_eq, forall_const]
    refine ⟨fun hnew _ => hnew, fun hkeeps => ?_⟩
    by_cases hother : σ.verifiers args.verifierId = real
    · rw [hother] at hvalid
      exact RunsRealVerifier.newRoot_lt hreal hvalid
    · exact hkeeps hother
  | commitOptimistic ext args daCommitment points daMode next _ hmode =>
    simp only [BridgeCall.keepsField, hmode, Bool.true_eq_false, false_implies, decide_true]
    exact iff_of_true h trivial
  | finalizeOptimisticRoot =>
    rw [BridgeCall.keepsField, decide_eq_true_eq]
    exact Iff.rfl
  | _ => exact iff_of_true h rfl

theorem StepEffect.inField {label : BridgeStepLabel} (he : StepEffect σ label σ')
    (hreal : label.AsksReal real) (hkeeps : label.keepsField real σ = true) (h : σ.InField) :
    σ'.InField := by
  cases he with
  | call he hok =>
    rw [BridgeStepLabel.keepsField, decide_eq_true_eq] at hkeeps
    exact (he.inField_iff hreal h).mpr (hkeeps (goesThrough_of_ok hok))
  | depositERC20 => exact h
  | withdraw => exact h
  | succeed k => cases k <;> exact h

/-- From a deployment with a root in the field on, over any calls in which no root is installed
that is outside the field and that `RealVerifier` has not checked: the latest root is in the
field, and `RealVerifier` does not refuse it as the old root of a batch. -/
theorem root_inField (keccak256 : List UInt8 → Bytes32) (sender real : EthAddress)
    (genesisRoot : Bytes32) (delay : Uint256) (hgenesis : genesisRoot.toNat < snarkScalarField)
    (labels : List BridgeStepLabel) (c : BridgeMachine)
    (hreal : ∀ label ∈ labels, label.AsksReal real)
    (hr : Run (BridgeStep keccak256)
      (CallFrames.start (Bridge.deploy sender real genesisRoot delay)) labels c)
    (hkeeps : Along (BridgeStep keccak256)
      (fun d label => label.keepsField real d.current = true)
      (CallFrames.start (Bridge.deploy sender real genesisRoot delay)) labels) :
    c.current.latestStateRoot.toNat < snarkScalarField ∧
      ∀ newRoot daCommitment pre points, newRoot.toNat < snarkScalarField →
        verifyProof pre points
            (Bridge.publicInputs c.current.latestStateRoot newRoot daCommitment) ≠
          .error .verifierGteSnarkScalarField := by
  have hc : c.All Bridge.InField := by
    apply hr.invariant _ ((Along.of_forall fun label hlabel _ => hreal label hlabel).and hkeeps)
      (CallFrames.all_start hgenesis)
    intro d label d' hd hok hstep
    exact hstep.step.all hd fun σ heffect => heffect.inField hok.1 hok.2
  refine ⟨hc.current, fun newRoot daCommitment pre points hnew => ?_⟩
  exact (verifyProof_publicInputs_iff _ _ daCommitment).mpr ⟨hc.current, hnew⟩ pre points

/-! A bridge with `RealVerifier` at the address 7, over precompiled contracts whose calls all
succeed. -/

def realExternal : External :=
  { acceptingExternal with
    verifyProof verifier points input :=
      if verifier = 7 then (verifyProof .succeeding points input).toOption else some true }

theorem runsRealVerifier_realExternal : RunsRealVerifier 7 realExternal :=
  ⟨.succeeding, fun _ _ => rfl⟩

def commitReal (timestamp : Uint256) (newRoot : Bytes32) : BridgeStepLabel :=
  ownerCall timestamp (.commitBatch realExternal ⟨0, 0, [], [], newRoot, List.replicate 256 0⟩)

def fieldRun (newRoot : Bytes32) : List BridgeStepLabel :=
  [ownerCall 0 (.setDAProvider 0 9 true), commitReal 10 11,
    ownerCall 10 (.setOptimisticMode true), commitReal 100 newRoot,
    ownerCall 700000 .finalizeOptimisticRoot, ownerCall 700000 (.setOptimisticMode false)]

theorem asksReal_fieldRun (newRoot : Bytes32) : ∀ label ∈ fieldRun newRoot, label.AsksReal 7 := by
  simp only [fieldRun, List.forall_mem_cons]
  exact ⟨trivial, runsRealVerifier_realExternal, trivial, runsRealVerifier_realExternal, trivial,
    trivial, nofun⟩

theorem root_inField_twoRoots :
    ∃ c, Run (BridgeStep fun _ => 0) (CallFrames.start (Bridge.deploy 1 7 5 10)) (fieldRun 12) c ∧
      c.current.latestStateRoot = 12 ∧ c.current.latestStateRoot.toNat < snarkScalarField := by
  obtain ⟨c, hr, hc⟩ := exists_run_of_foldlM (bridgeStep fun _ => 0)
    (CallFrames.start (Bridge.deploy 1 7 5 10)) (fieldRun 12)
    (fun c => c.current.latestStateRoot) (b := 12) (by decide +kernel)
  refine ⟨c, hr, hc, (root_inField (fun _ => 0) 1 7 5 10 (by decide) _ c (asksReal_fieldRun 12) hr
    ?_).1⟩
  exact Along.of_check (f := bridgeStep fun _ => 0) (by decide +kernel)

/-- The size of the field is finalised as a root, and a later batch cannot be proved. -/
theorem root_outsideField :
    ∃ c, Run (BridgeStep fun _ => 0) (CallFrames.start (Bridge.deploy 1 7 5 10))
        (fieldRun (BitVec.ofNat 256 snarkScalarField)) c ∧
      c.current.latestStateRoot.toNat = snarkScalarField ∧
      (∀ label ∈ fieldRun (BitVec.ofNat 256 snarkScalarField), label.AsksReal 7) ∧
      verifyProof .succeeding ⟨(0, 0), ((0, 0), (0, 0)), (0, 0)⟩
          (Bridge.publicInputs c.current.latestStateRoot 13 3) =
        .error .verifierGteSnarkScalarField := by
  obtain ⟨c, hr, hc⟩ := exists_run_of_foldlM (bridgeStep fun _ => 0)
    (CallFrames.start (Bridge.deploy 1 7 5 10)) (fieldRun (BitVec.ofNat 256 snarkScalarField))
    (fun c => (c.current.latestStateRoot.toNat,
      verifyProof .succeeding ⟨(0, 0), ((0, 0), (0, 0)), (0, 0)⟩
        (Bridge.publicInputs c.current.latestStateRoot 13 3)))
    (b := (snarkScalarField, .error .verifierGteSnarkScalarField)) (by decide +kernel)
  exact ⟨c, hr, congrArg Prod.fst hc, asksReal_fieldRun _, congrArg Prod.snd hc⟩

end RollupX.Contracts
