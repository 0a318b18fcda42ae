import RollupX.Library.Fallible
import RollupX.Model.Contracts.Verifier
import RollupX.Model.Submitter.Strategies
import RollupX.Verification.Executor.Roots

/-! Whether the roots that the executor publishes are inputs that the verifier takes. The
verifier refuses numbers from the scalar field's size on, and both roots are 256-bit hashes. -/

namespace RollupX.Contracts

open Fallible RealVerifier

def Precompiles.succeeding : Precompiles :=
  ⟨fun _ => some ⟨0, 0⟩, fun _ => some ⟨0, 0⟩, fun _ => some 1⟩

theorem orRevert_ne_gte {α : Type} {revert : VerifierRevert}
    (hrevert : revert ≠ .verifierGteSnarkScalarField) (result : Option α) :
    Pairing.orRevert revert result ≠ .error .verifierGteSnarkScalarField := by
  cases result with
  | none => exact fun h => hrevert (Except.error.inj h)
  | some x => nofun

theorem addInput_eq_gte_iff (pre : Precompiles) (vkX : G1Point) (term : G1Point × Uint256) :
    addInput pre vkX term = .error .verifierGteSnarkScalarField ↔
      Constants.snarkScalarField ≤ term.2.toNat := by
  unfold addInput
  by_cases hge : Constants.snarkScalarField ≤ term.2.toNat
  · rw [if_pos hge]
    exact ⟨fun _ => hge, fun _ => rfl⟩
  · rw [if_neg hge]
    refine ⟨fun h => ?_, fun h => absurd h hge⟩
    rcases bind_error_iff.mp h with h | ⟨product, -, h⟩
    · exact absurd h (orRevert_ne_gte (by decide) _)
    · exact absurd h (orRevert_ne_gte (by decide) _)

theorem exists_of_foldlM_eq_gte {pre : Precompiles} {vkX : G1Point}
    {terms : List (G1Point × Uint256)}
    (h : terms.foldlM (addInput pre) vkX = .error .verifierGteSnarkScalarField) :
    ∃ term ∈ terms, Constants.snarkScalarField ≤ term.2.toNat := by
  induction terms generalizing vkX with
  | nil => cases h
  | cons term terms ih =>
    rw [List.foldlM_cons] at h
    cases hterm : addInput pre vkX term with
    | error revert =>
      rw [hterm] at h
      cases h
      exact ⟨term, List.mem_cons_self, (addInput_eq_gte_iff _ _ _).mp hterm⟩
    | ok sum =>
      rw [hterm] at h
      obtain ⟨term', hmem, hge⟩ := ih h
      exact ⟨term', List.mem_cons_of_mem _ hmem, hge⟩

theorem foldlM_eq_gte_of_exists {vkX : G1Point} {terms : List (G1Point × Uint256)}
    (h : ∃ term ∈ terms, Constants.snarkScalarField ≤ term.2.toNat) :
    terms.foldlM (addInput .succeeding) vkX = .error .verifierGteSnarkScalarField := by
  induction terms generalizing vkX with
  | nil => simp at h
  | cons term terms ih =>
    rw [List.foldlM_cons]
    by_cases hge : Constants.snarkScalarField ≤ term.2.toNat
    · rw [(addInput_eq_gte_iff _ _ _).mpr hge]
      rfl
    · have hok : addInput .succeeding vkX term = .ok ⟨0, 0⟩ := by
        rw [addInput, if_neg hge]
        rfl
      rw [hok]
      refine ih ?_
      obtain ⟨term', hmem, hge'⟩ := h
      rcases List.mem_cons.mp hmem with rfl | hmem
      · exact absurd hge' hge
      · exact ⟨term', hmem, hge'⟩

theorem pairing_ne_gte (pre : Precompiles) (points : List (G1Point × G2Point)) :
    Pairing.pairing pre points ≠ .error .verifierGteSnarkScalarField := by
  intro h
  rcases bind_error_iff.mp h with h | ⟨out, -, h⟩
  · exact absurd h (orRevert_ne_gte (by decide) _)
  · cases h

/-- No call of the verifier is reverted for its inputs if and only if all four are in the
scalar field. -/
theorem verifyProof_ne_gte_iff (input : List Uint256) (hlength : input.length = 4) :
    (∀ pre points, verifyProof pre points input ≠ .error .verifierGteSnarkScalarField) ↔
      ∀ x ∈ input, x.toNat < Constants.snarkScalarField := by
  have hterms : (verifyingKey.ic.tail.zip input).map Prod.snd = input :=
    List.map_snd_zip (by rw [hlength]; rfl)
  constructor
  · intro h x hx
    by_contra hge
    rw [← hterms] at hx
    obtain ⟨term, hterm, rfl⟩ := List.mem_map.mp hx
    refine h .succeeding ⟨(0, 0), ((0, 0), (0, 0)), (0, 0)⟩ ?_
    refine bind_error_iff.mpr (.inr ⟨⟨0, 0⟩, rfl, bind_error_iff.mpr (.inl ?_)⟩)
    exact foldlM_eq_gte_of_exists ⟨term, hterm, Nat.le_of_not_lt hge⟩
  · intro h pre points hgte
    rcases bind_error_iff.mp hgte with hgte | ⟨vkX, -, hgte⟩
    · exact orRevert_ne_gte (by decide) _ hgte
    · rcases bind_error_iff.mp hgte with hgte | ⟨sum, -, hgte⟩
      · obtain ⟨term, hterm, hge⟩ := exists_of_foldlM_eq_gte hgte
        have hx : term.2 ∈ input := hterms ▸ List.mem_map_of_mem hterm
        exact absurd (h term.2 hx) (Nat.not_lt.mpr hge)
      · exact pairing_ne_gte pre _ hgte

/-- The two halves of a commitment are always in the field. -/
theorem verifyProof_publicInputs_iff (oldRoot newRoot daCommitment : Bytes32) :
    (∀ pre points, verifyProof pre points (Bridge.publicInputs oldRoot newRoot daCommitment) ≠
        .error .verifierGteSnarkScalarField) ↔
      oldRoot.toNat < Constants.snarkScalarField ∧
        newRoot.toNat < Constants.snarkScalarField := by
  have hlow : (daCommitment &&& BitVec.ofNat 256 (2 ^ 128 - 1)).toNat <
      Constants.snarkScalarField := by
    rw [BitVec.toNat_and]
    exact lt_of_le_of_lt Nat.and_le_right (by decide)
  have hhigh : (daCommitment >>> 128).toNat < Constants.snarkScalarField := by
    have := daCommitment.isLt
    rw [BitVec.toNat_ushiftRight, Nat.shiftRight_eq_div_pow]
    exact lt_of_lt_of_le (Nat.div_lt_of_lt_mul (by omega : _ < 2 ^ 128 * 2 ^ 128)) (by decide)
  rw [verifyProof_ne_gte_iff _ rfl]
  simp only [Bridge.publicInputs, List.mem_cons, List.not_mem_nil, or_false, forall_eq_or_imp,
    forall_eq]
  exact ⟨fun h => ⟨h.1, h.2.1⟩, fun h => ⟨h.1, h.2, hlow, hhigh⟩⟩

end RollupX.Contracts

namespace RollupX.Executor

open Machine
open Contracts (Bridge)
open Contracts.Constants (snarkScalarField)
open Contracts.RealVerifier (verifyProof)
open Submitter (toBytes32)

variable {S : Type*} {rt : Runtime} {mgr : StateManager S} {s : S} {batchId : String}
  {txs : List Transaction}

/-- No call of the verifier with these roots is reverted for its inputs. -/
def TracePublicInputs.FitVerifier (inputs : TracePublicInputs) : Prop :=
  ∀ daCommitment pre points,
    verifyProof pre points (Bridge.publicInputs (toBytes32 inputs.initialRoot.toList)
        (toBytes32 inputs.finalRoot.toList) daCommitment) ≠
      .error .verifierGteSnarkScalarField

theorem fitVerifier_iff (inputs : TracePublicInputs) :
    inputs.FitVerifier ↔
      (toBytes32 inputs.initialRoot.toList).toNat < snarkScalarField ∧
        (toBytes32 inputs.finalRoot.toList).toNat < snarkScalarField := by
  constructor
  · intro h
    exact (Contracts.verifyProof_publicInputs_iff _ _ 0).mp (h 0)
  · intro h daCommitment
    exact (Contracts.verifyProof_publicInputs_iff _ _ daCommitment).mpr h

def ones : Hash :=
  Vector.replicate 32 255

/-- With a hash function that gives the largest hash only, a batch that includes something ends
with a root that is no field element. -/
theorem executed_nil_of_fitVerifier {l : BatchLoop S}
    (hr : Run (TxStep (rt.hashedBy fun _ => ones) mgr batchId) (BatchLoop.start mgr s) txs l)
    (hfit : (toBytes32 l.proverRoot.toList).toNat < snarkScalarField) :
    l.executed = [] := by
  by_contra hexec
  have hones : l.proverRoot = ones :=
    hr.invariant_of_step (I := fun m => m.executed ≠ [] → m.proverRoot = ones)
      (fun _ _ _ hm hstep => hstep.proverRoot_const hm) (fun h => absurd rfl h) hexec
  rw [hones] at hfit
  exact absurd hfit (by decide +kernel)

/-- Whatever the hash function, both roots of a batch that is processed are taken by the
verifier, if and only if the store's root is and the checks reject every transaction. -/
theorem fitVerifier_forall_iff (rt : Runtime) (mgr : StateManager S) (s : S) (batchId : String)
    (txs : List Transaction) (hok : Succeeds rt mgr s batchId txs) :
    (∀ sha256 trace, (executeBatch (rt.hashedBy sha256) mgr s batchId txs).2 = .ok trace →
        trace.publicInputs.FitVerifier) ↔
      (toBytes32 (mgr.currentRoot s).toList).toNat < snarkScalarField ∧
        AllRejected rt (mgr.getAccount s) (batchId, txs) := by
  constructor
  · intro h
    obtain ⟨l, hl⟩ := succeeds_iff.mp hok
    obtain ⟨k, hk, -⟩ := run_rehash (fun _ => ones) (fun _ => mgr.currentRoot s)
      (k := BatchLoop.start mgr s) hl rfl rfl
    have hk : Run (TxStep (rt.hashedBy fun _ => ones) mgr batchId) (BatchLoop.start mgr s) txs k :=
      hk
    have hexec := executeBatch_ok_iff.mpr ⟨k, hk, rfl, rfl⟩
    obtain ⟨hinitial, hfinal⟩ :=
      (fitVerifier_iff _).mp (h (fun _ => ones) _ (congrArg Prod.snd hexec))
    exact ⟨hinitial, (executed_eq_nil_iff hk rfl).mp (executed_nil_of_fitVerifier hk hfinal)⟩
  · rintro ⟨hroot, hrejected⟩ sha256 trace htrace
    obtain ⟨l, hl, -, rfl⟩ := executeBatch_ok_iff.mp
      (Prod.ext rfl htrace : executeBatch (rt.hashedBy sha256) mgr s batchId txs = (_, .ok trace))
    have hnil : l.executed = [] := (executed_eq_nil_iff hl rfl).mpr hrejected
    have hfinal : l.proverRoot = mgr.currentRoot s := (frame_of_executed_nil hl hnil).2
    refine (fitVerifier_iff _).mpr ⟨hroot, ?_⟩
    rw [buildTrace, hfinal]
    exact hroot

def tenStore : InMemoryStateManager :=
  (InMemoryStateManager.default Sha256.hash).seedAccount alice ⟨10, 0⟩

theorem fitVerifier_rejectedPayment :
    Succeeds localRuntime (InMemoryStateManager.stateManager Sha256.hash) tenStore "1"
        [payment alice bob 20 0] ∧
      ∀ sha256 trace, (executeBatch (localRuntime.hashedBy sha256)
          (InMemoryStateManager.stateManager Sha256.hash) tenStore "1"
          [payment alice bob 20 0]).2 = .ok trace → trace.publicInputs.FitVerifier := by
  have hok := InMemoryStateManager.succeeds localRuntime Sha256.hash tenStore "1"
    [payment alice bob 20 0]
  refine ⟨hok, (fitVerifier_forall_iff _ _ _ _ _ hok).mpr ⟨by decide +kernel, ?_⟩⟩
  unfold AllRejected
  decide +kernel

/-- The verifier refuses the roots of a batch with one payment. -/
theorem not_fitVerifier_includedPayment :
    ((executeBatch localRuntime (InMemoryStateManager.stateManager Sha256.hash) aliceStore "1"
        [payment alice bob 10 0]).2.map fun trace =>
      (trace.executedTransactions,
        verifyProof .succeeding ⟨(0, 0), ((0, 0), (0, 0)), (0, 0)⟩
          (Bridge.publicInputs (toBytes32 trace.publicInputs.initialRoot.toList)
            (toBytes32 trace.publicInputs.finalRoot.toList) 0))) =
      .ok ([payment alice bob 10 0], .error .verifierGteSnarkScalarField) := by
  decide +kernel

end RollupX.Executor
