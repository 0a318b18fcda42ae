import RollupX.Model.Submitter.CostBreakdown

/-! The components of a cost breakdown and its total. -/

namespace RollupX.Submitter

def CostBreakdown.components {F : Type} (bd : CostBreakdown F) : ℕ :=
  bd.proofVerifyGas + bd.stateRootUpdateGas + bd.daPostingGas + bd.overheadGas

def estimatedGas (calldataBytes proofBytes : ℕ) : ℕ :=
  groth16VerifyGas + stateRootUpdateGas + baseTxGas + abiOverheadGas +
    (calldataBytes + proofBytes) * calldataNonZeroGas

/-- The receipt, if there is one, has at least the estimate. -/
def Covers (actualGas : Option ℕ) (estimate : ℕ) : Prop :=
  ∀ actual, actualGas = some actual → estimate ≤ actual

theorem u64_eq_some_iff {n m : ℕ} : u64 n = some m ↔ n < 2 ^ 64 ∧ n = m := by
  rw [u64, Option.ite_none_right_eq_some, Option.some.injEq]

section Overhead

variable {actualGas : Option ℕ} {rest overheadGas : ℕ}

theorem scaleOverhead_spec {total overheadFinal : ℕ}
    (h : scaleOverhead actualGas (rest + overheadGas) overheadGas = some (total, overheadFinal)) :
    rest + overheadFinal = total ↔ Covers actualGas (rest + overheadGas) := by
  cases actualGas with
  | none =>
    cases h
    simp [Covers]
  | some actual =>
    simp only [scaleOverhead, Option.bind_eq_bind, Option.bind_eq_some_iff, u64_eq_some_iff] at h
    obtain ⟨_, ⟨-, rfl⟩, h⟩ := h
    cases h
    simp only [Covers, Option.some.injEq, forall_eq']
    omega

end Overhead

section Estimates

variable {F : Type} [Mul F] [Div F] [LT F] [DecidableLT F] {asF64 : ℕ → F}
  {calldataBytes blobCount proofBytes : ℕ} {actualGas blobGasUsed blobBaseFeeWei : Option ℕ}
  {bd : CostBreakdown F}

theorem estimatedGas_calldata (calldataBytes proofBytes : ℕ) :
    groth16VerifyGas + proofBytes * calldataNonZeroGas + stateRootUpdateGas +
      calldataBytes * calldataNonZeroGas + (baseTxGas + abiOverheadGas) =
        estimatedGas calldataBytes proofBytes := by
  rw [estimatedGas, Nat.add_mul]
  omega

/-- The batch is not in the calldata of a blob transaction. -/
theorem estimatedGas_blob (proofBytes : ℕ) :
    groth16VerifyGas + proofBytes * calldataNonZeroGas + stateRootUpdateGas + 0 +
      (baseTxGas + abiOverheadGas) = estimatedGas 0 proofBytes := by
  rw [← estimatedGas_calldata, Nat.zero_mul]

theorem components_estimateCalldata
    (h : estimateCalldata asF64 calldataBytes proofBytes actualGas = some bd) :
    bd.components = bd.totalEip1559Gas ↔
      Covers actualGas (estimatedGas calldataBytes proofBytes) := by
  simp only [estimateCalldata, Option.bind_eq_bind, Option.bind_eq_some_iff, u64_eq_some_iff] at h
  obtain ⟨_, ⟨-, rfl⟩, _, ⟨-, rfl⟩, _, ⟨-, rfl⟩, _, ⟨-, rfl⟩, ⟨total, overheadFinal⟩, hscale,
    h⟩ := h
  cases h
  simp only [CostBreakdown.components, CostBreakdown.build]
  rw [scaleOverhead_spec hscale, estimatedGas_calldata]

theorem components_estimateBlob
    (h : estimateBlob asF64 blobCount proofBytes actualGas blobGasUsed blobBaseFeeWei = some bd) :
    bd.components = bd.totalEip1559Gas ↔ Covers actualGas (estimatedGas 0 proofBytes) := by
  simp only [estimateBlob, Option.bind_eq_bind, Option.bind_eq_some_iff, u64_eq_some_iff] at h
  obtain ⟨_, ⟨-, rfl⟩, _, ⟨-, rfl⟩, _, ⟨-, rfl⟩, _, ⟨-, rfl⟩, ⟨total, overheadFinal⟩, hscale,
    h⟩ := h
  cases h
  simp only [CostBreakdown.components, CostBreakdown.build]
  rw [scaleOverhead_spec hscale, estimatedGas_blob]

end Estimates

/-- The components add up to the total if and only if there is no receipt or one with at least the
estimate. -/
theorem components_addUp_iff {F : Type} [Mul F] [Div F] [LT F] [DecidableLT F] (asF64 : ℕ → F)
    (calldataBytes blobCount proofBytes : ℕ)
    (actualGas blobGasUsed blobBaseFeeWei : Option ℕ) (bd : CostBreakdown F) :
    (estimateCalldata asF64 calldataBytes proofBytes actualGas = some bd →
      (bd.components = bd.totalEip1559Gas ↔
        Covers actualGas (estimatedGas calldataBytes proofBytes))) ∧
    (estimateBlob asF64 blobCount proofBytes actualGas blobGasUsed blobBaseFeeWei = some bd →
      (bd.components = bd.totalEip1559Gas ↔ Covers actualGas (estimatedGas 0 proofBytes))) :=
  ⟨components_estimateCalldata, components_estimateBlob⟩

theorem components_addUp_aboveEstimate :
    ∃ bd bd', estimateCalldata id 1000 128 (some 400000) = some bd ∧
      estimateBlob id 1 128 none none none = some bd' ∧
      bd.components = bd.totalEip1559Gas ∧ bd.overheadGas = 121952 ∧
      bd'.components = bd'.totalEip1559Gas := by
  refine ⟨_, _, rfl, rfl,
    ((components_addUp_iff id 1000 0 128 (some 400000) none none _).1 rfl).mpr ?_, rfl,
    ((components_addUp_iff id 0 1 128 none none none _).2 rfl).mpr nofun⟩
  rintro _ ⟨⟩
  decide

/-- A receipt with 280000 for a blob transaction with 128 bytes of proof: the components are
288048. -/
theorem components_exceedReceipt :
    ∃ bd, estimateBlob id 1 128 (some 280000) (some 131072) none = some bd ∧
      bd.totalEip1559Gas = 280000 ∧ bd.components = 288048 :=
  ⟨_, rfl, rfl, rfl⟩

end RollupX.Submitter
