import RollupX.Model.Submitter.Types

/-! The gas of a submission by component (`submitter/src/domain/cost_breakdown.rs`). -/

namespace RollupX.Submitter

def calldataNonZeroGas : ℕ := 16

def baseTxGas : ℕ := 21000

def blobGasPerBlob : ℕ := 131072

def groth16VerifyGas : ℕ := 250000

def stateRootUpdateGas : ℕ := 10000

def abiOverheadGas : ℕ := 5000

/-- `F` is the type `f64`. -/
structure CostBreakdown (F : Type) where
  proofVerifyGas : ℕ
  stateRootUpdateGas : ℕ
  daPostingGas : ℕ
  daPostingBlobGas : ℕ
  overheadGas : ℕ
  totalEip1559Gas : ℕ
  blobGasUsed : Option ℕ
  blobBaseFeeWei : Option ℕ
  blobFeeTotalWei : Option ℕ
  proofVerifyPct : F
  daPct : F
  overheadPct : F
  isEstimated : Bool
  deriving DecidableEq, Repr

section

variable {F : Type} [Mul F] [Div F] [LT F] [DecidableLT F] (asF64 : ℕ → F)

/-- `asF64` converts a `u64`. -/
def CostBreakdown.build (proofVerifyGas stateRootUpdateGas daPostingGas daPostingBlobGas overheadGas
    totalEip1559Gas : ℕ) (blobGasUsed blobBaseFeeWei blobFeeTotalWei : Option ℕ)
    (isEstimated : Bool) : CostBreakdown F :=
  let totalF := asF64 totalEip1559Gas
  let pct (gas : ℕ) : F := if asF64 0 < totalF then asF64 gas / totalF * asF64 100 else asF64 0
  { proofVerifyGas, stateRootUpdateGas, daPostingGas, daPostingBlobGas, overheadGas,
    totalEip1559Gas, blobGasUsed, blobBaseFeeWei, blobFeeTotalWei,
    proofVerifyPct := pct proofVerifyGas
    daPct := pct daPostingGas
    overheadPct := pct overheadGas
    isEstimated }

/-- The total and the overhead, which takes what the receipt has above the estimate. -/
def scaleOverhead (actualGas : Option ℕ) (estimatedTotal overheadGas : ℕ) : Option (ℕ × ℕ) :=
  match actualGas with
  | some actual => do
      let diff := actual - estimatedTotal
      let overheadFinal ← u64 (overheadGas + diff)
      pure (actual, overheadFinal)
  | none => some (estimatedTotal, overheadGas)

/-- `none` where an operation on `u64` overflows. -/
def estimateCalldata (calldataBytes proofBytes : ℕ) (actualGas : Option ℕ) :
    Option (CostBreakdown F) := do
  let daGas ← u64 (calldataBytes * calldataNonZeroGas)
  let proofCalldataGas ← u64 (proofBytes * calldataNonZeroGas)
  let proofVerifyGas ← u64 (groth16VerifyGas + proofCalldataGas)
  let stateRootGas := stateRootUpdateGas
  let overheadGas := baseTxGas + abiOverheadGas
  let estimatedTotal ← u64 (proofVerifyGas + stateRootGas + daGas + overheadGas)
  let (totalEip1559Gas, overheadFinal) ← scaleOverhead actualGas estimatedTotal overheadGas
  pure (.build asF64 proofVerifyGas stateRootGas daGas 0 overheadFinal totalEip1559Gas none none
    none actualGas.isNone)

/-- The product saturates. -/
def blobFeeTotal (blobGasUsed blobBaseFeeWei : Option ℕ) : Option ℕ := do
  let g ← blobGasUsed
  let f ← blobBaseFeeWei
  pure (min (g * f) (2 ^ 64 - 1))

/-- `none` where an operation on `u64` overflows. -/
def estimateBlob (blobCount proofBytes : ℕ)
    (actualEip1559Gas blobGasUsed blobBaseFeeWei : Option ℕ) : Option (CostBreakdown F) := do
  let blobGas ← u64 (blobCount * blobGasPerBlob)
  let proofCalldataGas ← u64 (proofBytes * calldataNonZeroGas)
  let proofVerifyGas ← u64 (groth16VerifyGas + proofCalldataGas)
  let stateRootGas := stateRootUpdateGas
  let daPostingGas := 0
  let overheadGas := baseTxGas + abiOverheadGas
  let estimatedTotal ← u64 (proofVerifyGas + stateRootGas + daPostingGas + overheadGas)
  let (totalEip1559Gas, overheadFinal) ←
    scaleOverhead actualEip1559Gas estimatedTotal overheadGas
  pure (.build asF64 proofVerifyGas stateRootGas daPostingGas blobGas overheadFinal
    totalEip1559Gas blobGasUsed blobBaseFeeWei (blobFeeTotal blobGasUsed blobBaseFeeWei)
    (actualEip1559Gas.isNone || blobGasUsed.isNone || blobBaseFeeWei.isNone))

end

end RollupX.Submitter
