import Mathlib.Data.List.Dedup
import RollupX.Model.Executor.Service

/-! The row of metrics that `process_batch_job` computes for a batch
(`executor/src/service.rs`). Timings, sizes in bytes and the prover's own figures are left
out. -/

namespace RollupX.Executor

/-- `+` of an unsigned type of `w` bits. It wraps, or panics in a build with overflow checks;
`none` is a panic. -/
def addUnsigned (overflowChecks : Bool) (w a b : ℕ) : Option ℕ :=
  if a + b < 2 ^ w then some (a + b)
  else if overflowChecks then none
  else some ((a + b) % 2 ^ w)

def sumUnsigned (overflowChecks : Bool) (w : ℕ) (xs : List ℕ) : Option ℕ :=
  xs.foldlM (addUnsigned overflowChecks w) 0

/-- `saturating_mul` of an unsigned type of `w` bits. -/
def saturatingMul (w a b : ℕ) : ℕ :=
  if a * b < 2 ^ w then a * b else 2 ^ w - 1

/-- How many accounts the diffs name, and how many of them more than once. -/
def touchedAccountStats (diffs : List StateDiff) : ℕ × ℕ :=
  let accounts := diffs.map fun diff => diff.account
  (accounts.dedup.length, (accounts.dedup.filter fun a => 1 < accounts.count a).length)

structure ExecutorBatchMetricsRow where
  experimentId : String
  batchId : String
  traceId : String
  txCount : ℕ
  stateDiffCount : ℕ
  uniqueTouchedAccounts : ℕ
  repeatedTouchedAccounts : ℕ
  totalGasLimit : ℕ
  totalGasPriceWei : ℕ
  feeProxyWei : ℕ
  deriving DecidableEq, Repr

def batchRow (overflowChecks : Bool) (job : PendingBatchJob) (trace : ExecutionTraceV1) :
    Option ExecutorBatchMetricsRow := do
  let totalGasLimit ← sumUnsigned overflowChecks 64
    (trace.executedTransactions.map fun tx => tx.gasLimit.toNat)
  let totalGasPriceWei ← sumUnsigned overflowChecks 64
    (trace.executedTransactions.map fun tx => tx.gasPrice.toNat)
  let feeProxyWei ← sumUnsigned overflowChecks 128
    (trace.executedTransactions.map fun tx =>
      saturatingMul 128 tx.gasPrice.toNat tx.gasLimit.toNat)
  let (uniqueTouchedAccounts, repeatedTouchedAccounts) := touchedAccountStats trace.stateDiffs
  pure
    { experimentId := job.experimentId
      batchId := job.payload.batchId
      traceId := trace.traceId
      txCount := trace.executedTransactions.length
      stateDiffCount := trace.stateDiffs.length
      uniqueTouchedAccounts
      repeatedTouchedAccounts
      totalGasLimit
      totalGasPriceWei
      feeProxyWei }

end RollupX.Executor
