import Mathlib.Algebra.Order.BigOperators.Group.List
import Mathlib.Algebra.GroupWithZero.Nat
import RollupX.Library.Fallible
import RollupX.Model.Executor.Metrics
import RollupX.Verification.Executor.Service

/-! The gas figures of a batch. They are sums over the transactions that the batch includes,
of numbers that nothing before them bounds but their types. -/

namespace RollupX.Executor

open Machine Fallible

variable {S : Type*} {rt : Runtime} {mgr : StateManager S} {env : ServiceEnv S}
  {overflowChecks : Bool}

theorem addUnsigned_unchecked (w a b : ℕ) :
    addUnsigned false w a b = some ((a + b) % 2 ^ w) := by
  by_cases hfits : a + b < 2 ^ w
  · rw [addUnsigned, if_pos hfits, Nat.mod_eq_of_lt hfits]
  · rw [addUnsigned, if_neg hfits]
    rfl

theorem foldlM_addUnsigned {w acc : ℕ} (hacc : acc < 2 ^ w) (xs : List ℕ) :
    xs.foldlM (addUnsigned overflowChecks w) acc = addUnsigned overflowChecks w acc xs.sum := by
  induction xs generalizing acc with
  | nil => simp [addUnsigned, hacc]
  | cons x xs ih =>
    rw [List.foldlM_cons, List.sum_cons]
    cases overflowChecks with
    | false =>
      rw [addUnsigned_unchecked, addUnsigned_unchecked, ← Nat.add_assoc]
      refine (ih (Nat.mod_lt _ (Nat.two_pow_pos w))).trans ?_
      rw [addUnsigned_unchecked, Nat.mod_add_mod]
    | true =>
      by_cases hfits : acc + x < 2 ^ w
      · rw [addUnsigned, if_pos hfits]
        refine (ih hfits).trans ?_
        rw [addUnsigned, addUnsigned, Nat.add_assoc]
      · have hover : ¬acc + (x + xs.sum) < 2 ^ w := by omega
        rw [addUnsigned, if_neg hfits, addUnsigned, if_neg hover]
        rfl

theorem sumUnsigned_eq (overflowChecks : Bool) (w : ℕ) (xs : List ℕ) :
    sumUnsigned overflowChecks w xs = addUnsigned overflowChecks w 0 xs.sum :=
  foldlM_addUnsigned (Nat.two_pow_pos w) xs

theorem sumUnsigned_eq_sum_iff {w : ℕ} {xs : List ℕ} :
    sumUnsigned overflowChecks w xs = some xs.sum ↔ xs.sum < 2 ^ w := by
  rw [sumUnsigned_eq]
  cases overflowChecks with
  | false =>
    rw [addUnsigned_unchecked, Nat.zero_add, Option.some.injEq]
    exact Nat.mod_eq_iff_lt (Nat.two_pow_pos w).ne'
  | true =>
    by_cases hfits : xs.sum < 2 ^ w
    · simp [addUnsigned, hfits]
    · simp [addUnsigned, hfits]

theorem saturatingMul_toNat (a b : UInt64) :
    saturatingMul 128 a.toNat b.toNat = a.toNat * b.toNat := by
  have hlt : a.toNat * b.toNat < 2 ^ 64 * 2 ^ 64 :=
    Nat.mul_lt_mul'' a.toNat_lt b.toNat_lt
  rw [← Nat.pow_add] at hlt
  rw [saturatingMul, if_pos hlt]

def gasLimitOf (txs : List Transaction) : ℕ :=
  (txs.map fun tx => tx.gasLimit.toNat).sum

def gasPriceOf (txs : List Transaction) : ℕ :=
  (txs.map fun tx => tx.gasPrice.toNat).sum

def feeProxyOf (txs : List Transaction) : ℕ :=
  (txs.map fun tx => tx.gasPrice.toNat * tx.gasLimit.toNat).sum

structure ExecutorBatchMetricsRow.Exact (row : ExecutorBatchMetricsRow)
    (txs : List Transaction) : Prop where
  gasLimit : row.totalGasLimit = gasLimitOf txs
  gasPrice : row.totalGasPriceWei = gasPriceOf txs
  feeProxy : row.feeProxyWei = feeProxyOf txs

/-- Each sum fits in its type. -/
structure GasFits (txs : List Transaction) : Prop where
  gasLimit : gasLimitOf txs < 2 ^ 64
  gasPrice : gasPriceOf txs < 2 ^ 64
  feeProxy : feeProxyOf txs < 2 ^ 128

theorem batchRow_eq_some_iff {job : PendingBatchJob} {trace : ExecutionTraceV1}
    {row : ExecutorBatchMetricsRow} :
    batchRow overflowChecks job trace = some row ↔
      ∃ gasLimit gasPrice feeProxy,
        sumUnsigned overflowChecks 64
          (trace.executedTransactions.map fun tx => tx.gasLimit.toNat) = some gasLimit ∧
        sumUnsigned overflowChecks 64
          (trace.executedTransactions.map fun tx => tx.gasPrice.toNat) = some gasPrice ∧
        sumUnsigned overflowChecks 128
          (trace.executedTransactions.map fun tx => tx.gasPrice.toNat * tx.gasLimit.toNat) =
            some feeProxy ∧
        row = ⟨job.experimentId, job.payload.batchId, trace.traceId,
          trace.executedTransactions.length, trace.stateDiffs.length,
          (touchedAccountStats trace.stateDiffs).1, (touchedAccountStats trace.stateDiffs).2,
          gasLimit, gasPrice, feeProxy⟩ := by
  simp only [batchRow, saturatingMul_toNat, bind, Option.bind_eq_some_iff, pure,
    Option.some.injEq]
  constructor
  · rintro ⟨gasLimit, hlimit, gasPrice, hprice, feeProxy, hfee, rfl⟩
    exact ⟨gasLimit, gasPrice, feeProxy, hlimit, hprice, hfee, rfl⟩
  · rintro ⟨gasLimit, gasPrice, feeProxy, hlimit, hprice, hfee, rfl⟩
    exact ⟨gasLimit, hlimit, gasPrice, hprice, feeProxy, hfee, rfl⟩

theorem batchRow_exact_iff {job : PendingBatchJob} {trace : ExecutionTraceV1} :
    (∃ row, batchRow overflowChecks job trace = some row ∧
        row.Exact trace.executedTransactions) ↔ GasFits trace.executedTransactions := by
  constructor
  · rintro ⟨row, hrow, hexact⟩
    obtain ⟨gasLimit, gasPrice, feeProxy, hlimit, hprice, hfee, rfl⟩ :=
      batchRow_eq_some_iff.mp hrow
    obtain ⟨rfl, rfl, rfl⟩ := hexact
    exact ⟨sumUnsigned_eq_sum_iff.mp hlimit, sumUnsigned_eq_sum_iff.mp hprice,
      sumUnsigned_eq_sum_iff.mp hfee⟩
  · rintro ⟨hlimit, hprice, hfee⟩
    refine ⟨_, batchRow_eq_some_iff.mpr ⟨_, _, _, sumUnsigned_eq_sum_iff.mpr hlimit,
      sumUnsigned_eq_sum_iff.mpr hprice, sumUnsigned_eq_sum_iff.mpr hfee, rfl⟩, ?_⟩
    exact ⟨rfl, rfl, rfl⟩

def SequencerTransaction.gasLimit : SequencerTransaction → ℕ
  | .normal tx => tx.gasLimit.toNat
  | .forced tx => tx.gasLimit.toNat

def SequencerTransaction.gasPrice : SequencerTransaction → ℕ
  | .normal tx => tx.gasPrice.toNat
  | .forced _ => 0

/-- The sums over all that was sent fit, included or not. -/
structure InputFits (input : List SequencerTransaction) : Prop where
  gasLimit : (input.map SequencerTransaction.gasLimit).sum < 2 ^ 64
  gasPrice : (input.map SequencerTransaction.gasPrice).sum < 2 ^ 64
  feeProxy : (input.map fun tx => tx.gasPrice * tx.gasLimit).sum < 2 ^ 128

theorem normalizeTransaction_gas {tx : SequencerTransaction} {t : Transaction}
    (h : normalizeTransaction tx = .ok t) :
    t.gasLimit.toNat = tx.gasLimit ∧ t.gasPrice.toNat = tx.gasPrice := by
  cases tx with
  | normal n =>
    obtain ⟨amount, -, h⟩ := bind_ok_iff.mp h
    obtain ⟨gasPrice, hprice, h⟩ := bind_ok_iff.mp h
    cases hbid : n.boostBid with
    | none =>
      simp only [hbid] at h
      cases h
      exact ⟨rfl, u256ToU64Checked_ok hprice⟩
    | some bid =>
      simp only [hbid] at h
      obtain ⟨boostBid, -, h⟩ := bind_ok_iff.mp h
      cases h
      exact ⟨rfl, u256ToU64Checked_ok hprice⟩
  | forced f =>
    obtain ⟨amount, -, h⟩ := bind_ok_iff.mp h
    cases h
    exact ⟨rfl, rfl⟩

theorem map_normalizeTransactions {β : Type*} {input : List SequencerTransaction}
    {txs : List Transaction} (h : normalizeTransactions input = .ok txs) {f : Transaction → β}
    {g : SequencerTransaction → β}
    (hfg : ∀ tx t, normalizeTransaction tx = .ok t → f t = g tx) : txs.map f = input.map g := by
  have hall := (mapM_ok_iff _ _ _).mp h
  clear h
  induction hall with
  | nil => rfl
  | cons htx _ ih => rw [List.map_cons, List.map_cons, ih, hfg _ _ htx]

theorem executed_sublist {s s' : S} {batchId : String} {txs : List Transaction}
    {trace : ExecutionTraceV1} (h : executeBatch rt mgr s batchId txs = (s', .ok trace)) :
    trace.executedTransactions.Sublist txs := by
  obtain ⟨l, hr, -, rfl⟩ := executeBatch_ok_iff.mp h
  refine hr.history (I := fun done l => l.executed.Sublist done) ?_ .slnil
  intro done l tx l' hl hstep
  by_cases hadm : Admitted rt mgr batchId l tx
  · rw [hstep.executed hadm]
    exact hl.append_right [tx]
  · obtain ⟨-, -, he, -⟩ := hstep.frame hadm
    rw [he]
    exact hl.trans (List.sublist_append_left done [tx])

theorem sum_map_le_of_sublist {txs txs' : List Transaction} (h : txs.Sublist txs')
    (f : Transaction → ℕ) : (txs.map f).sum ≤ (txs'.map f).sum :=
  (h.map f).sum_le_sum fun _ _ => Nat.zero_le _

theorem InputFits.gasFits {input : List SequencerTransaction} {txs executed : List Transaction}
    (h : InputFits input) (hnorm : normalizeTransactions input = .ok txs)
    (hsub : executed.Sublist txs) : GasFits executed := by
  refine ⟨(sum_map_le_of_sublist hsub _).trans_lt ?_, (sum_map_le_of_sublist hsub _).trans_lt ?_,
    (sum_map_le_of_sublist hsub _).trans_lt ?_⟩
  · rw [map_normalizeTransactions hnorm fun _ _ htx => (normalizeTransaction_gas htx).1]
    exact h.gasLimit
  · rw [map_normalizeTransactions hnorm fun _ _ htx => (normalizeTransaction_gas htx).2]
    exact h.gasPrice
  · rw [map_normalizeTransactions hnorm (g := fun tx => tx.gasPrice * tx.gasLimit)]
    · exact h.feeProxy
    · intro tx t htx
      rw [(normalizeTransaction_gas htx).1, (normalizeTransaction_gas htx).2]

/-- The figures of a batch that was executed are exact if and only if the sums over the
transactions included fit in `u64` and `u128`, as they do if those over the whole batch fit. -/
theorem gasMetrics_exact_iff (overflowChecks : Bool) (input : List SequencerTransaction)
    (job : PendingBatchJob) (hnorm : normalizeTransactions input = .ok job.txs) (s s' : S)
    (trace : ExecutionTraceV1)
    (hexec : executeBatch rt mgr s job.payload.batchId job.txs = (s', .ok trace)) :
    ((∃ row, batchRow overflowChecks job trace = some row ∧
        row.Exact trace.executedTransactions) ↔ GasFits trace.executedTransactions) ∧
      (InputFits input → GasFits trace.executedTransactions) :=
  ⟨batchRow_exact_iff, fun h => h.gasFits hnorm (executed_sublist hexec)⟩

def twoPayments (gasLimit : UInt64) : List SequencerTransaction :=
  [.forced ⟨alice, bob, 10, 0, gasLimit, 0⟩, .forced ⟨alice, bob, 10, 1, gasLimit, 0⟩]

def twoPaymentsJob (gasLimit : UInt64) : PendingBatchJob where
  payload := ⟨"b1", .raw [], [], [], [], [], "local"⟩
  experimentId := "local"
  txs := [⟨alice, bob, 10, 0, [], 0, gasLimit, 0, 0⟩, ⟨alice, bob, 10, 1, [], 0, gasLimit, 0, 0⟩]

theorem exists_trace_of_view {s : S} {batchId : String} {txs executed : List Transaction}
    {a : Address} {acc : Account}
    (h : (mgr.getAccount (executeBatch rt mgr s batchId txs).1 a,
        (executeBatch rt mgr s batchId txs).2.toOption.map
          ExecutionTraceV1.executedTransactions) = (acc, some executed)) :
    ∃ s' trace, executeBatch rt mgr s batchId txs = (s', .ok trace) ∧
      mgr.getAccount s' a = acc ∧ trace.executedTransactions = executed := by
  generalize executeBatch rt mgr s batchId txs = outcome at h ⊢
  obtain ⟨s', result⟩ := outcome
  cases result with
  | error e => cases h
  | ok trace =>
    cases h
    exact ⟨s', trace, rfl, rfl, rfl⟩

theorem executed_twoPayments {gasLimit : UInt64}
    (h : gasLimit = 21000 ∨ gasLimit = 0x8000000000000000) :
    ∃ s trace,
      executeBatch localRuntime memory aliceStore "b1" (twoPaymentsJob gasLimit).txs =
        (s, .ok trace) ∧
      memory.getAccount s bob = ⟨20, 0⟩ ∧
      trace.executedTransactions = (twoPaymentsJob gasLimit).txs := by
  apply exists_trace_of_view
  rcases h with rfl | rfl
  · decide +kernel
  · decide +kernel

theorem gasMetrics_exact_transfers :
    normalizeTransactions (twoPayments 21000) = .ok (twoPaymentsJob 21000).txs ∧
      ∃ s trace row,
        executeBatch localRuntime memory aliceStore "b1" (twoPaymentsJob 21000).txs =
          (s, .ok trace) ∧
        batchRow true (twoPaymentsJob 21000) trace = some row ∧ row.totalGasLimit = 42000 := by
  obtain ⟨s, trace, hexec, -, hall⟩ := executed_twoPayments (.inl rfl)
  have hinput : InputFits (twoPayments 21000) := ⟨by decide, by decide, by decide⟩
  obtain ⟨hiff, hfits⟩ := gasMetrics_exact_iff true (twoPayments 21000) (twoPaymentsJob 21000)
    rfl aliceStore s trace hexec
  obtain ⟨row, hrow, hexact⟩ := hiff.mpr (hfits hinput)
  refine ⟨rfl, s, trace, row, hexec, hrow, ?_⟩
  rw [hexact.gasLimit, hall]
  rfl

/-- The gas limits of two payments add up to 2^64. Both are executed, and then the sum panics,
or it wraps and the row says that no gas was allowed. -/
theorem gasMetrics_halfRange :
    normalizeTransactions (twoPayments 0x8000000000000000) =
        .ok (twoPaymentsJob 0x8000000000000000).txs ∧
      ∃ s trace,
        executeBatch localRuntime memory aliceStore "b1"
          (twoPaymentsJob 0x8000000000000000).txs = (s, .ok trace) ∧
        memory.getAccount s bob = ⟨20, 0⟩ ∧
        gasLimitOf trace.executedTransactions = 2 ^ 64 ∧
        batchRow true (twoPaymentsJob 0x8000000000000000) trace = none ∧
        (batchRow false (twoPaymentsJob 0x8000000000000000) trace).map
          ExecutorBatchMetricsRow.totalGasLimit = some 0 := by
  obtain ⟨s, trace, hexec, hbob, hall⟩ := executed_twoPayments (.inr rfl)
  refine ⟨rfl, s, trace, hexec, hbob, ?_, ?_, ?_⟩
  · rw [hall]
    rfl
  · rw [batchRow, hall]
    rfl
  · rw [batchRow, hall]
    rfl

end RollupX.Executor
