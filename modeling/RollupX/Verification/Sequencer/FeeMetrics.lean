import RollupX.Verification.Sequencer.Sealing

/-! The fee metrics of a batch. The fees are added up with saturation, and such a sum depends on
the exact total alone: the policy's order has the metrics of every other order. -/

namespace RollupX.Sequencer

open Executor (Address)

def totalPrice (txs : List PooledTransaction) : ℕ :=
  (txs.map fun p => p.tx.gasPrice.toNat).sum

def feesOf (txs : List Transaction) : ℕ :=
  (txs.map (·.fee.toNat)).sum

@[simp] theorem feesOf_nil : feesOf [] = 0 :=
  rfl

@[simp] theorem feesOf_cons (tx : Transaction) (txs : List Transaction) :
    feesOf (tx :: txs) = tx.fee.toNat + feesOf txs := by
  simp [feesOf]

theorem feesOf_perm {txs txs' : List Transaction} (h : txs.Perm txs') :
    feesOf txs = feesOf txs' :=
  (h.map _).sum_eq

theorem feesOf_schedule (forced : List ForcedTransaction) (ordered : List PooledTransaction) :
    feesOf (schedule forced ordered) = totalPrice ordered := by
  rw [feesOf, schedule, List.map_append, List.sum_append, List.map_map, List.map_map,
    List.sum_eq_zero, Nat.zero_add]
  · rfl
  · intro fee hfee
    obtain ⟨tx, -, rfl⟩ := List.mem_map.mp hfee
    rfl

theorem toNat_foldl_fees (txs : List Transaction) (fee : U256) :
    (txs.foldl addFee fee).toNat = min (fee.toNat + feesOf txs) (2 ^ 256 - 1) := by
  induction txs generalizing fee with
  | nil =>
    have hfee := fee.isLt
    simp only [List.foldl_nil, feesOf_nil]
    omega
  | cons tx txs ih =>
    rw [List.foldl_cons, ih, feesOf_cons]
    cases tx with
    | forced inner => simp [addFee, Transaction.fee]
    | normal ptx =>
      simp only [addFee, Transaction.fee, U256.toNat_saturatingAdd]
      omega

theorem toNat_collectFees (txs : List Transaction) :
    (collectFees txs).toNat = min (feesOf txs) (2 ^ 256 - 1) := by
  rw [collectFees, toNat_foldl_fees]
  simp

theorem collectFees_perm {txs txs' : List Transaction} (h : txs.Perm txs') :
    collectFees txs = collectFees txs' := by
  apply BitVec.eq_of_toNat_eq
  rw [toNat_collectFees, toNat_collectFees, feesOf_perm h]

theorem sortedByFee_perm (txs : List Transaction) : (sortedByFee txs).Perm txs :=
  List.perm_insertionSort _ _

section Metrics

variable {F : Type} [One F] [Div F] (asF64 : ℕ → F)

theorem mevMetrics_perm {txs txs' : List Transaction} (h : txs.Perm txs') :
    mevMetrics asF64 txs = mevMetrics asF64 txs' := by
  have hsorted : (sortedByFee txs).Perm (sortedByFee txs') :=
    (sortedByFee_perm txs).trans (h.trans (sortedByFee_perm txs').symm)
  rw [mevMetrics, mevMetrics, collectFees_perm h, collectFees_perm hsorted]

theorem fees_of_mevMetrics {txs : List Transaction} {metrics : MevMetrics F}
    (h : mevMetrics asF64 txs = some metrics) :
    metrics.actualBatchFeeWei = collectFees txs ∧
      metrics.optimalBatchFeeWei = collectFees (sortedByFee txs) := by
  rw [mevMetrics] at h
  split_ifs at h with hzero
  · rw [← Option.some.inj h]
    exact ⟨rfl, rfl⟩
  · obtain ⟨actual, -, h⟩ := Option.bind_eq_some_iff.mp h
    obtain ⟨optimal, -, h⟩ := Option.bind_eq_some_iff.mp h
    rw [← Option.some.inj h]
    exact ⟨rfl, rfl⟩

/-- Sums of which one is zero are not converted, and the others fit or not together. -/
theorem mevMetrics_isSome_iff (txs : List Transaction) :
    (mevMetrics asF64 txs).isSome = true ↔ feesOf txs < 2 ^ 128 := by
  have hfee := toNat_collectFees txs
  rw [mevMetrics, collectFees_perm (sortedByFee_perm txs)]
  generalize collectFees txs = fee at hfee
  by_cases hzero : fee = 0
  · have hfits : feesOf txs < 2 ^ 128 := by
      simp [hzero] at hfee
      omega
    simp only [hzero, if_true]
    exact iff_of_true rfl hfits
  · by_cases hfits : fee.toNat < 2 ^ 128
    · simp only [hzero, if_false, U256.asU128, hfits, if_true]
      exact iff_of_true rfl (by omega)
    · simp only [hzero, if_false, U256.asU128, hfits]
      exact iff_of_false (by simp) (by omega)

theorem fee_le_feesOf {tx : Transaction} {txs : List Transaction} (h : tx ∈ txs) :
    tx.fee.toNat ≤ feesOf txs :=
  List.le_sum_of_mem (List.mem_map_of_mem h)

theorem feesFit_iff (txs : List Transaction) : feesFit txs = true ↔ feesOf txs < 2 ^ 128 := by
  rw [feesFit, Bool.and_eq_true, mevMetrics_isSome_iff]
  refine ⟨And.right, fun h => ⟨List.all_eq_true.mpr fun tx htx => ?_, h⟩⟩
  exact Option.isSome_ite.mpr ((fee_le_feesOf htx).trans_lt h)

theorem feesFit_schedule_iff_of_perm {txs ordered : List PooledTransaction}
    (forced : List ForcedTransaction) (h : ordered.Perm txs) :
    feesFit (schedule forced ordered) = true ↔ totalPrice txs < 2 ^ 128 := by
  rw [feesFit_iff, feesOf_schedule, totalPrice, totalPrice, (h.map _).sum_eq]

/-- For any policy the fees collected are the optimal ones, saturating or not. These are the fees
that the metrics report, which exist whenever a batch is sealed, and any other order of the batch
has the same metrics. -/
theorem mevMetrics_ignore_order (hash : List PooledTransaction → Address → ℕ)
    (policy : SchedulingPolicyType) (forced : List ForcedTransaction)
    (normal ordered : List PooledTransaction)
    (horder : (createPolicy hash policy).orderTransactions normal = some ordered) :
    collectFees (schedule forced ordered) = collectFees (sortedByFee (schedule forced ordered)) ∧
      (collectFees (schedule forced ordered)).toNat = min (totalPrice normal) (2 ^ 256 - 1) ∧
      (∀ metrics, mevMetrics asF64 (schedule forced ordered) = some metrics →
        metrics.actualBatchFeeWei = collectFees (schedule forced ordered) ∧
          metrics.optimalBatchFeeWei = collectFees (sortedByFee (schedule forced ordered))) ∧
      (mevMetrics asF64 (schedule forced ordered)).isSome = feesFit (schedule forced ordered) ∧
      ∀ txs, txs.Perm (schedule forced ordered) →
        mevMetrics asF64 txs = mevMetrics asF64 (schedule forced ordered) := by
  refine ⟨(collectFees_perm (sortedByFee_perm _)).symm, ?_, fun metrics => fees_of_mevMetrics asF64,
    ?_, fun txs h => mevMetrics_perm asF64 h⟩
  · have hprice : totalPrice ordered = totalPrice normal :=
      ((createPolicy_perm horder).map _).sum_eq
    rw [toNat_collectFees, feesOf_schedule, hprice]
  · rw [Bool.eq_iff_iff, mevMetrics_isSome_iff, feesFit_iff]

end Metrics

theorem mevMetrics_ignore_order_fcfs :
    (collectFees (schedule [deposit 0] [payment 1 0 30 1, payment 2 0 30 5])).toNat = 6 ∧
      mevMetrics (F := ℚ) (fun n => n)
          (schedule [deposit 0] [payment 1 0 30 1, payment 2 0 30 5]) = some ⟨6, 6, 1, 0, 0⟩ ∧
      mevMetrics (F := ℚ) (fun n => n) [.normal (payment 2 0 30 5), .forced (deposit 0),
          .normal (payment 1 0 30 1)] =
        mevMetrics (F := ℚ) (fun n => n)
          (schedule [deposit 0] [payment 1 0 30 1, payment 2 0 30 5]) := by
  obtain ⟨-, hsum, -, -, hsame⟩ := mevMetrics_ignore_order (F := ℚ) (fun n => n) (fun _ _ => 0)
    .fcfs [deposit 0] [payment 1 0 30 1, payment 2 0 30 5] [payment 1 0 30 1, payment 2 0 30 5] rfl
  exact ⟨hsum, by decide +kernel, hsame _ (by decide +kernel)⟩

end RollupX.Sequencer
