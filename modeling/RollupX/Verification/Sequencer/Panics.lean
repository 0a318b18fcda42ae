import RollupX.Verification.Sequencer.Admission
import RollupX.Verification.Sequencer.FeeMetrics
import RollupX.Verification.Sequencer.GreedyOrder
import RollupX.Verification.Sequencer.Payload

/-! Where the arithmetic of the sequencer panics. -/

namespace RollupX.Sequencer

open Executor (Address)

theorem U256.mul_isSome_iff {x y : U256} :
    (U256.mul x y).isSome = true ↔ x.toNat * y.toNat < 2 ^ 256 :=
  Option.isSome_ite

theorem U256.add_isSome_iff {x y : U256} :
    (U256.add x y).isSome = true ↔ x.toNat + y.toNat < 2 ^ 256 :=
  Option.isSome_ite

theorem totalCost_isSome_iff (tx : UserTransaction) :
    (totalCost tx).isSome = true ↔ tx.cost < 2 ^ 256 := by
  have hfits := @U256.mul_isSome_iff tx.gasPrice (U256.ofU64 tx.gasLimit)
  unfold totalCost UserTransaction.cost
  cases hgas : U256.mul tx.gasPrice (U256.ofU64 tx.gasLimit) with
  | none =>
    rw [hgas, U256.toNat_ofU64] at hfits
    simp only [Option.isSome_none, Bool.false_eq_true, false_iff] at hfits ⊢
    omega
  | some gas =>
    rw [U256.add_isSome_iff, U256.toNat_mul_some hgas, U256.toNat_ofU64]

theorem checkBalance_ok_iff {cache : StateCache} {tx : UserTransaction}
    {answer : Except ValidationError Unit} (h : checkBalance cache tx = some answer) :
    answer = .ok () ↔ tx.cost ≤ cache.balanceOf tx.sender := by
  unfold checkBalance at h
  cases hcost : totalCost tx with
  | none => simp [hcost] at h
  | some required =>
    simp only [hcost, BitVec.lt_def, toNat_totalCost hcost] at h
    rw [StateCache.balanceOf]
    split_ifs at h with hlt
    · simp [← Option.some.inj h, hlt]
    · simp [← Option.some.inj h, not_lt.mp hlt]

theorem checkBalance_isSome_iff (cache : StateCache) (tx : UserTransaction) :
    (checkBalance cache tx).isSome = true ↔ tx.cost < 2 ^ 256 := by
  rw [← totalCost_isSome_iff]
  unfold checkBalance
  cases totalCost tx with
  | none => rfl
  | some required => simp [apply_ite Option.isSome]

/-- A transaction that is signed and has the expected nonce gets an answer, and that which its
cost calls for, exactly when the cost fits in 256 bits. -/
theorem validate_answers_iff (crypto : Crypto) (cache : StateCache) (tx : UserTransaction)
    (hsigned : verifySignature crypto tx = .ok ())
    (hnonce : tx.nonce = (cache.getOrInitAccount tx.sender).nonce) :
    (∃ answer, validate crypto cache tx = some answer ∧
        (answer = .ok () ↔ tx.cost ≤ cache.balanceOf tx.sender)) ↔ tx.cost < 2 ^ 256 := by
  have hvalidate : validate crypto cache tx = checkBalance cache tx := by
    simp [validate, hsigned, checkNonce, hnonce]
  rw [hvalidate, ← checkBalance_isSome_iff cache, Option.isSome_iff_exists]
  refine exists_congr fun answer => ?_
  exact ⟨fun h => h.1, fun h => ⟨h, checkBalance_ok_iff h⟩⟩

theorem validate_answers_transfer :
    ∃ answer, validate carolSigns carolCache (transfer 50 0) = some answer ∧
      (answer = .ok () ↔
        (transfer 50 0).cost ≤ carolCache.balanceOf (transfer 50 0).sender) := by
  refine (validate_answers_iff carolSigns carolCache (transfer 50 0) ?_ ?_).mpr ?_ <;> decide

def overpriced : UserTransaction :=
  { transfer 0 0 with gasPrice := BitVec.ofNat 256 (2 ^ 255), gasLimit := 2 }

/-- The transaction is signed and has the expected nonce, and its validation panics. -/
theorem validate_panics :
    verifySignature carolSigns overpriced = .ok () ∧
      overpriced.nonce = (carolCache.getOrInitAccount overpriced.sender).nonce ∧
      validate carolSigns carolCache overpriced = none := by
  decide +kernel

section Comparisons

variable {better better' : Better} {grouped : Grouped}

theorem bestSender_eq_of_length_le (better better' : Better) (h : grouped.length ≤ 1) :
    bestSender better grouped = bestSender better' grouped := by
  match grouped, h with
  | [], _ => rfl
  | [(_, [])], _ => rfl
  | [(_, _ :: _)], _ => rfl

theorem orderGrouped_eq_of_length_le {fuel : ℕ} (h : grouped.length ≤ 1) :
    orderGrouped better fuel grouped = orderGrouped better' fuel grouped := by
  induction fuel generalizing grouped with
  | zero => rfl
  | succ fuel ih =>
    rw [orderGrouped, orderGrouped, bestSender_eq_of_length_le better better' h]
    rcases bestSender better' grouped with _ | _ | ⟨sender, tx⟩
    · rfl
    · rfl
    · have hrest : (removeFirst sender grouped).length ≤ 1 :=
        (List.length_filterMap_le ..).trans h
      simp only [ih hrest]

theorem bestSender_eq_none (hpanics : ∀ a b, better a b = none) (h : 2 ≤ grouped.length)
    (hqueues : ∀ entry ∈ grouped, entry.2 ≠ []) : bestSender better grouped = none := by
  match grouped, h with
  | (s, []) :: _, _ => exact absurd rfl (hqueues (s, []) (by simp))
  | (_, _ :: _) :: (s, []) :: _, _ => exact absurd rfl (hqueues (s, []) (by simp))
  | (_, x :: _) :: (_, y :: _) :: _, _ => simp [bestSender, hpanics]

end Comparisons

theorem length_groupBySender (hash : Address → ℕ) (txs : List PooledTransaction) :
    (groupBySender hash txs).length = (txs.map (·.tx.sender)).dedup.length := by
  rw [← (groupBySender_keys hash txs).length_eq, List.length_map]

theorem groupBySender_ne_nil {hash : Address → ℕ} {txs : List PooledTransaction} :
    ∀ entry ∈ groupBySender hash txs, entry.2 ≠ [] := by
  intro entry hentry
  obtain ⟨sender, hsender, rfl⟩ := List.mem_map.mp hentry
  rw [List.mem_insertionSort, List.mem_dedup, List.mem_map] at hsender
  obtain ⟨p, hp, hsender⟩ := hsender
  have hmem : p ∈ byNonce (ofSender sender txs) := by
    rw [byNonce, List.mem_insertionSort, ofSender, List.mem_filter]
    exact ⟨hp, decide_eq_true hsender⟩
  exact List.ne_nil_of_mem hmem

theorem perm_id (grouped : Grouped) : (id grouped).Perm grouped :=
  .refl _

theorem orderBySender_isSome_iff {better : Better} (hpanics : ∀ a b, better a b = none)
    (hash : List PooledTransaction → Address → ℕ) (txs : List PooledTransaction) :
    (orderBySender hash better txs).isSome = true ↔
      (txs.map (·.tx.sender)).dedup.length ≤ 1 := by
  rw [← length_groupBySender (hash txs)]
  by_cases hone : (groupBySender (hash txs) txs).length ≤ 1
  · have hcomparison : SchedulingPolicyType.feePriority.comparison =
        some FeePriorityPolicy.better := rfl
    obtain ⟨ordered, hordered, -⟩ := orderIterated_greedy hcomparison perm_id (hash txs) txs
    have hfee : orderBySender hash FeePriorityPolicy.better txs = some ordered :=
      (orderRounds_id ..).symm.trans hordered
    have heq : orderBySender hash better txs = some ordered :=
      (orderGrouped_eq_of_length_le hone).trans hfee
    simp [heq, hone]
  · have hpos : txs.length ≠ 0 := by
      rintro hnil
      rw [List.length_eq_zero_iff.mp hnil] at hone
      exact hone (by simp [groupBySender])
    obtain ⟨fuel, hfuel⟩ := Nat.exists_eq_succ_of_ne_zero hpos
    have hbest : bestSender better (groupBySender (hash txs) txs) = none :=
      bestSender_eq_none hpanics (by omega) groupBySender_ne_nil
    have heq : orderBySender hash better txs = none := by
      rw [orderBySender, hfuel, orderGrouped, hbest]
    simp [heq, hone]

/-- The policies order any transactions, except `TimeBoost` with a window of zero, which panics
on those of two senders. -/
theorem orderTransactions_isSome_iff (hash : List PooledTransaction → Address → ℕ)
    (policy : SchedulingPolicyType) (txs : List PooledTransaction) :
    ((createPolicy hash policy).orderTransactions txs).isSome = true ↔
      (policy = .timeBoost 0 → (txs.map (·.tx.sender)).dedup.length ≤ 1) := by
  have hranked : ∀ {better : Better}, policy.comparison = some better →
      ((createPolicy hash policy).orderTransactions txs).isSome = true := by
    intro better hcomparison
    obtain ⟨ordered, hordered, -⟩ := orderIterated_greedy hcomparison perm_id (hash txs) txs
    rw [orderTransactions_eq hcomparison, hordered]
    rfl
  cases policy with
  | fcfs | fairBft => exact iff_of_true rfl nofun
  | feePriority | blobPacking => exact iff_of_true (hranked rfl) nofun
  | timeBoost timeWindowMs =>
    by_cases hzero : timeWindowMs = 0
    · subst hzero
      simp only [forall_const]
      exact orderBySender_isSome_iff (fun _ _ => rfl) hash txs
    · refine iff_of_true (hranked (if_neg hzero)) fun h => ?_
      cases h
      exact absurd rfl hzero

theorem toPolicyType_eq_timeBoost {scheduling : SchedulingConfig} {timeWindowMs : UInt64} :
    scheduling.toPolicyType = some (.timeBoost timeWindowMs) ↔
      scheduling.policyType = "TimeBoost" ∧ scheduling.timeWindowMs = timeWindowMs := by
  unfold SchedulingConfig.toPolicyType
  split <;> simp_all

/-- Of a policy: the transactions can be ordered and their fees added up. -/
def Schedulable (policy : SchedulingPolicyType) (txs : List PooledTransaction) : Prop :=
  totalPrice txs < 2 ^ 128 ∧
    (policy = .timeBoost 0 → (txs.map (·.tx.sender)).dedup.length ≤ 1)

theorem produceBatch_isSome_iff {env : OrchestratorEnv}
    {hash : List PooledTransaction → Address → ℕ} {policy : SchedulingPolicyType}
    (hpolicy : env.policy = createPolicy hash policy) (inputs : BatchInputs)
    (batchId nowSecs : UInt64) :
    (produceBatch env inputs batchId nowSecs).isSome = true ↔
      Schedulable policy (inputs.normal env) := by
  have horders := orderTransactions_isSome_iff hash policy (inputs.normal env)
  rw [← hpolicy] at horders
  rw [Schedulable, ← horders]
  have hout := produceBatch_outcome env inputs batchId nowSecs
  generalize produceBatch env inputs batchId nowSecs = result at hout
  cases hout with
  | nothing _ hnormal =>
    have hzero : totalPrice (inputs.normal env) < 2 ^ 128 := by simp [hnormal, totalPrice]
    refine iff_of_true rfl ⟨hzero, ?_⟩
    rw [horders, hnormal]
    simp
  | batch _ horder hfees =>
    exact iff_of_true rfl ⟨(feesFit_schedule_iff_of_perm _ (ordered_perm hpolicy horder)).mp hfees,
      by simp [horder]⟩
  | orderPanics _ horder => exact iff_of_false Bool.false_ne_true fun h => by simp [horder] at h
  | feesPanic _ horder hfees =>
    refine iff_of_false Bool.false_ne_true fun h => ?_
    rw [(feesFit_schedule_iff_of_perm _ (ordered_perm hpolicy horder)).mpr h.1] at hfees
    cases hfees

/-- A call returns exactly when the gas prices of the chosen normal transactions add up to less
than 2^128 and, for `TimeBoost` with a window of zero, no two of them have different senders. -/
theorem produceBatch_returns_iff (env : OrchestratorEnv)
    (hash : List PooledTransaction → Address → ℕ) (scheduling : SchedulingConfig)
    (hload : scheduling.toPolicyType.map (createPolicy hash) = some env.policy)
    (inputs : BatchInputs) (batchId nowSecs : UInt64) :
    (produceBatch env inputs batchId nowSecs).isSome = true ↔
      totalPrice (inputs.normal env) < 2 ^ 128 ∧
        (scheduling.policyType = "TimeBoost" ∧ scheduling.timeWindowMs = 0 →
          ((inputs.normal env).map (·.tx.sender)).dedup.length ≤ 1) := by
  obtain ⟨policy, hpolicyType, hpolicy⟩ := Option.map_eq_some_iff.mp hload
  rw [← toPolicyType_eq_timeBoost, hpolicyType, Option.some.injEq]
  exact produceBatch_isSome_iff hpolicy.symm inputs batchId nowSecs

/-! Payments that pass the validation. Their signatures name the sender. -/

def namedSigner : Crypto :=
  ⟨fun _ => Vector.replicate 32 0, fun signature _ =>
    some (Vector.replicate 20 (UInt8.ofNat signature.r.toNat))⟩

def namedPayment (sender : UInt8) (gasPrice : U256) (gasLimit : UInt64) : PooledTransaction :=
  let p := payment sender 0 gasLimit gasPrice
  { p with tx := { p.tx with signature := ⟨BitVec.ofNat 256 sender.toNat, 0, 27⟩ } }

theorem produceBatch_returns_twoSenders :
    totalPrice [namedPayment 1 1 0, namedPayment 2 1 0] < 2 ^ 128 ∧
      (produceBatch (scheduledBatches (.timeBoost 5000))
        ⟨[], 2, [namedPayment 1 1 0, namedPayment 2 1 0]⟩ 1 0).isSome = true := by
  refine ⟨by decide, (produceBatch_returns_iff _ (fun _ _ => 0)
    { policyType := "TimeBoost" } rfl _ 1 0).mpr ?_⟩
  decide +kernel

/-- The window of `TimeBoost` may be configured as zero, and a gas price of 2^128 costs nothing
when the gas limit is zero. Both end in a panic with transactions that have been validated. -/
theorem produceBatch_panics :
    (validate namedSigner paymentCache (namedPayment 1 1 0).tx = some (.ok ()) ∧
      validate namedSigner paymentCache (namedPayment 2 1 0).tx = some (.ok ()) ∧
      (SchedulingConfig.mk "TimeBoost" 0).toPolicyType = some (.timeBoost 0) ∧
      produceBatch (scheduledBatches (.timeBoost 0))
        ⟨[], 2, [namedPayment 1 1 0, namedPayment 2 1 0]⟩ 1 0 = none) ∧
    validate namedSigner paymentCache (namedPayment 1 (BitVec.ofNat 256 (2 ^ 128)) 0).tx =
        some (.ok ()) ∧
      produceBatch (scheduledBatches .fcfs)
        ⟨[], 1, [namedPayment 1 (BitVec.ofNat 256 (2 ^ 128)) 0]⟩ 1 0 = none := by
  decide +kernel

end RollupX.Sequencer
