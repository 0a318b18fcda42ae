import RollupX.Verification.Executor.Restart
import RollupX.Verification.Executor.Trace

/-! Batches as functions of the accounts. While a batch has room, what the loop decides and what it
writes depend on the accounts alone. -/

namespace RollupX.Executor

open Machine

variable {S : Type*} {rt : Runtime} {mgr : StateManager S} {batchId : String}

def transferred (accounts : Address → Account) (tx : Transaction) : Address → Account :=
  Function.update (Function.update accounts tx.sender (debited tx (accounts tx.sender)))
    tx.receiver (credited tx (accounts tx.receiver))

def applyTx (rt : Runtime) (accounts : Address → Account) (tx : Transaction) :
    Address → Account :=
  if rejection rt (accounts tx.sender) tx = none then transferred accounts tx else accounts

abbrev Verdict := Bool × Option String

def TxExecutionOutcome.verdict (outcome : TxExecutionOutcome) : Verdict :=
  (outcome.included, outcome.rejectionReason)

def verdictOn (rt : Runtime) (accounts : Address → Account) (tx : Transaction) : Verdict :=
  ((rejection rt (accounts tx.sender) tx).isNone,
    (rejection rt (accounts tx.sender) tx).map Rejection.reason)

def verdicts (rt : Runtime) : (Address → Account) → List Transaction → List Verdict
  | _, [] => []
  | accounts, tx :: txs => verdictOn rt accounts tx :: verdicts rt (applyTx rt accounts tx) txs

theorem verdicts_append (accounts : Address → Account) (txs txs' : List Transaction) :
    verdicts rt accounts (txs ++ txs') =
      verdicts rt accounts txs ++ verdicts rt (txs.foldl (applyTx rt) accounts) txs' := by
  induction txs generalizing accounts with
  | nil => rfl
  | cons tx txs ih => simp [verdicts, ih]

theorem length_verdicts (accounts : Address → Account) (txs : List Transaction) :
    (verdicts rt accounts txs).length = txs.length := by
  induction txs generalizing accounts with
  | nil => rfl
  | cons tx txs ih => simp [verdicts, ih]

theorem TxStep.onAccounts (hm : mgr.Lawful) {l l' : BatchLoop S} {tx : Transaction}
    (hstep : TxStep rt mgr batchId l tx l') (hroom : l.executed.length < maxIncluded batchId) :
    mgr.getAccount l'.state = applyTx rt (mgr.getAccount l.state) tx ∧
      l'.outcomes.map TxExecutionOutcome.verdict =
        l.outcomes.map TxExecutionOutcome.verdict ++
          [verdictOn rt (mgr.getAccount l.state) tx] ∧
      l'.executed.length ≤ l.executed.length + 1 := by
  cases hrej : rejection rt (mgr.getAccount l.state tx.sender) tx with
  | none =>
    have hadm : Admitted rt mgr batchId l tx := ⟨hrej, hroom⟩
    refine ⟨?_, ?_, ?_⟩
    · rw [hstep.getAccount hm hadm, applyTx, if_pos hrej, transferred]
    · obtain ⟨d₁, s₁, d₂, s₂, h₁, h₂, rfl⟩ := executeTx_of_admitted hadm hstep
      simp [BatchLoop.push, includedOutcome, TxExecutionOutcome.verdict, verdictOn, hrej]
    · rw [hstep.executed hadm, List.length_append, List.length_singleton]
  | some why =>
    simp only [TxStep, executeTx, executeTxUsing, hrej, Except.ok.injEq] at hstep
    subst hstep
    simp [rejectedOutcome, TxExecutionOutcome.verdict, verdictOn, applyTx, hrej]

theorem onAccounts_run (hm : mgr.Lawful) {l l' : BatchLoop S} {txs : List Transaction}
    (hr : Run (TxStep rt mgr batchId) l txs l')
    (hroom : l.executed.length + txs.length ≤ maxIncluded batchId) :
    mgr.getAccount l'.state = txs.foldl (applyTx rt) (mgr.getAccount l.state) ∧
      l'.outcomes.map TxExecutionOutcome.verdict =
        l.outcomes.map TxExecutionOutcome.verdict ++
          verdicts rt (mgr.getAccount l.state) txs := by
  induction hr with
  | nil l => simp [verdicts]
  | @cons l tx k txs l' hstep _ ih =>
    rw [List.length_cons] at hroom
    obtain ⟨haccounts, hverdict, hlength⟩ := hstep.onAccounts hm (by omega)
    obtain ⟨haccounts', hverdict'⟩ := ih (by omega)
    refine ⟨?_, ?_⟩
    · rw [haccounts', haccounts, List.foldl_cons]
    · rw [hverdict', hverdict, haccounts, verdicts, List.append_assoc, List.singleton_append]

/-- A batch that cannot fill up is the fold of its transactions over the accounts. -/
theorem executeBatch_onAccounts (hm : mgr.Lawful) {s s' : S} {txs : List Transaction}
    {trace : ExecutionTraceV1} (h : executeBatch rt mgr s batchId txs = (s', .ok trace))
    (hroom : txs.length ≤ maxIncluded batchId) :
    mgr.getAccount s' = txs.foldl (applyTx rt) (mgr.getAccount s) ∧
      trace.txOutcomes.map TxExecutionOutcome.verdict =
        verdicts rt (mgr.getAccount s) txs := by
  obtain ⟨l, hr, rfl, rfl⟩ := executeBatch_ok_iff.mp h
  have hstart : (BatchLoop.start mgr s).executed.length + txs.length ≤ maxIncluded batchId := by
    simpa [BatchLoop.start] using hroom
  exact onAccounts_run hm hr hstart

def Independent (t₁ t₂ : Transaction) : Prop :=
  ∀ a ∈ [t₁.sender, t₁.receiver], a ∉ [t₂.sender, t₂.receiver]

instance (t₁ t₂ : Transaction) : Decidable (Independent t₁ t₂) :=
  List.decidableBAll _ _

theorem Independent.symm {t₁ t₂ : Transaction} (h : Independent t₁ t₂) : Independent t₂ t₁ :=
  fun a h₂ h₁ => h a h₁ h₂

theorem applyTx_of_not_mem {accounts : Address → Account} {tx : Transaction} {a : Address}
    (ha : a ∉ [tx.sender, tx.receiver]) : applyTx rt accounts tx a = accounts a := by
  rw [List.mem_pair, not_or] at ha
  unfold applyTx transferred
  split_ifs
  · rw [Function.update_of_ne ha.2, Function.update_of_ne ha.1]
  · rfl

theorem applyTx_congr {accounts accounts' : Address → Account} {tx : Transaction} {a : Address}
    (htx : ∀ b ∈ [tx.sender, tx.receiver], accounts b = accounts' b)
    (ha : accounts a = accounts' a) : applyTx rt accounts tx a = applyTx rt accounts' tx a := by
  have hsender := htx tx.sender (by simp)
  have hreceiver := htx tx.receiver (by simp)
  simp only [applyTx, transferred, hsender, hreceiver]
  split_ifs
  · simp only [Function.update_apply, ha]
  · exact ha

theorem Independent.verdictOn {t₁ t₂ : Transaction} (h : Independent t₁ t₂)
    (accounts : Address → Account) :
    verdictOn rt (applyTx rt accounts t₁) t₂ = verdictOn rt accounts t₂ := by
  have hsender : t₂.sender ∉ [t₁.sender, t₁.receiver] := h.symm t₂.sender (by simp)
  rw [Executor.verdictOn, Executor.verdictOn, applyTx_of_not_mem hsender]

theorem Independent.applyTx_comm {t₁ t₂ : Transaction} (h : Independent t₁ t₂)
    (accounts : Address → Account) :
    applyTx rt (applyTx rt accounts t₁) t₂ = applyTx rt (applyTx rt accounts t₂) t₁ := by
  have hother : ∀ {t t' : Transaction}, Independent t t' → ∀ a ∉ [t.sender, t.receiver],
      applyTx rt (applyTx rt accounts t) t' a = applyTx rt accounts t' a := by
    intro t t' hind a ha
    refine applyTx_congr (fun b hb => ?_) (applyTx_of_not_mem ha)
    exact applyTx_of_not_mem (hind.symm b hb)
  funext a
  by_cases ha : a ∈ [t₁.sender, t₁.receiver]
  · rw [hother h.symm a (h a ha), applyTx_of_not_mem (h a ha)]
  · rw [hother h a ha, applyTx_of_not_mem ha]

/-- Two neighbouring transactions that share no account can be swapped, in a batch whose id
sets no small limit: the accounts at the end are the same, and so are the included flag and
the rejection reason of every transaction. On a store that can be written, both orders return
a trace. -/
theorem executeBatch_swap (rt : Runtime) (hm : mgr.Lawful) (s : S) (batchId : String)
    (hlarge₁ : batchId.startsWith "large1" = false)
    (hlarge₂ : batchId.startsWith "large2" = false) (before rest : List Transaction)
    (t₁ t₂ : Transaction) (hind : Independent t₁ t₂)
    (hlength : (before ++ t₁ :: t₂ :: rest).length ≤ 18446744073709551615) :
    (∀ s₁ s₂ trace₁ trace₂,
      executeBatch rt mgr s batchId (before ++ t₁ :: t₂ :: rest) = (s₁, .ok trace₁) →
      executeBatch rt mgr s batchId (before ++ t₂ :: t₁ :: rest) = (s₂, .ok trace₂) →
      mgr.getAccount s₁ = mgr.getAccount s₂ ∧
        ∃ vs v₁ v₂ vs', vs.length = before.length ∧
          trace₁.txOutcomes.map TxExecutionOutcome.verdict = vs ++ v₁ :: v₂ :: vs' ∧
          trace₂.txOutcomes.map TxExecutionOutcome.verdict = vs ++ v₂ :: v₁ :: vs') ∧
      ∀ good, mgr.Writable good → good s →
        Succeeds rt mgr s batchId (before ++ t₁ :: t₂ :: rest) ∧
        Succeeds rt mgr s batchId (before ++ t₂ :: t₁ :: rest) := by
  refine ⟨fun s₁ s₂ trace₁ trace₂ h₁ h₂ => ?_, fun good hw hs =>
    ⟨hw.succeeds hs batchId _, hw.succeeds hs batchId _⟩⟩
  have hmax : maxIncluded batchId = 18446744073709551615 := by
    simp [maxIncluded, hlarge₁, hlarge₂]
  obtain ⟨haccounts₁, hverdicts₁⟩ := executeBatch_onAccounts hm h₁ (by rw [hmax]; exact hlength)
  obtain ⟨haccounts₂, hverdicts₂⟩ := executeBatch_onAccounts hm h₂ (by
    rw [hmax]
    simpa using hlength)
  set accounts := before.foldl (applyTx rt) (mgr.getAccount s) with haccounts
  refine ⟨?_, verdicts rt (mgr.getAccount s) before, verdictOn rt accounts t₁,
    verdictOn rt accounts t₂, verdicts rt (applyTx rt (applyTx rt accounts t₁) t₂) rest,
    length_verdicts _ _, ?_, ?_⟩
  · rw [haccounts₁, haccounts₂]
    simp only [List.foldl_append, List.foldl_cons, hind.applyTx_comm]
  · rw [hverdicts₁, verdicts_append, verdicts, verdicts, ← haccounts, hind.verdictOn]
  · rw [hverdicts₂, verdicts_append, verdicts, verdicts, ← haccounts, hind.symm.verdictOn,
      hind.applyTx_comm]

def dora : Address := Vector.replicate 20 4

def twoHolders : InMemoryStateManager :=
  aliceStore.seedAccount charlie ⟨50, 0⟩

theorem executeBatch_swap_twoHolders :
    ∃ s₁ s₂ trace₁ trace₂,
      executeBatch localRuntime memory twoHolders "b1"
        [payment alice bob 10 0, payment charlie dora 60 0, payment bob charlie 10 0] =
          (s₁, .ok trace₁) ∧
      executeBatch localRuntime memory twoHolders "b1"
        [payment charlie dora 60 0, payment alice bob 10 0, payment bob charlie 10 0] =
          (s₂, .ok trace₂) ∧
      memory.getAccount s₁ = memory.getAccount s₂ ∧
      trace₁.txOutcomes.map TxExecutionOutcome.verdict =
        [(true, none), (false, some "insufficient_balance"), (true, none)] := by
  obtain ⟨s₁, trace₁, h₁, hverdicts⟩ := exists_trace_of_map localRuntime memory twoHolders "b1"
    [payment alice bob 10 0, payment charlie dora 60 0, payment bob charlie 10 0]
    (fun trace => trace.txOutcomes.map TxExecutionOutcome.verdict)
    (b := [(true, none), (false, some "insufficient_balance"), (true, none)])
    (by decide +kernel)
  have hswap := executeBatch_swap localRuntime (InMemoryStateManager.lawful Sha256.hash)
    twoHolders "b1" (by decide +kernel) (by decide +kernel) [] [payment bob charlie 10 0]
    (payment alice bob 10 0) (payment charlie dora 60 0) (by decide) (by decide)
  obtain ⟨-, hsucceeds⟩ := hswap.2 (fun _ => True)
    ⟨fun a acc _ => ⟨_, rfl⟩, fun _ _ => trivial⟩ trivial
  obtain ⟨s₂, trace₂, h₂⟩ := hsucceeds.exists_trace
  exact ⟨s₁, s₂, trace₁, trace₂, h₁, h₂, (hswap.1 s₁ s₂ trace₁ trace₂ h₁ h₂).1, hverdicts⟩

end RollupX.Executor
