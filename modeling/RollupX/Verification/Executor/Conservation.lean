import RollupX.Verification.Executor.Engine

/-! Conservation of the total balance by a batch. The engine reads both accounts of a transaction
before it writes either. -/

namespace RollupX.Executor

open Machine Finset

variable {S : Type*} {rt : Runtime} {mgr : StateManager S} {batchId : String}

/-- Absent accounts count zero, so the total is the sum over the entries of the map. -/
theorem totalBalance_inMemory (sha256 : List UInt8 → Hash) (s : InMemoryStateManager) :
    (InMemoryStateManager.stateManager sha256).totalBalance s =
      (s.accounts.toList.map fun e => e.2.balance.toNat).sum := by
  let f : Address → ℕ := fun a => (s.getAccount a).balance.toNat
  have hentry : ∀ e ∈ s.accounts.toList, e.2.balance.toNat = f e.1 := by
    intro e he
    have hget := Std.ExtTreeMap.mem_toList_iff_getElem?_eq_some.mp he
    simp [f, InMemoryStateManager.getAccount, hget]
  have hzero : ∀ a ∈ univ, a ∉ (s.accounts.toList.map Prod.fst).toFinset → f a = 0 := by
    intro a _ ha
    have hnone : s.accounts[a]? = none := by
      cases hget : s.accounts[a]? with
      | none => rfl
      | some v =>
        have hmem := Std.ExtTreeMap.mem_toList_iff_getElem?_eq_some.mpr hget
        exact absurd (List.mem_toFinset.mpr (List.mem_map_of_mem hmem)) ha
    simp [f, InMemoryStateManager.getAccount, hnone, default]
  calc
    _ = ∑ a, f a := StateManager.totalBalance_eq_sum _ s
    _ = ∑ a ∈ (s.accounts.toList.map Prod.fst).toFinset, f a :=
      (sum_subset (subset_univ _) hzero).symm
    _ = ((s.accounts.toList.map Prod.fst).map f).sum :=
      List.sum_toFinset f (nodup_addresses s.accounts)
    _ = (s.accounts.toList.map fun e => e.2.balance.toNat).sum := by
      rw [List.map_map]
      exact congrArg List.sum (List.map_congr_left fun e he => (hentry e he).symm)

theorem totalBalance_of_not_admitted {l l' : BatchLoop S} {tx : Transaction}
    (hstep : TxStep rt mgr batchId l tx l') (h : ¬Admitted rt mgr batchId l tx) :
    mgr.totalBalance l'.state = mgr.totalBalance l.state := by
  rw [(hstep.frame h).1]

theorem balance_le_totalBalance (mgr : StateManager S) (s : S) (a : Address) :
    (mgr.getAccount s a).balance.toNat ≤ mgr.totalBalance s := by
  rw [mgr.totalBalance_eq_sum s]
  exact single_le_sum (f := (mgr.ledger s).balance) (fun _ _ => Nat.zero_le _) (mem_univ a)

theorem toNat_debited {l : BatchLoop S} {tx : Transaction}
    (h : Admitted rt mgr batchId l tx) :
    (debited tx (mgr.getAccount l.state tx.sender)).balance.toNat + tx.amount.toNat =
      (mgr.getAccount l.state tx.sender).balance.toNat := by
  have hle := h.amount_le
  have hle' := UInt64.le_iff_toNat_le.mp hle
  have hsub := UInt64.toNat_sub_of_le _ _ hle
  simp only [debited]
  omega

theorem TxStep.balance_sender {l l' : BatchLoop S} {tx : Transaction} (hm : mgr.Lawful)
    (hstep : TxStep rt mgr batchId l tx l') (h : Admitted rt mgr batchId l tx)
    (hne : tx.sender ≠ tx.receiver) :
    (mgr.ledger l'.state).balance tx.sender + tx.amount.toNat =
      (mgr.ledger l.state).balance tx.sender := by
  simp only [StateManager.ledger, hstep.getAccount hm h, Function.update_of_ne hne,
    Function.update_self]
  exact toNat_debited h

theorem TxStep.balance_le_of_ne {l l' : BatchLoop S} {tx : Transaction} (hm : mgr.Lawful)
    (hstep : TxStep rt mgr batchId l tx l') (h : Admitted rt mgr batchId l tx) {a : Address}
    (ha : a ≠ tx.sender) : (mgr.ledger l.state).balance a ≤ (mgr.ledger l'.state).balance a := by
  simp only [StateManager.ledger, hstep.getAccount hm h]
  by_cases hr : a = tx.receiver
  · subst hr
    have hlt := (mgr.getAccount l.state tx.receiver).balance.toNat_lt
    rw [Function.update_self, credited, Bytes.toNat_saturatingAdd]
    omega
  · rw [Function.update_of_ne hr, Function.update_of_ne ha]

theorem TxStep.balance_eq_transfer {l l' : BatchLoop S} {tx : Transaction} (hm : mgr.Lawful)
    (hstep : TxStep rt mgr batchId l tx l') (h : Admitted rt mgr batchId l tx)
    (hne : tx.sender ≠ tx.receiver)
    (hroom : (mgr.getAccount l.state tx.receiver).balance.toNat + tx.amount.toNat < 2 ^ 64) :
    (mgr.ledger l'.state).balance =
      ((mgr.ledger l.state).transfer tx.sender tx.receiver tx.amount.toNat).balance := by
  have hdebit := toNat_debited h
  have hcredit := Bytes.toNat_saturatingAdd
    (mgr.getAccount l.state tx.receiver).balance tx.amount
  funext a
  simp only [StateManager.ledger, Ledger.transfer, hstep.getAccount hm h]
  by_cases hr : a = tx.receiver
  · subst hr
    simp only [Function.update_self, Function.update_of_ne hne.symm, credited]
    omega
  · rw [Function.update_of_ne hr, Function.update_of_ne hr]
    by_cases hs : a = tx.sender
    · subst hs
      simp only [Function.update_self]
      omega
    · simp only [Function.update_of_ne hs]

theorem TxStep.nonce_eq_transfer {l l' : BatchLoop S} {tx : Transaction} (hm : mgr.Lawful)
    (hstep : TxStep rt mgr batchId l tx l') (h : Admitted rt mgr batchId l tx)
    (hne : tx.sender ≠ tx.receiver)
    (hroom : (mgr.getAccount l.state tx.sender).nonce.toNat < 2 ^ 64 - 1) :
    (mgr.ledger l'.state).nonce =
      ((mgr.ledger l.state).transfer tx.sender tx.receiver tx.amount.toNat).nonce := by
  have hnext := Bytes.toNat_saturatingAdd (mgr.getAccount l.state tx.sender).nonce 1
  have hone : (1 : UInt64).toNat = 1 := rfl
  funext a
  simp only [StateManager.ledger, Ledger.transfer, hstep.getAccount hm h]
  by_cases hr : a = tx.receiver
  · subst hr
    simp only [Function.update_self, Function.update_of_ne hne.symm, credited]
  · rw [Function.update_of_ne hr]
    by_cases hs : a = tx.sender
    · subst hs
      simp only [Function.update_self, debited]
      omega
    · simp only [Function.update_of_ne hs]

/-- An included transaction between two accounts keeps the total, unless the credit
saturates. Then the receiver alone holds `u64::MAX`. -/
theorem totalBalance_of_ne {l l' : BatchLoop S} {tx : Transaction} (hm : mgr.Lawful)
    (hstep : TxStep rt mgr batchId l tx l') (h : Admitted rt mgr batchId l tx)
    (hne : tx.sender ≠ tx.receiver) :
    if (mgr.getAccount l.state tx.receiver).balance.toNat + tx.amount.toNat < 2 ^ 64 then
      mgr.totalBalance l'.state = mgr.totalBalance l.state
    else 2 ^ 64 - 1 ≤ mgr.totalBalance l'.state := by
  split
  · rename_i hroom
    have hle := UInt64.le_iff_toNat_le.mp h.amount_le
    rw [mgr.totalBalance_eq_sum, mgr.totalBalance_eq_sum,
      hstep.balance_eq_transfer hm h hne hroom]
    exact Ledger.total_transfer (mgr.ledger l.state) tx.sender tx.receiver hle
  · have hreceiver := balance_le_totalBalance mgr l'.state tx.receiver
    have hcredit := Bytes.toNat_saturatingAdd
      (mgr.getAccount l.state tx.receiver).balance tx.amount
    rw [hstep.getAccount hm h, Function.update_self] at hreceiver
    simp only [credited] at hreceiver
    omega

/-- An included self-transfer adds its amount to the total, up to the saturation of the
account at `u64::MAX`. -/
theorem totalBalance_of_self {l l' : BatchLoop S} {tx : Transaction} (hm : mgr.Lawful)
    (hstep : TxStep rt mgr batchId l tx l') (h : Admitted rt mgr batchId l tx)
    (hself : tx.sender = tx.receiver) :
    mgr.totalBalance l'.state + (mgr.getAccount l.state tx.sender).balance.toNat =
      mgr.totalBalance l.state +
        min ((mgr.getAccount l.state tx.sender).balance.toNat + tx.amount.toNat)
          (2 ^ 64 - 1) := by
  obtain ⟨d₁, s₁, d₂, s₂, h₁, h₂, rfl⟩ := executeTx_of_admitted h hstep
  change mgr.totalBalance s₂ + _ = _
  rw [← hself] at h₂
  have hfirst : mgr.getAccount s₁ tx.sender =
      debited tx (mgr.getAccount l.state tx.sender) := by
    rw [hm.getAccount_setAccount h₁, Function.update_self]
  have ht₁ := hm.totalBalance_setAccount h₁
  have ht₂ := hm.totalBalance_setAccount h₂
  have hcredit := Bytes.toNat_saturatingAdd
    (mgr.getAccount l.state tx.sender).balance tx.amount
  rw [hfirst] at ht₂
  simp only [credited] at ht₂
  omega

/-- The loop is about to include a self-transfer that creates balance. -/
def Mints (rt : Runtime) (mgr : StateManager S) (batchId : String) (l : BatchLoop S)
    (tx : Transaction) : Prop :=
  Admitted rt mgr batchId l tx ∧ tx.sender = tx.receiver ∧ 0 < tx.amount.toNat ∧
    (mgr.getAccount l.state tx.sender).balance.toNat < 2 ^ 64 - 1

def NeverMints (rt : Runtime) (mgr : StateManager S) (batchId : String) (s : S)
    (txs : List Transaction) : Prop :=
  Along (TxStep rt mgr batchId) (fun l tx => ¬Mints rt mgr batchId l tx)
    (BatchLoop.start mgr s) txs

theorem credit_lt_of_ne {l : BatchLoop S} {tx : Transaction}
    (hfit : mgr.totalBalance l.state ≤ 2 ^ 64 - 1) (h : Admitted rt mgr batchId l tx)
    (hne : tx.sender ≠ tx.receiver) :
    (mgr.getAccount l.state tx.receiver).balance.toNat + tx.amount.toNat < 2 ^ 64 := by
  have hpair : (mgr.getAccount l.state tx.sender).balance.toNat +
      (mgr.getAccount l.state tx.receiver).balance.toNat ≤ mgr.totalBalance l.state := by
    rw [mgr.totalBalance_eq_sum l.state]
    exact Finset.add_le_sum_of_ne (mgr.ledger l.state).balance hne
  have hle := UInt64.le_iff_toNat_le.mp h.amount_le
  omega

theorem neverMints_of_ne {s : S} {txs : List Transaction}
    (h : ∀ tx ∈ txs, tx.sender ≠ tx.receiver) : NeverMints rt mgr batchId s txs :=
  Along.of_forall fun tx htx _ hmint => h tx htx hmint.2.1

theorem totalBalance_of_not_mints {l l' : BatchLoop S} {tx : Transaction} (hm : mgr.Lawful)
    (hfit : mgr.totalBalance l.state ≤ 2 ^ 64 - 1) (h : ¬Mints rt mgr batchId l tx)
    (hstep : TxStep rt mgr batchId l tx l') :
    mgr.totalBalance l'.state = mgr.totalBalance l.state := by
  by_cases hadm : Admitted rt mgr batchId l tx
  · by_cases hself : tx.sender = tx.receiver
    · have ht := totalBalance_of_self hm hstep hadm hself
      have hmax := (mgr.getAccount l.state tx.sender).balance.toNat_lt
      by_cases hpos : 0 < tx.amount.toNat
      · have hfull : ¬(mgr.getAccount l.state tx.sender).balance.toNat < 2 ^ 64 - 1 :=
          fun hlt => h ⟨hadm, hself, hpos, hlt⟩
        omega
      · omega
    · have ht := totalBalance_of_ne hm hstep hadm hself
      rw [if_pos (credit_lt_of_ne hfit hadm hself)] at ht
      exact ht
  · exact totalBalance_of_not_admitted hstep hadm

theorem lt_totalBalance_of_mints {l l' : BatchLoop S} {tx : Transaction} (hm : mgr.Lawful)
    (h : Mints rt mgr batchId l tx) (hstep : TxStep rt mgr batchId l tx l') :
    mgr.totalBalance l.state < mgr.totalBalance l'.state := by
  obtain ⟨hadm, hself, hpos, hlt⟩ := h
  have ht := totalBalance_of_self hm hstep hadm hself
  omega

/-- Once the total exceeds a bound below `u64::MAX`, it stays above it: a saturating credit
leaves `u64::MAX` in one account. -/
theorem TxStep.totalBalance_gt {l l' : BatchLoop S} {tx : Transaction} {bound : ℕ}
    (hm : mgr.Lawful) (hbound : bound < 2 ^ 64 - 1)
    (hstep : TxStep rt mgr batchId l tx l') (h : bound < mgr.totalBalance l.state) :
    bound < mgr.totalBalance l'.state := by
  by_cases hadm : Admitted rt mgr batchId l tx
  · by_cases hself : tx.sender = tx.receiver
    · have ht := totalBalance_of_self hm hstep hadm hself
      have hmax := (mgr.getAccount l.state tx.sender).balance.toNat_lt
      omega
    · have ht := totalBalance_of_ne hm hstep hadm hself
      split at ht <;> omega
  · rw [totalBalance_of_not_admitted hstep hadm]
    exact h

theorem totalBalance_run {l l' : BatchLoop S} {txs : List Transaction} (hm : mgr.Lawful)
    (hr : Run (TxStep rt mgr batchId) l txs l')
    (hfit : mgr.totalBalance l.state ≤ 2 ^ 64 - 1)
    (h : Along (TxStep rt mgr batchId) (fun l tx => ¬Mints rt mgr batchId l tx) l txs) :
    mgr.totalBalance l'.state = mgr.totalBalance l.state := by
  refine hr.invariant (I := fun k => mgr.totalBalance k.state = mgr.totalBalance l.state)
    ?_ h rfl
  intro k tx k' hk hmint hstep
  rw [totalBalance_of_not_mints hm (by omega) hmint hstep, hk]

theorem along_of_totalBalance_eq {l l' : BatchLoop S} {txs : List Transaction}
    (hm : mgr.Lawful) (hr : Run (TxStep rt mgr batchId) l txs l')
    (hfit : mgr.totalBalance l.state < 2 ^ 64 - 1)
    (h : mgr.totalBalance l'.state = mgr.totalBalance l.state) :
    Along (TxStep rt mgr batchId) (fun l tx => ¬Mints rt mgr batchId l tx) l txs := by
  induction hr with
  | nil l => trivial
  | @cons l tx k txs l' hstep hrest ih =>
    have hmint : ¬Mints rt mgr batchId l tx := by
      intro hmint
      have hgt := hrest.invariant_of_step
        (I := fun k => mgr.totalBalance l.state < mgr.totalBalance k.state)
        (fun _ _ _ hk hs => hs.totalBalance_gt hm hfit hk)
        (lt_totalBalance_of_mints hm hmint hstep)
      omega
    have heq := totalBalance_of_not_mints hm hfit.le hmint hstep
    refine ⟨hmint, fun t ht => ?_⟩
    rw [ht.unique hstep]
    exact ih (by omega) (by omega)

theorem along_of_prefixes {l l' : BatchLoop S} {txs : List Transaction} (hm : mgr.Lawful)
    (hr : Run (TxStep rt mgr batchId) l txs l')
    (h : ∀ k t, Run (TxStep rt mgr batchId) l (txs.take k) t →
      mgr.totalBalance t.state = mgr.totalBalance l.state) :
    Along (TxStep rt mgr batchId) (fun l tx => ¬Mints rt mgr batchId l tx) l txs := by
  induction hr with
  | nil l => trivial
  | @cons l tx m txs l' hstep hrest ih =>
    have hfirst : mgr.totalBalance m.state = mgr.totalBalance l.state :=
      h 1 m (.cons hstep (.nil m))
    refine ⟨fun hmint => ?_, fun t ht => ?_⟩
    · have hlt := lt_totalBalance_of_mints hm hmint hstep
      omega
    · rw [ht.unique hstep]
      refine ih fun k t hk => ?_
      rw [h (k + 1) t (.cons hstep hk), hfirst]

theorem run_take {l l' : BatchLoop S} {txs : List Transaction}
    (hr : Run (TxStep rt mgr batchId) l txs l') (k : ℕ) :
    ∃ t, Run (TxStep rt mgr batchId) l (txs.take k) t := by
  rw [← List.take_append_drop k txs] at hr
  obtain ⟨t, ht, -⟩ := run_append_iff.mp hr
  exact ⟨t, ht⟩

/-- What the batch is for: the ledger after the transfers it includes, one after another. -/
def transferAll (l : Ledger Address) (txs : List Transaction) : Ledger Address :=
  txs.foldl (fun l tx => l.transfer tx.sender tx.receiver tx.amount.toNat) l

theorem transferAll_append (l : Ledger Address) (txs txs' : List Transaction) :
    transferAll l (txs ++ txs') = transferAll (transferAll l txs) txs' :=
  List.foldl_append

/-- Along a batch that includes no self-transfer and finds its senders' nonces below
`u64::MAX`, the store follows the abstract ledger. -/
theorem ledger_run {l l' : BatchLoop S} {txs : List Transaction} (hm : mgr.Lawful)
    (hr : Run (TxStep rt mgr batchId) l txs l')
    (hfit : mgr.totalBalance l.state ≤ 2 ^ 64 - 1)
    (h : Along (TxStep rt mgr batchId) (fun l tx => Admitted rt mgr batchId l tx →
      tx.sender ≠ tx.receiver ∧
        (mgr.getAccount l.state tx.sender).nonce.toNat < 2 ^ 64 - 1) l txs)
    (start : Ledger Address) (hl : mgr.ledger l.state = transferAll start l.executed) :
    mgr.ledger l'.state = transferAll start l'.executed := by
  have hinv := hr.invariant
    (I := fun k => mgr.totalBalance k.state ≤ 2 ^ 64 - 1 ∧
      mgr.ledger k.state = transferAll start k.executed) ?_ h ⟨hfit, hl⟩
  · exact hinv.2
  intro k tx k' hk hok hstep
  obtain ⟨hkfit, hkl⟩ := hk
  by_cases hadm : Admitted rt mgr batchId k tx
  · obtain ⟨hne, hnonce⟩ := hok hadm
    have hmint : ¬Mints rt mgr batchId k tx := fun hmint => hne hmint.2.1
    have hroom := credit_lt_of_ne hkfit hadm hne
    refine ⟨?_, ?_⟩
    · rw [totalBalance_of_not_mints hm hkfit hmint hstep]
      exact hkfit
    · have hb := hstep.balance_eq_transfer hm hadm hne hroom
      have hn := hstep.nonce_eq_transfer hm hadm hne hnonce
      rw [hstep.executed hadm, transferAll_append, ← hkl]
      exact Ledger.ext hb hn
  · obtain ⟨hs, -, he, -⟩ := hstep.frame hadm
    rw [hs, he]
    exact ⟨hkfit, hkl⟩

theorem ledger_run_payment :
    ∃ (mgr : StateManager InMemoryStateManager) (s : InMemoryStateManager) (l : BatchLoop _),
      Run (TxStep localRuntime mgr "b1") (.start mgr s) [payment alice bob 10 0] l ∧
        mgr.ledger l.state = transferAll (mgr.ledger s) l.executed := by
  obtain ⟨l, hr⟩ := succeeds_iff.mp (InMemoryStateManager.succeeds localRuntime Sha256.hash
    aliceStore "b1" [payment alice bob 10 0])
  refine ⟨_, aliceStore, l, hr, ledger_run (InMemoryStateManager.lawful _) hr ?_
    ⟨fun _ => ⟨by decide, by decide +kernel⟩, fun _ _ => trivial⟩ _ rfl⟩
  rw [BatchLoop.start, totalBalance_inMemory]
  decide +kernel

/-- A batch on a total of at most `u64::MAX` conserves it after each of its transactions
exactly when none of them is an included self-transfer of a positive amount from an account
below `u64::MAX`. When the total is below `u64::MAX`, the total at the end alone decides. -/
theorem totalBalance_executeBatch_iff (rt : Runtime) (hm : mgr.Lawful) (s : S)
    (batchId : String) (txs : List Transaction) (hok : Succeeds rt mgr s batchId txs)
    (hfit : mgr.totalBalance s ≤ 2 ^ 64 - 1) :
    ((∀ k, mgr.totalBalance (executeBatch rt mgr s batchId (txs.take k)).1 =
        mgr.totalBalance s) ↔ NeverMints rt mgr batchId s txs) ∧
      (mgr.totalBalance s < 2 ^ 64 - 1 →
        (mgr.totalBalance (executeBatch rt mgr s batchId txs).1 = mgr.totalBalance s ↔
          NeverMints rt mgr batchId s txs)) := by
  obtain ⟨l, hr⟩ := succeeds_iff.mp hok
  refine ⟨⟨fun h => ?_, fun h k => ?_⟩, fun hlt => ⟨fun h => ?_, fun h => ?_⟩⟩
  · refine along_of_prefixes hm hr fun k t ht => ?_
    rw [← executeBatch_fst ht]
    exact h k
  · obtain ⟨t, ht⟩ := run_take hr k
    rw [executeBatch_fst ht]
    refine totalBalance_run hm ht hfit ?_
    rw [NeverMints, ← List.take_append_drop k txs, along_append_iff] at h
    exact h.1
  · rw [executeBatch_fst hr] at h
    exact along_of_totalBalance_eq hm hr hlt h
  · rw [executeBatch_fst hr]
    exact totalBalance_run hm hr hfit h

theorem totalBalance_payment :
    Succeeds localRuntime (InMemoryStateManager.stateManager Sha256.hash) aliceStore "b1"
        [payment alice bob 10 0] ∧
      (InMemoryStateManager.stateManager Sha256.hash).totalBalance aliceStore < 2 ^ 64 - 1 ∧
      (InMemoryStateManager.stateManager Sha256.hash).totalBalance
          (executeBatch localRuntime (InMemoryStateManager.stateManager Sha256.hash) aliceStore
            "b1" [payment alice bob 10 0]).1 =
        (InMemoryStateManager.stateManager Sha256.hash).totalBalance aliceStore := by
  have hok := InMemoryStateManager.succeeds localRuntime Sha256.hash aliceStore "b1"
    [payment alice bob 10 0]
  have hlt : (InMemoryStateManager.stateManager Sha256.hash).totalBalance aliceStore <
      2 ^ 64 - 1 := by
    rw [totalBalance_inMemory]
    decide +kernel
  have hnever : NeverMints localRuntime (InMemoryStateManager.stateManager Sha256.hash) "b1"
      aliceStore [payment alice bob 10 0] := by
    apply neverMints_of_ne
    decide
  exact ⟨hok, hlt, ((totalBalance_executeBatch_iff localRuntime
    (InMemoryStateManager.lawful Sha256.hash) aliceStore "b1" _ hok hlt.le).2 hlt).mpr hnever⟩

/-- A self-transfer of 10 by the holder of 100, in a store with no other account, leaves
110. -/
theorem totalBalance_selfTransfer :
    Succeeds localRuntime (InMemoryStateManager.stateManager Sha256.hash) aliceStore "b1"
        [payment alice alice 10 0] ∧
      (InMemoryStateManager.stateManager Sha256.hash).totalBalance aliceStore = 100 ∧
      (InMemoryStateManager.stateManager Sha256.hash).totalBalance
        (executeBatch localRuntime (InMemoryStateManager.stateManager Sha256.hash) aliceStore
          "b1" [payment alice alice 10 0]).1 = 110 := by
  refine ⟨InMemoryStateManager.succeeds localRuntime Sha256.hash aliceStore "b1" _, ?_, ?_⟩
  · rw [totalBalance_inMemory]
    decide +kernel
  · rw [totalBalance_inMemory]
    decide +kernel

end RollupX.Executor
