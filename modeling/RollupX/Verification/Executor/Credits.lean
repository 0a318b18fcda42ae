import RollupX.Verification.Executor.Conservation
import RollupX.Verification.Executor.Restart

/-! When the saturating credit of a transaction is exact. The seeding of the genesis accounts
decides: it gives every listed account the same balance and does not look at the sum. -/

namespace RollupX.Executor

open Machine Finset

variable {S : Type*} {rt : Runtime} {mgr : StateManager S} {good : S → Prop}

/-- If the transaction is included, its receiver's balance grows by exactly the amount. -/
def RaisesExactly (rt : Runtime) (mgr : StateManager S) (batchId : String) (l : BatchLoop S)
    (tx : Transaction) : Prop :=
  Admitted rt mgr batchId l tx → ∀ l', TxStep rt mgr batchId l tx l' →
    (mgr.getAccount l'.state tx.receiver).balance.toNat =
      (mgr.getAccount l.state tx.receiver).balance.toNat + tx.amount.toNat

def NoSelfTransfers (calls : List (String × List Transaction)) : Prop :=
  ∀ call ∈ calls, ∀ tx ∈ call.2, tx.sender ≠ tx.receiver

theorem raisesExactly_of_fit (hm : mgr.Lawful) {batchId : String} {l : BatchLoop S}
    {tx : Transaction} (hne : tx.sender ≠ tx.receiver)
    (hfit : mgr.totalBalance l.state ≤ 2 ^ 64 - 1) : RaisesExactly rt mgr batchId l tx := by
  intro hadm l' hstep
  have hroom := credit_lt_of_ne hfit hadm hne
  have hsat := Bytes.toNat_saturatingAdd
    (mgr.getAccount l.state tx.receiver).balance tx.amount
  rw [hstep.getAccount hm hadm, Function.update_self]
  simp only [credited]
  omega

theorem TxStep.totalBalance_fit (hm : mgr.Lawful) {batchId : String} {l l' : BatchLoop S}
    {tx : Transaction} (hne : tx.sender ≠ tx.receiver)
    (hfit : mgr.totalBalance l.state ≤ 2 ^ 64 - 1) (hstep : TxStep rt mgr batchId l tx l') :
    mgr.totalBalance l'.state ≤ 2 ^ 64 - 1 := by
  rw [totalBalance_of_not_mints hm hfit (fun hmints => hne hmints.2.1) hstep]
  exact hfit

theorem eachIteration_raisesExactly (hm : mgr.Lawful) {e : Session S}
    {calls : List (String × List Transaction)} (hself : NoSelfTransfers calls)
    (hfit : mgr.totalBalance e.state ≤ 2 ^ 64 - 1) :
    EachIteration rt mgr (RaisesExactly rt mgr) e calls := by
  refine Along.of_invariant (I := fun e => mgr.totalBalance e.state ≤ 2 ^ 64 - 1) ?_ ?_ hfit
  · intro e call hcall e' hfit hstep
    obtain ⟨l, hr, rfl⟩ := callStep_iff.mp hstep
    refine hr.invariant (I := fun l => mgr.totalBalance l.state ≤ 2 ^ 64 - 1)
      (fun _ tx _ hl hne hstep => hstep.totalBalance_fit hm hne hl)
      (Along.of_forall fun tx htx _ => hself call hcall tx htx) hfit
  · intro e call hcall hfit
    exact Along.of_invariant (I := fun l => mgr.totalBalance l.state ≤ 2 ^ 64 - 1)
      (fun _ tx htx _ hl hstep => hstep.totalBalance_fit hm (hself call hcall tx htx) hl)
      (fun _ tx htx hl => raisesExactly_of_fit hm (hself call hcall tx htx) hl) hfit

def collect (receiver : Address) (balance : UInt64) (senders : List Address) :
    List (String × List Transaction) :=
  senders.map fun a => ("b1", [payment a receiver balance 0])

theorem noSelfTransfers_collect {receiver : Address} (balance : UInt64)
    {senders : List Address} (h : receiver ∉ senders) :
    NoSelfTransfers (collect receiver balance senders) := by
  intro call hcall tx htx heq
  obtain ⟨a, ha, rfl⟩ := List.mem_map.mp hcall
  rw [List.mem_singleton.mp htx] at heq
  change a = receiver at heq
  exact h (heq ▸ ha)

theorem admitted_collect {s : S} {a receiver : Address} {balance : UInt64}
    (ha : mgr.getAccount s a = ⟨balance, 0⟩) :
    Admitted localRuntime mgr "b1" (BatchLoop.start mgr s) (payment a receiver balance 0) := by
  refine ⟨(rejection_eq_none_iff _ _).mpr ⟨by rfl, ?_, ?_⟩, maxIncluded_pos _⟩
  · change (mgr.getAccount s a).nonce = 0
    rw [ha]
  · change balance ≤ (mgr.getAccount s a).balance
    rw [ha]
    exact UInt64.le_refl balance

theorem collect_lt (hm : mgr.Lawful) (hw : mgr.Writable good) {receiver : Address}
    {balance : UInt64} {senders : List Address} {e : Session S} (hgood : good e.state)
    (hsenders : ∀ a ∈ senders, mgr.getAccount e.state a = ⟨balance, 0⟩)
    (hnodup : (receiver :: senders).Nodup)
    (hexact : EachIteration localRuntime mgr (RaisesExactly localRuntime mgr) e
      (collect receiver balance senders)) :
    (mgr.getAccount e.state receiver).balance.toNat + senders.length * balance.toNat <
      2 ^ 64 := by
  induction senders generalizing e with
  | nil =>
    have := (mgr.getAccount e.state receiver).balance.toNat_lt
    simpa using this
  | cons a senders ih =>
    have hadm : Admitted localRuntime mgr "b1" (BatchLoop.start mgr e.state)
        (payment a receiver balance 0) := admitted_collect (hsenders a List.mem_cons_self)
    obtain ⟨l, hstep⟩ : ∃ l, TxStep localRuntime mgr "b1" (BatchLoop.start mgr e.state)
        (payment a receiver balance 0) l := hw.exists_txStep hgood _
    obtain ⟨⟨hraise, -⟩, hrest⟩ := hexact
    have hreceiver := hraise hadm l hstep
    have hcall : CallStep localRuntime mgr e ("b1", [payment a receiver balance 0])
        ⟨l.state, e.traces ++ [buildTrace localRuntime "b1" (mgr.currentRoot e.state) l]⟩ :=
      callStep_iff.mpr ⟨l, .cons hstep (.nil l), rfl⟩
    obtain ⟨hne, hnodup⟩ := List.nodup_cons.mp hnodup
    obtain ⟨hna, hnodup⟩ := List.nodup_cons.mp hnodup
    rw [List.mem_cons, not_or] at hne
    have hlt := ih (hstep.writable hw hgood) ?_ (List.nodup_cons.mpr ⟨hne.2, hnodup⟩)
      (hrest _ hcall)
    · change (mgr.getAccount l.state receiver).balance.toNat =
        (mgr.getAccount e.state receiver).balance.toNat + balance.toNat at hreceiver
      change (mgr.getAccount l.state receiver).balance.toNat + _ < _ at hlt
      rw [List.length_cons, Nat.add_mul, Nat.one_mul]
      omega
    · intro b hb
      have hbr : b ≠ receiver := fun h => hne.2 (h ▸ hb)
      have hba : b ≠ a := fun h => hna (h ▸ hb)
      change mgr.getAccount l.state b = _
      rw [hstep.getAccount hm hadm]
      change Function.update (Function.update (mgr.getAccount e.state) a _) receiver _ b = _
      rw [Function.update_of_ne hbr, Function.update_of_ne hba]
      exact hsenders b (List.mem_cons_of_mem a hb)

theorem getAccount_seeded (hm : mgr.Lawful) (hw : mgr.Writable good) {s₀ s : S} (hs₀ : good s₀)
    (hempty : mgr.getAccount s₀ = fun _ => default) {env : GenesisEnv}
    (hseed : seedGenesisAccounts env mgr s₀ = (s, .ok ())) :
    good s ∧ ∀ a, mgr.getAccount s a =
      if a ∈ env.seeded then ⟨env.genesisBalance, 0⟩ else default := by
  have hspec := seedEntries_spec hm hw env.genesisBalance env.entries hs₀
  have hs : (seedEntries mgr env.genesisBalance s₀ env.entries).1 = s :=
    congrArg Prod.fst hseed
  rw [hs, hempty] at hspec
  exact hspec

theorem totalBalance_seeded {s : S} {env : GenesisEnv}
    (hs : ∀ a, mgr.getAccount s a =
      if a ∈ env.seeded then ⟨env.genesisBalance, 0⟩ else default) :
    mgr.totalBalance s = env.seeded.toFinset.card * env.genesisBalance.toNat := by
  have hbalance : ∀ a, (mgr.ledger s).balance a =
      if a ∈ env.seeded.toFinset then env.genesisBalance.toNat else 0 := by
    intro a
    simp only [StateManager.ledger, hs, List.mem_toFinset]
    split_ifs
    · rfl
    · rfl
  rw [mgr.totalBalance_eq_sum, sum_congr rfl fun a _ => hbalance a, sum_ite_mem, univ_inter,
    sum_const, smul_eq_mul]

/-- After the genesis accounts are seeded in an empty store, the credits of all batches without
self-transfers are exact, for every executor, exactly when the seeded balances add up to less
than `2 ^ 64`. -/
theorem credits_exact_iff (hm : mgr.Lawful) (hw : mgr.Writable good) {s₀ s : S}
    (hs₀ : good s₀) (hempty : mgr.getAccount s₀ = fun _ => default) (env : GenesisEnv)
    (hseed : seedGenesisAccounts env mgr s₀ = (s, .ok ())) :
    (∀ rt calls, NoSelfTransfers calls →
        EachIteration rt mgr (RaisesExactly rt mgr) (Session.start s) calls) ↔
      env.seeded.toFinset.card * env.genesisBalance.toNat < 2 ^ 64 := by
  obtain ⟨hgood, haccounts⟩ := getAccount_seeded hm hw hs₀ hempty hseed
  constructor
  · intro hexact
    rw [List.card_toFinset]
    cases hlist : env.seeded.dedup with
    | nil => simp
    | cons receiver senders =>
      have hnodup : (receiver :: senders).Nodup := hlist ▸ List.nodup_dedup env.seeded
      have hmem : ∀ a ∈ receiver :: senders,
          mgr.getAccount s a = ⟨env.genesisBalance, 0⟩ := by
        intro a ha
        rw [haccounts, if_pos (List.mem_dedup.mp (hlist ▸ ha))]
      have hself := noSelfTransfers_collect env.genesisBalance (List.nodup_cons.mp hnodup).1
      have hlt := collect_lt hm hw hgood
        (fun a ha => hmem a (List.mem_cons_of_mem receiver ha)) hnodup
        (hexact localRuntime _ hself)
      have hreceiver : (mgr.getAccount s receiver).balance = env.genesisBalance :=
        congrArg Account.balance (hmem receiver List.mem_cons_self)
      change (mgr.getAccount s receiver).balance.toNat + _ < _ at hlt
      rw [hreceiver] at hlt
      rw [List.length_cons, Nat.add_mul, Nat.one_mul]
      omega
  · intro hfit rt calls hself
    refine eachIteration_raisesExactly hm hself ?_
    change mgr.totalBalance s ≤ _
    rw [totalBalance_seeded haccounts]
    omega

abbrev rocks : StateManager (RocksDbStateManager Unit) :=
  RocksDbStateManager.stateManager constantTree ()

theorem credits_exact_aliceGenesis :
    ∃ s, seedGenesisAccounts aliceGenesis rocks ⟨(), fun _ => none⟩ = (s, .ok ()) ∧
      ∀ rt calls, NoSelfTransfers calls →
        EachIteration rt rocks (RaisesExactly rt rocks) (Session.start s) calls := by
  have hseed : (seedGenesisAccounts aliceGenesis rocks ⟨(), fun _ => none⟩).2 = .ok () := by
    decide +kernel
  have hseeded : aliceGenesis.seeded = [alice] := by decide +kernel
  have hbalance : aliceGenesis.genesisBalance = 100 := by decide +kernel
  refine ⟨_, Prod.ext rfl hseed, (credits_exact_iff
    (RocksDbStateManager.lawful constantTree ())
    (RocksDbStateManager.writable () fun _ _ => ⟨_, rfl⟩)
    RocksDbStateManager.wellIndexed_empty rfl aliceGenesis (Prod.ext rfl hseed)).mpr ?_⟩
  rw [hseeded, hbalance]
  decide

def richGenesis : GenesisEnv where
  accounts := some
    "0x0101010101010101010101010101010101010101,0x0202020202020202020202020202020202020202"
  balance := some "10000000000000000000"

/-- The seeding is accepted, and a payment of all that one account holds is included, but the
other account does not receive all of it. -/
theorem credit_saturates_richGenesis :
    (seedGenesisAccounts richGenesis rocks ⟨(), fun _ => none⟩).2 = .ok () ∧
      (executeBatch localRuntime rocks
          (seedGenesisAccounts richGenesis rocks ⟨(), fun _ => none⟩).1 "b1"
          [payment alice bob 10000000000000000000 0]).2.map
        ExecutionTraceV1.executedTransactions =
          .ok [payment alice bob 10000000000000000000 0] ∧
      ((seedGenesisAccounts richGenesis rocks ⟨(), fun _ => none⟩).1.getAccount bob).balance =
        10000000000000000000 ∧
      ((executeBatch localRuntime rocks
          (seedGenesisAccounts richGenesis rocks ⟨(), fun _ => none⟩).1 "b1"
          [payment alice bob 10000000000000000000 0]).1.getAccount bob).balance =
        18446744073709551615 := by
  decide +kernel

end RollupX.Executor
