import RollupX.Verification.Executor.AccountTree

/-! Batches on a store that fails. A failed read of an account is taken for an empty account, a
failed read of the tree is a panic, and any other failure ends the batch where it is. -/

namespace RollupX.Executor.Faulty

open Machine
open RollupX.MerkleTree (Database HashTree sha256Tree)
open RocksDbStateManager (Sound sound_fresh stateManager rocksDb zksyncTree)

variable {J : Type*} {jmtTree : JmtTree J} {emptyTree : J} {rt : Runtime} {batchId : String}

abbrev Ledger := ℕ × (Address → Account)

def Included (rt : Runtime) (batchId : String) (count : ℕ) (sender : Account)
    (tx : Transaction) : Prop :=
  rejection rt sender tx = none ∧ count < maxIncluded batchId

instance (count : ℕ) (sender : Account) (tx : Transaction) :
    Decidable (Included rt batchId count sender tx) :=
  inferInstanceAs (Decidable (_ ∧ _))

def settle (rt : Runtime) (batchId : String) (ledger : Ledger) (tx : Transaction) : Ledger :=
  if Included rt batchId ledger.1 (ledger.2 tx.sender) tx then
    (ledger.1 + 1, transferred ledger.2 tx)
  else ledger

theorem settle_of_included (ledger : Ledger) {tx : Transaction}
    (h : Included rt batchId ledger.1 (ledger.2 tx.sender) tx) :
    settle rt batchId ledger tx = (ledger.1 + 1, transferred ledger.2 tx) :=
  if_pos h

theorem settle_of_not_included (ledger : Ledger) {tx : Transaction}
    (h : ¬Included rt batchId ledger.1 (ledger.2 tx.sender) tx) :
    settle rt batchId ledger tx = ledger :=
  if_neg h

def ledgerOf (l : BatchLoop (RocksDbStateManager J)) : Ledger :=
  (l.executed.length, l.state.getAccount)

theorem ledgerOf_txStep {m m' : BatchLoop (RocksDbStateManager J)} {tx : Transaction}
    (hstep : TxStep rt (stateManager jmtTree emptyTree) batchId m tx m') :
    ledgerOf m' = settle rt batchId (ledgerOf m) tx := by
  by_cases hadm : Admitted rt (stateManager jmtTree emptyTree) batchId m tx
  · have haccounts : m'.state.getAccount = _ :=
      hstep.getAccount (RocksDbStateManager.lawful jmtTree emptyTree) hadm
    rw [ledgerOf, haccounts, hstep.executed hadm, List.length_append, List.length_singleton]
    exact (settle_of_included (ledgerOf m) hadm).symm
  · obtain ⟨hstate, -, hexecuted, -⟩ := hstep.frame hadm
    rw [ledgerOf, hstate, hexecuted]
    exact (settle_of_not_included (ledgerOf m) hadm).symm

theorem ledgerOf_run {m m' : BatchLoop (RocksDbStateManager J)} {txs : List Transaction}
    (hr : Run (TxStep rt (stateManager jmtTree emptyTree) batchId) m txs m') :
    ledgerOf m' = txs.foldl (settle rt batchId) (ledgerOf m) := by
  induction hr with
  | nil m => rfl
  | cons hstep _ ih => rw [List.foldl_cons, ← ledgerOf_txStep hstep, ih]

/-- Either the batch returns an error and leaves every account, or it returns a trace and leaves
the accounts that the batch gives on a store that does not fail. -/
def LedgerIntact (jmtTree : JmtTree J) (emptyTree : J) (rt : Runtime)
    (s : RocksDbStateManager J) (batchId : String) (readRoot : Bool)
    (items : List (Transaction × TxFaults)) : Prop :=
  match executeBatch jmtTree rt s batchId readRoot items with
  | (s', .error (.error _)) => s'.getAccount = s.getAccount
  | (_, .error .panicked) => False
  | (s', .ok _) => s'.getAccount =
      (Executor.executeBatch rt (stateManager jmtTree emptyTree) s batchId
        (items.map Prod.fst)).1.getAccount

/-- Which faults of a transaction do no harm, where the loop has come to it. -/
inductive Spared (rt : Runtime) (batchId : String) (l : BatchLoop (RocksDbStateManager J))
    (item : Transaction × TxFaults) : Prop where
  /-- The transaction is refused on what is read, and on what is stored. -/
  | refused :
      ¬Included rt batchId l.executed.length
        (getAccount item.2.readSender l.state item.1.sender) item.1 →
      ¬Included rt batchId l.executed.length (l.state.getAccount item.1.sender) item.1 →
      Spared rt batchId l item
  /-- The first write of the batch returns an error. -/
  | undone :
      Included rt batchId l.executed.length
        (getAccount item.2.readSender l.state item.1.sender) item.1 →
      l.executed = [] →
      item.2.setSender.fail (hasLeafIndex l.state.accountDb item.1.sender) = true →
      Spared rt batchId l item
  /-- Only reads of accounts fail, and of such as hold nothing. -/
  | unharmed :
      (item.2.readSender = true → l.state.getAccount item.1.sender = default) →
      (item.2.readReceiver = true → l.state.getAccount item.1.receiver = default) →
      item.2.setSender.strike (hasLeafIndex l.state.accountDb item.1.sender) = false →
      item.2.setReceiver.strike (item.1.receiver = item.1.sender ||
        hasLeafIndex l.state.accountDb item.1.receiver) = false →
      Spared rt batchId l item

theorem getAccount_of_imp {readFails : Bool} {s : RocksDbStateManager J} {a : Address}
    (h : readFails = true → s.getAccount a = default) :
    getAccount readFails s a = s.getAccount a := by
  unfold getAccount
  split_ifs with hfails
  · exact (h hfails).symm
  · rfl

section Transaction

variable {l : BatchLoop (RocksDbStateManager J)} {tx : Transaction} {faults : TxFaults}

theorem executeTx_of_not_included (jmtTree : JmtTree J)
    (hread : ¬Included rt batchId l.executed.length
      (getAccount faults.readSender l.state tx.sender) tx) :
    ∃ l', executeTx jmtTree rt batchId l (tx, faults) = .ok l' ∧ l'.state = l.state ∧
      l'.executed = l.executed := by
  obtain ⟨why, hok⟩ := executeTxUsing_of_not hread
  exact ⟨_, hok, rfl, rfl⟩

variable {s₁ s₂ : RocksDbStateManager J} {d₁ d₂ : StateDiff} {failure : Failure}
  (hread : Included rt batchId l.executed.length
    (getAccount faults.readSender l.state tx.sender) tx)
include hread

theorem executeTx_of_error
    (h₁ : setAccount jmtTree faults.setSender l.state tx.sender
      (debited tx (getAccount faults.readSender l.state tx.sender)) = .error (failure, s₁)) :
    executeTx jmtTree rt batchId l (tx, faults) = .error (failure, s₁) :=
  executeTxUsing_of_error hread.1 hread.2 h₁

variable (h₁ : setAccount jmtTree faults.setSender l.state tx.sender
  (debited tx (getAccount faults.readSender l.state tx.sender)) = .ok (d₁, s₁))
include h₁

theorem executeTx_of_ok_error
    (h₂ : setAccount jmtTree faults.setReceiver s₁ tx.receiver
      (credited tx (getAccount faults.readReceiver l.state tx.receiver)) = .error (failure, s₂)) :
    executeTx jmtTree rt batchId l (tx, faults) = .error (failure, s₂) :=
  executeTxUsing_of_ok_error hread.1 hread.2 h₁ h₂

theorem executeTx_of_ok
    (h₂ : setAccount jmtTree faults.setReceiver s₁ tx.receiver
      (credited tx (getAccount faults.readReceiver l.state tx.receiver)) = .ok (d₂, s₂)) :
    ∃ l', executeTx jmtTree rt batchId l (tx, faults) = .ok l' ∧ l'.state = s₂ ∧
      l'.executed = l.executed ++ [tx] :=
  executeTxUsing_of_ok hread.1 hread.2 h₁ h₂

end Transaction

section Step

variable {h : HashTree} {l : BatchLoop (RocksDbStateManager Database)}
  {item : Transaction × TxFaults} {before : Address → Account}

theorem exists_setAccount {s : RocksDbStateManager Database} (hs : Sound h s)
    {faults : SetAccountFaults} {a : Address} (account : Account)
    (hstrike : faults.strike (hasLeafIndex s.accountDb a) = false) :
    ∃ diff s', setAccount (zksyncTree h) faults s a account = .ok (diff, s') ∧ Sound h s' := by
  obtain ⟨diff, s', hset⟩ :=
    setAccount_of_not_strike (hs.exists_extended a account) hs.indexed hstrike
  have hsound := hs.setAccount faults a account
  rw [hset] at hsound
  exact ⟨diff, s', hset, hsound⟩

/-- A transaction that is spared ends the batch with the accounts it started with, or it does
what it does on a store that does not fail. -/
theorem Spared.step (hspared : Spared rt batchId l item) (hl : Sound h l.state)
    (hbefore : l.executed = [] → l.state.getAccount = before) :
    (∃ e s, executeTx (zksyncTree h) rt batchId l item = .error (.error e, s) ∧
      s.getAccount = before) ∨
    ∃ l', executeTx (zksyncTree h) rt batchId l item = .ok l' ∧ Sound h l'.state ∧
      (l'.executed = [] → l'.state.getAccount = before) ∧
      ledgerOf l' = settle rt batchId (ledgerOf l) item.1 := by
  obtain ⟨tx, faults⟩ := item
  have hrefused : ∀ l' : BatchLoop (RocksDbStateManager Database), l'.state = l.state →
      l'.executed = l.executed →
      ¬Included rt batchId l.executed.length (l.state.getAccount tx.sender) tx →
      Sound h l'.state ∧ (l'.executed = [] → l'.state.getAccount = before) ∧
        ledgerOf l' = settle rt batchId (ledgerOf l) tx := by
    intro l' hstate hexecuted hstored
    rw [settle_of_not_included (ledgerOf l) hstored, ledgerOf, hstate, hexecuted]
    exact ⟨hl, hbefore, rfl⟩
  cases hspared with
  | refused hread hstored =>
    obtain ⟨l', hok, hstate, hexecuted⟩ := executeTx_of_not_included (zksyncTree h) hread
    exact .inr ⟨l', hok, hrefused l' hstate hexecuted hstored⟩
  | undone hread hfirst hfail =>
    obtain ⟨e, s, hset⟩ :=
      setAccount_of_fail (hl.exists_extended tx.sender _) hl.indexed hfail
    exact .inl ⟨e, s, executeTx_of_error hread hset,
      (getAccount_setAccount_error hset).trans (hbefore hfirst)⟩
  | unharmed hsender hreceiver hstrike hstrike' =>
    have hsender' := getAccount_of_imp hsender
    have hreceiver' := getAccount_of_imp hreceiver
    by_cases hinc : Included rt batchId l.executed.length
        (getAccount faults.readSender l.state tx.sender) tx
    · obtain ⟨d₁, s₁, h₁, hs₁⟩ := exists_setAccount hl
        (debited tx (getAccount faults.readSender l.state tx.sender)) hstrike
      have hknown := hasLeafIndex_setAccount h₁ tx.receiver
      rw [← hknown] at hstrike'
      obtain ⟨d₂, s₂, h₂, hs₂⟩ := exists_setAccount hs₁
        (credited tx (getAccount faults.readReceiver l.state tx.receiver)) hstrike'
      obtain ⟨l', hok, hstate, hexecuted⟩ := executeTx_of_ok hinc h₁ h₂
      refine .inr ⟨l', hok, hstate ▸ hs₂, fun hnil => ?_, ?_⟩
      · rw [hexecuted] at hnil
        exact absurd hnil (by simp)
      · rw [hsender'] at hinc
        rw [ledgerOf, hstate, hexecuted, List.length_append, List.length_singleton,
          getAccount_setAccount_ok h₂, getAccount_setAccount_ok h₁, hsender', hreceiver']
        exact (settle_of_included (ledgerOf l) hinc).symm
    · obtain ⟨l', hok, hstate, hexecuted⟩ := executeTx_of_not_included (zksyncTree h) hinc
      exact .inr ⟨l', hok, hrefused l' hstate hexecuted (hsender' ▸ hinc)⟩

theorem foldlM_of_spared {items : List (Transaction × TxFaults)} (hl : Sound h l.state)
    (hbefore : l.executed = [] → l.state.getAccount = before)
    (hspared : Along (fun l item l' => executeTx (zksyncTree h) rt batchId l item = .ok l')
      (Spared rt batchId) l items) :
    (∃ e s, items.foldlM (executeTx (zksyncTree h) rt batchId) l = .error (.error e, s) ∧
      s.getAccount = before) ∨
    ∃ l', items.foldlM (executeTx (zksyncTree h) rt batchId) l = .ok l' ∧
      ledgerOf l' = (items.map Prod.fst).foldl (settle rt batchId) (ledgerOf l) := by
  induction items generalizing l with
  | nil => exact .inr ⟨l, rfl, rfl⟩
  | cons item items ih =>
    rw [List.foldlM_cons]
    rcases hspared.1.step hl hbefore with ⟨e, s, herror, hs⟩ | ⟨l₁, hok, hl₁, hbefore₁, hledger⟩
    · exact .inl ⟨e, s, by rw [herror]; rfl, hs⟩
    · rw [hok, List.map_cons, List.foldl_cons, ← hledger]
      exact ih hl₁ hbefore₁ (hspared.2 l₁ hok)

end Step

theorem strike_noFaults (known : Bool) : ({} : SetAccountFaults).strike known = false := by
  cases known <;> rfl

theorem writable_sound (h : HashTree) : (rocksDb h).Writable (Sound h) where
  exists_ok {s} a account hs := by
    obtain ⟨diff, s', hset, -⟩ := exists_setAccount hs account (strike_noFaults _)
    rw [setAccount_noFaults] at hset
    change ∃ r, RocksDbStateManager.setAccount (zksyncTree h) s a account = .ok r
    cases hr : RocksDbStateManager.setAccount (zksyncTree h) s a account with
    | error failure =>
      rw [hr] at hset
      cases hset
    | ok r => exact ⟨r, rfl⟩
  keeps {s s' a account diff} hs hset := by
    have hsound := hs.setAccount {} a account
    rw [setAccount_noFaults,
      show RocksDbStateManager.setAccount (zksyncTree h) s a account = .ok (diff, s') from hset]
      at hsound
    exact hsound

theorem ledgerIntact_iff {h : HashTree} {s : RocksDbStateManager Database} (hs : Sound h s)
    (items : List (Transaction × TxFaults)) :
    LedgerIntact (zksyncTree h) Database.empty rt s batchId false items ↔
      match items.foldlM (executeTx (zksyncTree h) rt batchId) (BatchLoop.start (rocksDb h) s) with
      | .error (.error _, s') => s'.getAccount = s.getAccount
      | .error (.panicked, _) => False
      | .ok l => l.state.getAccount =
          ((items.map Prod.fst).foldl (settle rt batchId) (0, s.getAccount)).2 := by
  have hsucceeds : Succeeds rt (rocksDb h) s batchId (items.map Prod.fst) :=
    (writable_sound h).succeeds hs batchId (items.map Prod.fst)
  obtain ⟨m, hr⟩ := succeeds_iff.mp hsucceeds
  have hsettled : m.state.getAccount = _ := congrArg Prod.snd (ledgerOf_run hr)
  have hstart : BatchLoop.start (rocksDb h) s =
      ⟨s, (zksyncTree h).latestRootHash s.jmt, [], [], []⟩ := rfl
  unfold LedgerIntact executeBatch
  rw [show stateManager (zksyncTree h) Database.empty = rocksDb h from rfl, executeBatch_fst hr,
    hsettled]
  simp only [Bool.false_eq_true, if_false, ← hstart]
  generalize items.foldlM (executeTx (zksyncTree h) rt batchId) (BatchLoop.start (rocksDb h) s) = r
  rcases r with ⟨⟨e⟩ | -, s'⟩ | l
  · rfl
  · rfl
  · rfl

/-- A batch leaves the ledger intact if the root can be read at its start and every transaction
is spared: it is refused whatever is read, or the first write of the batch returns an error, or
nothing fails but reads of accounts that hold nothing. -/
theorem ledgerIntact_of_spared (h : HashTree) (rt : Runtime) (s : RocksDbStateManager Database)
    (hs : Sound h s) (batchId : String) (items : List (Transaction × TxFaults))
    (hspared : Along (fun l item l' => executeTx (zksyncTree h) rt batchId l item = .ok l')
      (Spared rt batchId) (BatchLoop.start (rocksDb h) s) items) :
    LedgerIntact (zksyncTree h) Database.empty rt s batchId false items := by
  rw [ledgerIntact_iff hs]
  rcases foldlM_of_spared (l := BatchLoop.start (rocksDb h) s) hs (fun _ => rfl) hspared with
    ⟨e, s', herror, hs'⟩ | ⟨l, hok, hledger⟩
  · rw [herror]
    exact hs'
  · rw [hok]
    exact congrArg Prod.snd hledger

theorem exists_aliceAndBob (h : HashTree) : ∃ s, Sound h s ∧ s.getAccount =
    Function.update (Function.update (fun _ => default) alice ⟨100, 0⟩) bob ⟨50, 0⟩ := by
  obtain ⟨d₁, s₁, h₁, hs₁⟩ := exists_setAccount (sound_fresh (h := h)) ⟨100, 0⟩
    (strike_noFaults (hasLeafIndex _ alice))
  obtain ⟨d₂, s, h₂, hs⟩ := exists_setAccount hs₁ ⟨50, 0⟩ (strike_noFaults (hasLeafIndex _ bob))
  refine ⟨s, hs, ?_⟩
  rw [getAccount_setAccount_ok h₂, getAccount_setAccount_ok h₁]
  rfl

theorem ledgerIntact_sparedPayments :
    ∃ s, Sound sha256Tree s ∧ s.getAccount alice = ⟨100, 0⟩ ∧ s.getAccount bob = ⟨50, 0⟩ ∧
      LedgerIntact (zksyncTree sha256Tree) Database.empty localRuntime s "b1" false
        [(payment bob alice 60 0, { readSender := true }),
          (payment alice charlie 10 0, { readReceiver := true })] ∧
      LedgerIntact (zksyncTree sha256Tree) Database.empty localRuntime s "b1" false
        [(payment alice bob 10 0, { setSender := { writeAccount := some "IO error" } })] := by
  obtain ⟨s, hs, haccounts⟩ := exists_aliceAndBob sha256Tree
  have halice : s.getAccount alice = ⟨100, 0⟩ := by rw [haccounts]; decide
  have hbob : s.getAccount bob = ⟨50, 0⟩ := by rw [haccounts]; decide
  have hcharlie : s.getAccount charlie = default := by rw [haccounts]; decide
  have hblank : ¬Included localRuntime "b1" 0 default (payment bob alice 60 0) := by
    decide +kernel
  have hpoor : ¬Included localRuntime "b1" 0 (s.getAccount bob) (payment bob alice 60 0) := by
    rw [hbob]
    decide +kernel
  have hpays : Included localRuntime "b1" 0 (s.getAccount alice) (payment alice bob 10 0) := by
    rw [halice]
    decide +kernel
  refine ⟨s, hs, halice, hbob,
    ledgerIntact_of_spared sha256Tree localRuntime s hs "b1" _ ⟨.refused hblank hpoor, ?_⟩,
    ledgerIntact_of_spared sha256Tree localRuntime s hs "b1" _
      ⟨.undone hpays rfl ?_, fun _ _ => trivial⟩⟩
  · intro l hl
    obtain ⟨why, hok⟩ := executeTxUsing_of_not (l := BatchLoop.start (rocksDb sha256Tree) s) hblank
    obtain rfl := Except.ok.inj (hl.symm.trans hok)
    refine ⟨.unharmed (by rintro ⟨⟩) (fun _ => hcharlie) (strike_noFaults _)
      (strike_noFaults _), ?_⟩
    exact fun _ _ => trivial
  · simp [SetAccountFaults.fail]

/-! ## One payment

For a batch of one payment the condition is also necessary. -/

section Payment

variable {h : HashTree} {s : RocksDbStateManager Database} {tx : Transaction} {faults : TxFaults}

theorem exists_error_of_strike {faults : SetAccountFaults} {a : Address} (hs : Sound h s)
    (account : Account) (hroot : faults.readRoot = false)
    (hstrike : faults.strike (hasLeafIndex s.accountDb a) = true) :
    ∃ failure s', setAccount (zksyncTree h) faults s a account = .error (failure, s') ∧
      (faults.fail (hasLeafIndex s.accountDb a) = false → failure = .panicked) := by
  cases hfail : faults.fail (hasLeafIndex s.accountDb a) with
  | true =>
    obtain ⟨e, s', hset⟩ := setAccount_of_fail (hs.exists_extended a account) hs.indexed hfail
    exact ⟨_, s', hset, by simp⟩
  | false =>
    simp only [SetAccountFaults.fail, SetAccountFaults.strike, hroot, Bool.or_eq_false_iff,
      Bool.or_false, Bool.not_false, Bool.true_and] at hfail hstrike
    have hread : faults.readTree = true := by
      cases hread : faults.readTree with
      | true => rfl
      | false => simp_all
    obtain ⟨⟨idx, db⟩, hidx⟩ := (getOrAssignLeafIndex_ok_iff hs.indexed a).mpr hfail.1
    refine ⟨.panicked, ⟨s.jmt, db⟩, ?_, fun _ => rfl⟩
    simp [setAccount, hidx, extendWithProofs, hread]

theorem amount_le_of_included {count : ℕ} {account : Account}
    (hinc : Included rt batchId count account tx) : tx.amount ≤ account.balance :=
  ((rejection_eq_none_iff account tx).mp hinc.1).2.2

theorem debited_ne {account : Account} (hamount : 0 < tx.amount)
    (hle : tx.amount ≤ account.balance) : debited tx account ≠ account := by
  intro heq
  have hbalance := congrArg (fun x => x.balance.toNat) heq
  simp only [debited, UInt64.toNat_sub_of_le _ _ hle] at hbalance
  rw [UInt64.lt_iff_toNat_lt] at hamount
  rw [UInt64.le_iff_toNat_le] at hle
  simp at hamount
  omega

theorem eq_default_of_credited {account : Account}
    (hfits : account.balance.toNat + tx.amount.toNat < 2 ^ 64)
    (heq : credited tx default = credited tx account) : account = default := by
  obtain ⟨balance, nonce⟩ := account
  have hbalance := congrArg (fun x => x.balance.toNat) heq
  have hnonce : 0 = nonce := congrArg Account.nonce heq
  have hzero : balance.toNat = 0 := by
    simp only [credited, Bytes.toNat_saturatingAdd,
      show (default : Account).balance.toNat = 0 from rfl] at hbalance hfits
    omega
  rw [← hnonce, UInt64.toNat_inj.mp (hzero.trans UInt64.toNat_zero.symm)]
  rfl

theorem ledgerIntact_single (hs : Sound h s) :
    LedgerIntact (zksyncTree h) Database.empty rt s batchId false [(tx, faults)] ↔
      match executeTx (zksyncTree h) rt batchId (BatchLoop.start (rocksDb h) s) (tx, faults) with
      | .error (.error _, s') => s'.getAccount = s.getAccount
      | .error (.panicked, _) => False
      | .ok l => l.state.getAccount = (settle rt batchId (0, s.getAccount) tx).2 := by
  rw [ledgerIntact_iff hs, List.foldlM_cons]
  rcases executeTx (zksyncTree h) rt batchId (BatchLoop.start (rocksDb h) s) (tx, faults) with
    ⟨⟨e⟩ | -, s'⟩ | l
  · rfl
  · rfl
  · rfl

theorem readSender_eq_false (hamount : 0 < tx.amount)
    (hread : Included rt batchId 0 (getAccount faults.readSender s tx.sender) tx) :
    faults.readSender = false := by
  by_contra hfails
  have hle := amount_le_of_included hread
  rw [getAccount, if_pos (by simpa using hfails)] at hle
  exact absurd hamount (UInt64.not_lt.mpr hle)

section Intact

variable (hs : Sound h s)
  (hintact : LedgerIntact (zksyncTree h) Database.empty rt s batchId false [(tx, faults)])
include hs hintact

theorem not_included_of_intact (hne : tx.sender ≠ tx.receiver) (hamount : 0 < tx.amount)
    (hread : ¬Included rt batchId 0 (getAccount faults.readSender s tx.sender) tx) :
    ¬Included rt batchId 0 (s.getAccount tx.sender) tx := by
  intro hinc
  obtain ⟨l, hok, hstate, -⟩ :=
    executeTx_of_not_included (l := BatchLoop.start (rocksDb h) s) (zksyncTree h) hread
  rw [ledgerIntact_single hs, hok] at hintact
  simp only [hstate, settle_of_included (0, s.getAccount) hinc] at hintact
  have hpaid := congrFun hintact tx.sender
  rw [transferred, Function.update_of_ne hne, Function.update_self] at hpaid
  exact debited_ne hamount (amount_le_of_included hinc) hpaid.symm

variable (hread : Included rt batchId (BatchLoop.start (rocksDb h) s).executed.length
  (getAccount faults.readSender s tx.sender) tx)
include hread

theorem not_strike_of_intact (hroot : faults.setSender.readRoot = false)
    (hfail : faults.setSender.fail (hasLeafIndex s.accountDb tx.sender) = false) :
    faults.setSender.strike (hasLeafIndex s.accountDb tx.sender) = false := by
  by_contra hstrike
  obtain ⟨failure, s', hset, hpanics⟩ := exists_error_of_strike hs
    (debited tx (getAccount faults.readSender s tx.sender)) hroot (by simpa using hstrike)
  obtain rfl := hpanics hfail
  rw [ledgerIntact_single hs, executeTx_of_error hread hset] at hintact
  exact hintact

variable {s₁ : RocksDbStateManager Database} {d₁ : StateDiff}
  (hsender : faults.readSender = false)
  (h₁ : setAccount (zksyncTree h) faults.setSender s tx.sender
    (debited tx (getAccount faults.readSender s tx.sender)) = .ok (d₁, s₁))
include hsender h₁

theorem not_strike_receiver_of_intact (hs₁ : Sound h s₁) (hamount : 0 < tx.amount)
    (hroot : faults.setReceiver.readRoot = false) :
    faults.setReceiver.strike (hasLeafIndex s₁.accountDb tx.receiver) = false := by
  by_contra hstrike
  obtain ⟨failure, s₂, h₂, -⟩ := exists_error_of_strike hs₁
    (credited tx (getAccount faults.readReceiver s tx.receiver)) hroot (by simpa using hstrike)
  rw [ledgerIntact_single hs, executeTx_of_ok_error hread h₁ h₂] at hintact
  cases failure with
  | panicked => exact hintact
  | error e =>
    have haccounts : s₂.getAccount = s.getAccount := hintact
    rw [getAccount_setAccount_error h₂, getAccount_setAccount_ok h₁, hsender,
      Function.update_eq_self_iff] at haccounts
    rw [hsender] at hread
    exact debited_ne hamount (amount_le_of_included hread) haccounts

theorem receiver_eq_default_of_intact {s₂ : RocksDbStateManager Database} {d₂ : StateDiff}
    (hfits : (s.getAccount tx.receiver).balance.toNat + tx.amount.toNat < 2 ^ 64)
    (h₂ : setAccount (zksyncTree h) faults.setReceiver s₁ tx.receiver
      (credited tx (getAccount faults.readReceiver s tx.receiver)) = .ok (d₂, s₂))
    (hfails : faults.readReceiver = true) : s.getAccount tx.receiver = default := by
  obtain ⟨l, hok, hstate, -⟩ := executeTx_of_ok hread h₁ h₂
  rw [hsender] at hread
  rw [ledgerIntact_single hs, hok] at hintact
  simp only [hstate, getAccount_setAccount_ok h₂,
    settle_of_included (0, s.getAccount) hread] at hintact
  have hcredit := congrFun hintact tx.receiver
  rw [transferred, Function.update_self, Function.update_self, getAccount, if_pos hfails]
    at hcredit
  exact eq_default_of_credited hfits hcredit

end Intact

/-- For a payment of more than nothing to another account, whose new balance fits. -/
theorem ledgerIntact_single_iff (hs : Sound h s) (hne : tx.sender ≠ tx.receiver)
    (hamount : 0 < tx.amount)
    (hfits : (s.getAccount tx.receiver).balance.toNat + tx.amount.toNat < 2 ^ 64)
    (hroot : faults.setSender.readRoot = false) (hroot' : faults.setReceiver.readRoot = false) :
    LedgerIntact (zksyncTree h) Database.empty rt s batchId false [(tx, faults)] ↔
      Spared rt batchId (BatchLoop.start (rocksDb h) s) (tx, faults) := by
  constructor
  · intro hintact
    by_cases hread : Included rt batchId 0 (getAccount faults.readSender s tx.sender) tx
    · have hsender := readSender_eq_false hamount hread
      cases hfail : faults.setSender.fail (hasLeafIndex s.accountDb tx.sender) with
      | true => exact .undone hread rfl hfail
      | false =>
        have hstrike := not_strike_of_intact hs hintact hread hroot hfail
        obtain ⟨d₁, s₁, h₁, hs₁⟩ := exists_setAccount hs
          (debited tx (getAccount faults.readSender s tx.sender)) hstrike
        have hstrike' :=
          not_strike_receiver_of_intact hs hintact hread hsender h₁ hs₁ hamount hroot'
        obtain ⟨d₂, s₂, h₂, -⟩ := exists_setAccount hs₁
          (credited tx (getAccount faults.readReceiver s tx.receiver)) hstrike'
        refine .unharmed (by simp [hsender])
          (receiver_eq_default_of_intact hs hintact hread hsender h₁ hfits h₂) hstrike ?_
        exact hasLeafIndex_setAccount h₁ tx.receiver ▸ hstrike'
    · exact .refused hread (not_included_of_intact hs hintact hne hamount hread)
  · intro hspared
    rw [ledgerIntact_single hs]
    rcases hspared.step hs (fun _ => rfl) with ⟨e, s', herror, hs'⟩ | ⟨l, hok, -, -, hledger⟩
    · rw [herror]
      exact hs'
    · rw [hok]
      exact congrArg Prod.snd hledger

end Payment

def aliceAndBob : RocksDbStateManager Unit :=
  let s := left (setAccount constantTree {} ⟨(), fun _ => none⟩ alice ⟨100, 0⟩)
  left (setAccount constantTree {} s bob ⟨50, 0⟩)

theorem LedgerIntact.getAccount {s : RocksDbStateManager J} {readRoot : Bool}
    {items : List (Transaction × TxFaults)}
    (h : LedgerIntact jmtTree emptyTree rt s batchId readRoot items) (a : Address) :
    (executeBatch jmtTree rt s batchId readRoot items).1.getAccount a =
      if (executeBatch jmtTree rt s batchId readRoot items).2.isOk then
        (Executor.executeBatch rt (stateManager jmtTree emptyTree) s batchId
          (items.map Prod.fst)).1.getAccount a
      else s.getAccount a := by
  unfold LedgerIntact at h
  split at h
  · next s' e hbatch => simp [hbatch, h, Except.isOk, Except.toBool]
  · exact h.elim
  · next s' trace hbatch => simp [hbatch, h, Except.isOk, Except.toBool]

/-- What a payment of 10 from `alice` to `bob` returns, unless it panics, and leaves. -/
def paymentUnder (faults : TxFaults) : Option Bool × Account × Account :=
  let r := executeBatch constantTree localRuntime aliceAndBob "b1" false
    [(payment alice bob 10 0, faults)]
  (match r.2 with
    | .ok _ => some true
    | .error (.error _) => some false
    | .error .panicked => none,
    r.1.getAccount alice, r.1.getAccount bob)

/-- If the second write fails, the call returns an error and `alice` has paid. If the receiver
cannot be read, the call succeeds and `bob` has lost 50. If the tree cannot be read, it panics. -/
theorem ledger_corrupted :
    paymentUnder {} = (some true, ⟨90, 1⟩, ⟨60, 0⟩) ∧
      paymentUnder { setReceiver := { writeAccount := some "IO error" } } =
        (some false, ⟨90, 1⟩, ⟨50, 0⟩) ∧
      paymentUnder { readReceiver := true } = (some true, ⟨90, 1⟩, ⟨10, 0⟩) ∧
      paymentUnder { setSender := { readTree := true } } = (none, ⟨100, 0⟩, ⟨50, 0⟩) ∧
      ¬ LedgerIntact constantTree () localRuntime aliceAndBob "b1" false
        [(payment alice bob 10 0, { setReceiver := { writeAccount := some "IO error" } })] ∧
      ¬ LedgerIntact constantTree () localRuntime aliceAndBob "b1" false
        [(payment alice bob 10 0, { readReceiver := true })] := by
  refine ⟨by decide +kernel, by decide +kernel, by decide +kernel, by decide +kernel, ?_, ?_⟩
  · intro h
    exact absurd (h.getAccount alice) (by decide +kernel)
  · intro h
    exact absurd (h.getAccount bob) (by decide +kernel)

end RollupX.Executor.Faulty
