import RollupX.Model.Executor.Faults
import RollupX.Verification.Executor.Restart

/-! What a call on the RocksDB store does when operations on its databases fail. Without faults
the store is the one of `RollupX.Model.Executor.State`. -/

namespace RollupX.Executor.Faulty

open RocksDbStateManager (accountKey leafIndexKey nextLeafIndexKey readIndex WellIndexed
  persistAccountBlob accountValueHash keyFromAddress)

variable {J : Type*} {jmtTree : JmtTree J}

theorem getOrAssignLeafIndex_noFaults (db : KvStore) (address : Address) :
    getOrAssignLeafIndex {} db address =
      (RocksDbStateManager.getOrAssignLeafIndex db address).mapError fun e => (e, db) := by
  unfold getOrAssignLeafIndex RocksDbStateManager.getOrAssignLeafIndex
  cases db (leafIndexKey address) with
  | some bytes =>
    simp only
    split_ifs
    · rfl
    · rfl
  | none =>
    simp only [loadNextLeafIndex]
    cases RocksDbStateManager.loadNextLeafIndex db with
    | error e => rfl
    | ok idx => rfl

theorem setAccount_noFaults (jmtTree : JmtTree J) (s : RocksDbStateManager J)
    (address : Address) (account : Account) :
    setAccount jmtTree {} s address account =
      (RocksDbStateManager.setAccount jmtTree s address account).mapError
        (Prod.map Failure.error id) := by
  unfold setAccount RocksDbStateManager.setAccount
  rw [getOrAssignLeafIndex_noFaults]
  cases RocksDbStateManager.getOrAssignLeafIndex s.accountDb address with
  | error e => rfl
  | ok pair =>
    simp only [Except.mapError, extendWithProofs]
    cases jmtTree.extendWithProofs s.jmt
        ⟨keyFromAddress address, pair.1, accountValueHash account⟩ with
    | error failure => rfl
    | ok extended => simp [attempt, getAccount]

theorem executeTx_noFaults (jmtTree : JmtTree J) (emptyTree : J) (rt : Runtime)
    (batchId : String) (l : BatchLoop (RocksDbStateManager J)) (tx : Transaction) :
    executeTx jmtTree rt batchId l (tx, {}) =
      (Executor.executeTx rt (RocksDbStateManager.stateManager jmtTree emptyTree) batchId l
        tx).mapError (Prod.map Failure.error id) := by
  unfold executeTx Executor.executeTx executeTxUsing
  simp only [setAccount_noFaults, getAccount, RocksDbStateManager.stateManager,
    Bool.false_eq_true, if_false]
  cases rejection rt (l.state.getAccount tx.sender) tx with
  | some why => rfl
  | none =>
    simp only
    split_ifs with hfull
    · rfl
    · cases RocksDbStateManager.setAccount jmtTree l.state tx.sender
          (debited tx (l.state.getAccount tx.sender)) with
      | error failure => rfl
      | ok pair =>
        simp only [Except.mapError]
        cases RocksDbStateManager.setAccount jmtTree pair.2 tx.receiver
            (credited tx (l.state.getAccount tx.receiver)) with
        | error failure => rfl
        | ok pair => rfl

theorem executeBatch_noFaults (jmtTree : JmtTree J) (emptyTree : J) (rt : Runtime)
    (s : RocksDbStateManager J) (batchId : String) (txs : List Transaction) :
    executeBatch jmtTree rt s batchId false (txs.map fun tx => (tx, {})) =
      (Executor.executeBatch rt (RocksDbStateManager.stateManager jmtTree emptyTree) s batchId
        txs).map id (Except.mapError Failure.error) := by
  have hfold : ∀ l : BatchLoop (RocksDbStateManager J),
      (txs.map fun tx => (tx, ({} : TxFaults))).foldlM (executeTx jmtTree rt batchId) l =
        (txs.foldlM (Executor.executeTx rt (RocksDbStateManager.stateManager jmtTree emptyTree)
          batchId) l).mapError (Prod.map Failure.error id) := by
    induction txs with
    | nil => exact fun _ => rfl
    | cons tx txs ih =>
      intro l
      rw [List.map_cons, List.foldlM_cons, List.foldlM_cons,
        executeTx_noFaults jmtTree emptyTree]
      cases Executor.executeTx rt (RocksDbStateManager.stateManager jmtTree emptyTree) batchId
          l tx with
      | error failure => rfl
      | ok l' => exact ih l'
  unfold executeBatch Executor.executeBatch
  simp only [Bool.false_eq_true, if_false, hfold]
  rw [show BatchLoop.start (RocksDbStateManager.stateManager jmtTree emptyTree) s =
    ⟨s, jmtTree.latestRootHash s.jmt, [], [], []⟩ from rfl]
  cases txs.foldlM (Executor.executeTx rt (RocksDbStateManager.stateManager jmtTree emptyTree)
      batchId) ⟨s, jmtTree.latestRootHash s.jmt, [], [], []⟩ with
  | error failure => rfl
  | ok l => rfl

/-- The ways in which `get_or_assign_leaf_index` ends. -/
inductive LeafIndexEffect (faults : LeafIndexFaults) (db : KvStore) (address : Address) :
    Except (ExecutorError × KvStore) (UInt64 × KvStore) → Prop where
  | failed (e : ExecutorError) : LeafIndexEffect faults db address (.error (e, db))
  | known (bytes : List UInt8) : db (leafIndexKey address) = some bytes →
      LeafIndexEffect faults db address (.ok (readIndex bytes, db))
  /-- The record is written, the counter is not. -/
  | interrupted (e : ExecutorError) (idx : UInt64) : db (leafIndexKey address) = none →
      RocksDbStateManager.loadNextLeafIndex db = .ok idx → faults.readLeafIndex = none →
      faults.readNextLeafIndex = none → faults.writeLeafIndex = none →
      faults.writeNextLeafIndex ≠ none →
      LeafIndexEffect faults db address
        (.error (e, db.put (leafIndexKey address) (Bytes.be 8 idx.toNat)))
  | assigned (idx : UInt64) : db (leafIndexKey address) = none →
      RocksDbStateManager.loadNextLeafIndex db = .ok idx → faults.readLeafIndex = none →
      faults.readNextLeafIndex = none → faults.writeLeafIndex = none →
      LeafIndexEffect faults db address
        (.ok (idx, (db.put (leafIndexKey address) (Bytes.be 8 idx.toNat)).put nextLeafIndexKey
          (Bytes.be 8 (Bytes.saturatingAdd idx 1).toNat)))

theorem getOrAssignLeafIndex_effect (faults : LeafIndexFaults) (db : KvStore)
    (address : Address) :
    LeafIndexEffect faults db address (getOrAssignLeafIndex faults db address) := by
  unfold getOrAssignLeafIndex
  cases hread : faults.readLeafIndex with
  | some e => exact .failed _
  | none =>
    cases hrecord : db (leafIndexKey address) with
    | some bytes =>
      simp only
      split_ifs
      · exact .failed _
      · exact .known bytes hrecord
    | none =>
      simp only
      cases hreadNext : faults.readNextLeafIndex with
      | some e => exact .failed _
      | none =>
        simp only [loadNextLeafIndex]
        cases hnext : RocksDbStateManager.loadNextLeafIndex db with
        | error e => exact .failed _
        | ok idx =>
          cases hwrite : faults.writeLeafIndex with
          | some e => exact .failed _
          | none =>
            cases hwriteNext : faults.writeNextLeafIndex with
            | some e =>
              exact .interrupted _ idx hrecord hnext hread hreadNext hwrite
                (by simp [hwriteNext])
            | none => exact .assigned idx hrecord hnext hread hreadNext hwrite

def left {E S D : Type*} : Except (E × S) (D × S) → S
  | .error (_, s) => s
  | .ok (_, s) => s

theorem LeafIndexEffect.wellIndexed {faults : LeafIndexFaults} {db : KvStore}
    {address : Address} {r : Except (ExecutorError × KvStore) (UInt64 × KvStore)}
    (h : LeafIndexEffect faults db address r) (hdb : WellIndexed db) :
    WellIndexed (left r) := by
  cases h with
  | failed e | known bytes _ => exact hdb
  | interrupted e idx _ _ _ _ _ _ => exact hdb.put _ _ (.inl (Bytes.length_be _ _))
  | assigned idx _ _ _ _ _ =>
    exact (hdb.put _ _ (.inl (Bytes.length_be _ _))).put _ _ (.inl (Bytes.length_be _ _))

theorem LeafIndexEffect.accountKey_eq {faults : LeafIndexFaults} {db : KvStore}
    {address : Address} {r : Except (ExecutorError × KvStore) (UInt64 × KvStore)}
    (h : LeafIndexEffect faults db address r) (a : Address) :
    left r (accountKey a) = db (accountKey a) := by
  have hleaf : accountKey a ≠ leafIndexKey address :=
    (RocksDbStateManager.leafIndexKey_ne_accountKey address a).symm
  have hnext : accountKey a ≠ nextLeafIndexKey :=
    (RocksDbStateManager.nextLeafIndexKey_ne_accountKey a).symm
  cases h with
  | failed e => rfl
  | known bytes _ => rfl
  | interrupted e idx _ _ _ _ _ _ => simp [left, KvStore.put, hleaf]
  | assigned idx _ _ _ _ _ => simp [left, KvStore.put, hleaf, hnext]

/-- The ways in which `set_account` ends. -/
inductive SetAccountEffect (jmtTree : JmtTree J) (faults : SetAccountFaults)
    (s : RocksDbStateManager J) (address : Address) (account : Account) :
    Except (Failure × RocksDbStateManager J) (StateDiff × RocksDbStateManager J) → Prop where
  | indexFailed (e : ExecutorError) (db : KvStore) :
      getOrAssignLeafIndex faults.leafIndex s.accountDb address = .error (e, db) →
      SetAccountEffect jmtTree faults s address account (.error (.error e, ⟨s.jmt, db⟩))
  | treeFailed (failure : Failure) (idx : UInt64) (db : KvStore) (jmt : J) :
      getOrAssignLeafIndex faults.leafIndex s.accountDb address = .ok (idx, db) →
      extendWithProofs jmtTree faults s.jmt
        ⟨keyFromAddress address, idx, accountValueHash account⟩ = .error (failure, jmt) →
      SetAccountEffect jmtTree faults s address account (.error (failure, ⟨jmt, db⟩))
  | rootUnread (idx : UInt64) (db : KvStore) (jmt : J) :
      getOrAssignLeafIndex faults.leafIndex s.accountDb address = .ok (idx, db) →
      extendWithProofs jmtTree faults s.jmt
        ⟨keyFromAddress address, idx, accountValueHash account⟩ = .ok ([], jmt) →
      faults.readRoot = true →
      SetAccountEffect jmtTree faults s address account (.error (.panicked, ⟨jmt, db⟩))
  | accountFailed (e : ExecutorError) (idx : UInt64) (db : KvStore) (path : List Hash)
      (jmt : J) :
      getOrAssignLeafIndex faults.leafIndex s.accountDb address = .ok (idx, db) →
      extendWithProofs jmtTree faults s.jmt
        ⟨keyFromAddress address, idx, accountValueHash account⟩ = .ok (path, jmt) →
      faults.writeAccount ≠ none →
      SetAccountEffect jmtTree faults s address account (.error (.error e, ⟨jmt, db⟩))
  | written (diff : StateDiff) (idx : UInt64) (db : KvStore) (path : List Hash) (jmt : J) :
      getOrAssignLeafIndex faults.leafIndex s.accountDb address = .ok (idx, db) →
      extendWithProofs jmtTree faults s.jmt
        ⟨keyFromAddress address, idx, accountValueHash account⟩ = .ok (path, jmt) →
      faults.writeAccount = none →
      SetAccountEffect jmtTree faults s address account
        (.ok (diff, ⟨jmt, persistAccountBlob db address account⟩))

theorem setAccount_effect (jmtTree : JmtTree J) (faults : SetAccountFaults)
    (s : RocksDbStateManager J) (address : Address) (account : Account) :
    SetAccountEffect jmtTree faults s address account
      (setAccount jmtTree faults s address account) := by
  unfold setAccount
  cases hidx : getOrAssignLeafIndex faults.leafIndex s.accountDb address with
  | error failure => exact .indexFailed _ _ hidx
  | ok pair =>
    obtain ⟨idx, db⟩ := pair
    simp only
    cases htree : extendWithProofs jmtTree faults s.jmt
        ⟨keyFromAddress address, idx, accountValueHash account⟩ with
    | error failure => exact .treeFailed _ idx db _ hidx htree
    | ok pair =>
      obtain ⟨path, jmt⟩ := pair
      by_cases hroot : path = [] ∧ faults.readRoot = true
      · simp only [if_pos hroot]
        exact .rootUnread idx db jmt hidx (hroot.1 ▸ htree) hroot.2
      · simp only [if_neg hroot]
        cases hwrite : faults.writeAccount with
        | some e => exact .accountFailed _ idx db path jmt hidx htree (by simp [hwrite])
        | none => exact .written _ idx db path jmt hidx htree hwrite

variable {faults : SetAccountFaults} {s s' : RocksDbStateManager J} {address : Address}
  {account : Account}

theorem accountDb_setAccount (jmtTree : JmtTree J) (faults : SetAccountFaults)
    (s : RocksDbStateManager J) (address : Address) (account : Account) :
    match setAccount jmtTree faults s address account with
    | .error (_, s') =>
      s'.accountDb = left (getOrAssignLeafIndex faults.leafIndex s.accountDb address)
    | .ok (_, s') => s'.accountDb = persistAccountBlob
        (left (getOrAssignLeafIndex faults.leafIndex s.accountDb address)) address account := by
  have heffect := setAccount_effect jmtTree faults s address account
  generalize setAccount jmtTree faults s address account = r at heffect ⊢
  cases heffect with
  | indexFailed _ db hidx | treeFailed _ idx db jmt hidx _ | rootUnread idx db jmt hidx _ _
  | accountFailed _ idx db path jmt hidx _ _ | written _ idx db path jmt hidx _ _ =>
    simp [hidx, left]

theorem getAccount_of_assigned (faults : LeafIndexFaults) (s : RocksDbStateManager J)
    (address : Address) (jmt : J) :
    RocksDbStateManager.getAccount
      ⟨jmt, left (getOrAssignLeafIndex faults s.accountDb address)⟩ = s.getAccount :=
  RocksDbStateManager.getAccount_congr
    (getOrAssignLeafIndex_effect faults s.accountDb address).accountKey_eq

theorem getAccount_setAccount_error {failure : Failure}
    (h : setAccount jmtTree faults s address account = .error (failure, s')) :
    s'.getAccount = s.getAccount := by
  have hdb := accountDb_setAccount jmtTree faults s address account
  rw [h] at hdb
  rw [← getAccount_of_assigned faults.leafIndex s address s'.jmt, ← hdb]

theorem getAccount_setAccount_ok {diff : StateDiff}
    (h : setAccount jmtTree faults s address account = .ok (diff, s')) :
    s'.getAccount = Function.update s.getAccount address account := by
  have hdb := accountDb_setAccount jmtTree faults s address account
  rw [h] at hdb
  rw [← getAccount_of_assigned faults.leafIndex s address s'.jmt,
    ← RocksDbStateManager.getAccount_persistAccountBlob, ← hdb]

theorem wellIndexed_setAccount (jmtTree : JmtTree J) (faults : SetAccountFaults)
    (address : Address) (account : Account) (hs : WellIndexed s.accountDb) :
    WellIndexed (left (setAccount jmtTree faults s address account)).accountDb := by
  have hassigned :=
    (getOrAssignLeafIndex_effect faults.leafIndex s.accountDb address).wellIndexed hs
  have hdb := accountDb_setAccount jmtTree faults s address account
  cases hr : setAccount jmtTree faults s address account with
  | error failure =>
    rw [hr] at hdb
    exact hdb ▸ hassigned
  | ok pair =>
    rw [hr] at hdb
    exact hdb ▸ hassigned.put _ _ (.inr ⟨address, rfl⟩)

/-- Some operation of the assignment fails. Only a new address needs the counter. -/
def LeafIndexFaults.strike (faults : LeafIndexFaults) (known : Bool) : Bool :=
  faults.readLeafIndex.isSome ||
    !known && (faults.readNextLeafIndex.isSome || faults.writeLeafIndex.isSome ||
      faults.writeNextLeafIndex.isSome)

def SetAccountFaults.strike (faults : SetAccountFaults) (known : Bool) : Bool :=
  faults.leafIndex.strike known || faults.readTree || faults.writeTree || faults.readRoot ||
    faults.writeAccount.isSome

/-- The call returns an error. It does not if the tree panics first. -/
def SetAccountFaults.fail (faults : SetAccountFaults) (known : Bool) : Bool :=
  faults.leafIndex.strike known ||
    !faults.readTree && (faults.writeTree || !faults.readRoot && faults.writeAccount.isSome)

def hasLeafIndex (db : KvStore) (address : Address) : Bool :=
  (db (leafIndexKey address)).isSome

theorem getOrAssignLeafIndex_ok_iff {faults : LeafIndexFaults} {db : KvStore}
    (hdb : WellIndexed db) (address : Address) :
    (∃ r, getOrAssignLeafIndex faults db address = .ok r) ↔
      faults.strike (hasLeafIndex db address) = false := by
  obtain ⟨read, readNext, write, writeNext⟩ := faults
  obtain ⟨idx, hidx⟩ := hdb.loadNextLeafIndex
  unfold getOrAssignLeafIndex LeafIndexFaults.strike hasLeafIndex
  cases read with
  | some e => simp
  | none =>
    cases hrecord : db (leafIndexKey address) with
    | some bytes => simp [hdb.leaf address bytes hrecord]
    | none =>
      cases readNext with
      | some e => simp [loadNextLeafIndex]
      | none =>
        cases write with
        | some e => simp [loadNextLeafIndex, hidx, attempt]
        | none =>
          cases writeNext with
          | some e | none => simp [loadNextLeafIndex, hidx, attempt]

theorem extendWithProofs_of_ok {jmt jmt' : J} {w : TreeWrite} {path : List Hash}
    (hext : jmtTree.extendWithProofs jmt w = .ok (path, jmt')) (faults : SetAccountFaults) :
    extendWithProofs jmtTree faults jmt w =
      if faults.readTree then .error (.panicked, jmt)
      else if faults.writeTree then
        .error (.error (.state "jmt extend_with_proofs: Failed writing a batch to RocksDB"), jmt)
      else .ok (path, jmt') := by
  simp only [extendWithProofs, hext]

section Struck

variable (hjmt : ∀ idx, ∃ r, jmtTree.extendWithProofs s.jmt
    ⟨keyFromAddress address, idx, accountValueHash account⟩ = .ok r)
  (hs : WellIndexed s.accountDb)
include hjmt hs

theorem setAccount_of_fail (hfail : faults.fail (hasLeafIndex s.accountDb address) = true) :
    ∃ e s', setAccount jmtTree faults s address account = .error (.error e, s') := by
  have hindex : (∃ r, getOrAssignLeafIndex faults.leafIndex s.accountDb address = .ok r) ↔ _ :=
    getOrAssignLeafIndex_ok_iff hs address
  unfold SetAccountFaults.fail at hfail
  unfold setAccount
  cases hidx : getOrAssignLeafIndex faults.leafIndex s.accountDb address with
  | error failure => exact ⟨_, _, rfl⟩
  | ok pair =>
    obtain ⟨⟨path, jmt⟩, hext⟩ := hjmt pair.1
    have hstrike := hindex.mp ⟨pair, hidx⟩
    simp only [hstrike, Bool.false_or, Bool.and_eq_true, Bool.not_eq_true', Bool.or_eq_true]
      at hfail
    obtain ⟨htree, hwrite⟩ := hfail
    simp only [extendWithProofs_of_ok hext, htree, Bool.false_eq_true, if_false]
    rcases hwrite with hwrite | ⟨hroot, hwrite⟩
    · simp [hwrite]
    · obtain ⟨e, he⟩ := Option.isSome_iff_exists.mp hwrite
      cases faults.writeTree with
      | true => simp
      | false => simp [hroot, he, attempt]

theorem setAccount_of_not_strike
    (hstrike : faults.strike (hasLeafIndex s.accountDb address) = false) :
    ∃ diff s', setAccount jmtTree faults s address account = .ok (diff, s') := by
  have hindex : (∃ r, getOrAssignLeafIndex faults.leafIndex s.accountDb address = .ok r) ↔ _ :=
    getOrAssignLeafIndex_ok_iff hs address
  simp only [SetAccountFaults.strike, Bool.or_eq_false_iff, Option.isSome_eq_false_iff,
    Option.isNone_iff_eq_none] at hstrike
  obtain ⟨⟨⟨⟨hindexed, htree⟩, hbatch⟩, hroot⟩, hwrite⟩ := hstrike
  obtain ⟨⟨idx, db⟩, hidx⟩ := hindex.mpr hindexed
  obtain ⟨⟨path, jmt⟩, hext⟩ := hjmt idx
  unfold setAccount
  simp only [hidx, extendWithProofs_of_ok hext, htree, hbatch, hroot, hwrite, attempt,
    Bool.false_eq_true, and_false, if_false]
  exact ⟨_, _, rfl⟩

end Struck

end RollupX.Executor.Faulty
