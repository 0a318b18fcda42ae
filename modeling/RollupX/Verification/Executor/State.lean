import Mathlib.Data.Fintype.Pi
import RollupX.Library.Ledger
import RollupX.Model.Executor.State

/-! What a store owes the engine, and that both stores of the executor provide it. -/

namespace RollupX.Executor

open Finset

/-- A successful write replaces one account, leaves the others, and reports both values. -/
structure StateManager.Lawful {S : Type*} (mgr : StateManager S) : Prop where
  getAccount_setAccount {s s' : S} {address : Address} {account : Account} {diff : StateDiff} :
    mgr.setAccount s address account = .ok (diff, s') →
      mgr.getAccount s' = Function.update (mgr.getAccount s) address account
  diff_setAccount {s s' : S} {address : Address} {account : Account} {diff : StateDiff} :
    mgr.setAccount s address account = .ok (diff, s') →
      diff.account = address ∧
      diff.oldBalance = (mgr.getAccount s address).balance ∧
      diff.newBalance = account.balance ∧
      diff.oldNonce = (mgr.getAccount s address).nonce ∧
      diff.newNonce = account.nonce

theorem nodup_addresses (accounts : AccountMap) : (accounts.toList.map Prod.fst).Nodup := by
  rw [List.Nodup, List.pairwise_map]
  refine Std.ExtTreeMap.distinct_keys_toList.imp fun hne heq => hne ?_
  rw [heq]
  exact Std.ReflCmp.compare_self

namespace InMemoryStateManager

theorem getAccount_setAccount (s : InMemoryStateManager) (address : Address)
    (account : Account) :
    (s.setAccount address account).2.getAccount =
      Function.update s.getAccount address account := by
  funext other
  by_cases h : other = address
  · subst other
    simp [getAccount, setAccount]
  · have hne : address ≠ other := fun he => h he.symm
    simp [getAccount, setAccount, h, hne, Std.ExtTreeMap.getElem?_insert]

theorem lawful (sha256 : List UInt8 → Hash) : (stateManager sha256).Lawful where
  getAccount_setAccount := by
    intro s s' address account diff h
    have hs : (s.setAccount address account).2 = s' :=
      congrArg Prod.snd (Except.ok.inj h)
    rw [← hs]
    exact s.getAccount_setAccount address account
  diff_setAccount := by
    intro s s' address account diff h
    have hd : (s.setAccount address account).1 = diff :=
      congrArg Prod.fst (Except.ok.inj h)
    subst hd
    exact ⟨rfl, rfl, rfl, rfl, rfl⟩

end InMemoryStateManager

namespace RocksDbStateManager

theorem accountKey_injective : Function.Injective accountKey := by
  intro a b h
  exact Vector.toList_inj.mp (List.append_cancel_left h)

theorem accountKey_head (a : Address) : (accountKey a).head? = some 97 := by
  have hp : utf8 "acct:" = [97, 99, 99, 116, 58] := by decide +kernel
  simp [accountKey, hp]

theorem leafIndexKey_ne_accountKey (a b : Address) : leafIndexKey a ≠ accountKey b := by
  intro h
  have hp : utf8 "leafidx:" = [108, 101, 97, 102, 105, 100, 120, 58] := by decide +kernel
  have hhead := accountKey_head b
  rw [← h] at hhead
  simp [leafIndexKey, hp] at hhead

theorem nextLeafIndexKey_ne_accountKey (b : Address) : nextLeafIndexKey ≠ accountKey b := by
  intro h
  have hp : nextLeafIndexKey.head? = some 109 := by decide +kernel
  rw [h, accountKey_head] at hp
  simp at hp

theorem leafIndexKey_injective : Function.Injective leafIndexKey := by
  intro a b h
  exact Vector.toList_inj.mp (List.append_cancel_left h)

theorem leafIndexKey_ne_nextLeafIndexKey (a : Address) : leafIndexKey a ≠ nextLeafIndexKey := by
  intro h
  have hp : nextLeafIndexKey.head? = some 109 := by decide +kernel
  have hl : utf8 "leafidx:" = [108, 101, 97, 102, 105, 100, 120, 58] := by decide +kernel
  rw [← h] at hp
  simp [leafIndexKey, hl] at hp

theorem getOrAssignLeafIndex_accountKey {db db' : KvStore} {a b : Address} {idx : UInt64}
    (h : getOrAssignLeafIndex db a = .ok (idx, db')) :
    db' (accountKey b) = db (accountKey b) := by
  unfold getOrAssignLeafIndex at h
  cases hleaf : db (leafIndexKey a) with
  | some bytes =>
    simp only [hleaf] at h
    split at h
    · cases h
    · obtain ⟨-, rfl⟩ := Prod.mk.inj (Except.ok.inj h)
      rfl
  | none =>
    simp only [hleaf] at h
    cases hnext : loadNextLeafIndex db with
    | error e => simp [hnext, bind, Except.bind] at h
    | ok i =>
      simp only [hnext, bind, Except.bind, pure, Except.pure, Except.ok.injEq,
        Prod.mk.injEq] at h
      rw [← h.2]
      simp [KvStore.put, Function.update_of_ne, (leafIndexKey_ne_accountKey a b).symm,
        (nextLeafIndexKey_ne_accountKey b).symm]

variable {J : Type*} (jmtTree : JmtTree J)

theorem getAccount_congr {s s' : RocksDbStateManager J}
    (h : ∀ a, s'.accountDb (accountKey a) = s.accountDb (accountKey a)) :
    s'.getAccount = s.getAccount := by
  funext a
  rw [getAccount, getAccount, h]

theorem getAccount_persistAccountBlob (jmt : J) (db : KvStore) (address : Address)
    (account : Account) :
    getAccount ⟨jmt, persistAccountBlob db address account⟩ =
      Function.update (getAccount ⟨jmt, db⟩) address account := by
  funext other
  by_cases ho : other = address
  · subst other
    simp [getAccount, persistAccountBlob, KvStore.put, Bincode.readAccount_account]
  · have hkey : accountKey other ≠ accountKey address := fun he => ho (accountKey_injective he)
    simp [getAccount, persistAccountBlob, KvStore.put, hkey, ho]

theorem setAccount_ok {s s' : RocksDbStateManager J} {address : Address} {account : Account}
    {diff : StateDiff} (h : setAccount jmtTree s address account = .ok (diff, s')) :
    ∃ idx db, getOrAssignLeafIndex s.accountDb address = .ok (idx, db) ∧
      s'.accountDb = persistAccountBlob db address account ∧
      diff.account = address ∧
      diff.oldBalance = (s.getAccount address).balance ∧
      diff.newBalance = account.balance ∧
      diff.oldNonce = (s.getAccount address).nonce ∧
      diff.newNonce = account.nonce := by
  unfold setAccount at h
  cases hidx : getOrAssignLeafIndex s.accountDb address with
  | error e => simp [hidx] at h
  | ok pair =>
    obtain ⟨idx, db⟩ := pair
    simp only [hidx] at h
    split at h
    · cases h
    · obtain ⟨rfl, rfl⟩ := Prod.mk.inj (Except.ok.inj h)
      exact ⟨idx, db, rfl, rfl, rfl, rfl, rfl, rfl, rfl⟩

theorem lawful (emptyTree : J) : (stateManager jmtTree emptyTree).Lawful where
  getAccount_setAccount := by
    intro s s' address account diff h
    obtain ⟨idx, db, hidx, hdb, -⟩ := setAccount_ok jmtTree h
    have hs' : s' = ⟨s'.jmt, persistAccountBlob db address account⟩ := by rw [← hdb]
    change getAccount s' = Function.update (getAccount s) address account
    rw [hs', getAccount_persistAccountBlob]
    congr 1
    exact getAccount_congr fun a => getOrAssignLeafIndex_accountKey hidx
  diff_setAccount := by
    intro s s' address account diff h
    obtain ⟨idx, db, -, -, hdiff⟩ := setAccount_ok jmtTree h
    exact hdiff

end RocksDbStateManager

noncomputable instance : Fintype Address :=
  Fintype.ofInjective (fun (a : Address) (i : Fin 20) => a[i].toFin) (by
    intro a b h
    ext i hi
    exact congrArg Fin.val (congrFun h ⟨i, hi⟩))

variable {S : Type*}

def StateManager.ledger (mgr : StateManager S) (s : S) : Ledger Address :=
  ⟨fun a => (mgr.getAccount s a).balance.toNat, fun a => (mgr.getAccount s a).nonce.toNat⟩

@[irreducible] noncomputable def StateManager.totalBalance (mgr : StateManager S) (s : S) : ℕ :=
  (mgr.ledger s).total

theorem StateManager.totalBalance_eq_sum (mgr : StateManager S) (s : S) :
    mgr.totalBalance s = ∑ a, (mgr.ledger s).balance a := by
  rw [totalBalance, Ledger.total]

theorem StateManager.Lawful.totalBalance_setAccount {mgr : StateManager S} (hm : mgr.Lawful)
    {s s' : S} {address : Address} {account : Account} {diff : StateDiff}
    (h : mgr.setAccount s address account = .ok (diff, s')) :
    mgr.totalBalance s' + (mgr.getAccount s address).balance.toNat =
      mgr.totalBalance s + account.balance.toNat := by
  have hget : (fun a => (mgr.getAccount s' a).balance.toNat) =
      Function.update (fun a => (mgr.getAccount s a).balance.toNat) address
        account.balance.toNat := by
    funext a
    rw [hm.getAccount_setAccount h]
    by_cases ha : a = address
    · subst a
      simp
    · simp [ha]
  have hsum := sum_update_add (fun a => (mgr.getAccount s a).balance.toNat) address
    account.balance.toNat
  simp only [totalBalance_eq_sum, ledger]
  rw [hget]
  exact hsum

end RollupX.Executor
